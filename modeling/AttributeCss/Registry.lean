/-
The registry of declarations.

The registry collects entries over all scans: keys in the order in which
they were first seen, each with all facets seen for it.  It only grows.  A
scan that adds a key or a facet makes it stale; restoring a snapshot does
not; writing the stylesheet makes it fresh.
-/
import AttributeCss.Entry
import AttributeCss.OrderedMap
import AttributeCss.Snapshot
import AttributeCss.Vocabulary

namespace AttributeCss

/-- All declarations seen so far. -/
structure Registry where
  vocabulary : Vocabulary
  seen : OrderedMap Facets
  /-- The stylesheet last written lacks something. -/
  stale : Bool

namespace Registry

/-- The registry before any scan: empty, and stale since nothing was written yet. -/
def empty (v : Vocabulary) : Registry := ⟨v, .empty, true⟩

def get? (r : Registry) (key : Text) : Option Facets := r.seen.get? key

/-- The facets `f` join what was seen for a key. -/
def merged (f : Facets) (old : Option Facets) : Facets := old.getD .none ∪ f

/-- A key is seen with facets: stale if key or facets are new. -/
def note (r : Registry) (key : Text) (f : Facets) : Registry :=
  { r with
    seen := r.seen.alter key (merged f)
    stale := r.stale || r.get? key ≠ some (merged f (r.get? key)) }

/-- The values an occurrence is counted for: the words of a listed value, else the value. -/
def valuesOf (value : Text) (f : Facets) : List Text :=
  if f.listed then Text.words value else [value]

/-- Notes one value of an attribute and counts it if its key is new. -/
def noteValue (name : Text) (f : Facets) (state : Nat × Registry) (value : Text) :
    Nat × Registry :=
  let (count, r) := state
  let key := Entry.keyOf name value
  (if (r.get? key).isNone then count + 1 else count, r.note key (f ∪ r.vocabulary.valueFacets value))

/-- Records one occurrence of an attribute; the number of keys it added comes with the result. -/
def collect (r : Registry) (name value : Text) (f : Facets) : Nat × Registry :=
  (valuesOf value f).foldl (noteValue name f) (0, r)

/-- Restores stored entries; the registry does not become stale. -/
def load (r : Registry) (s : Snapshot) : Registry :=
  { r with seen := s.foldl (fun m p => m.alter p.1 (merged p.2)) r.seen }

def snapshot (r : Registry) : Snapshot := r.seen.toList

def entries (r : Registry) : List Entry := r.seen.toList.map fun p => ⟨p.1, p.2⟩

/-- The stylesheet has been written. -/
def freshened (r : Registry) : Registry := { r with stale := false }

def size (r : Registry) : Nat := r.seen.size

def isEmpty (r : Registry) : Bool := r.seen.isEmpty

end Registry

end AttributeCss
