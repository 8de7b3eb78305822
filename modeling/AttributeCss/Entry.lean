/-
Entries: a declaration with all facets seen for it.

The key of an entry is its attribute and its value with an equals sign
between them.  Attribute names hold no equals sign, so the first one of a
key separates the two again.
-/
import AttributeCss.Facets
import AttributeCss.Text.Basic

namespace AttributeCss

/-- A declaration with the facets seen for it. -/
structure Entry where
  /-- Attribute and value, with an equals sign between them. -/
  key : Text
  facets : Facets
deriving DecidableEq, Repr

namespace Entry

/-- The key of an attribute and a value. -/
def keyOf (name value : Text) : Text := name ++ '=' :: value

def of (name value : Text) (facets : Facets) : Entry := ⟨keyOf name value, facets⟩

/-- The attribute and the value of a key; a key without equals sign has no value. -/
def splitKey (key : Text) : Text × Text := (Text.cutFirst '=' key).getD (key, [])

def split (e : Entry) : Text × Text := splitKey e.key

/-- The attribute name of an entry. -/
def name (e : Entry) : Text := e.split.1

def value (e : Entry) : Text := e.split.2

theorem splitKey_keyOf {a : Text} (v : Text) (h : '=' ∉ a) : splitKey (keyOf a v) = (a, v) := by
  simp [splitKey, keyOf, Text.cutFirst_append v h]

end Entry

end AttributeCss
