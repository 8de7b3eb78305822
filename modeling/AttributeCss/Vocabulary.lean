/-
The vocabulary: which attributes declare something, and how.

A vocabulary is a marker and a list of pseudo-classes, as accepted options
hold them.  It reads facets off names and values.  Nothing is matched but
literal text: the marker means its characters, whatever they are.
-/
import AttributeCss.Facets
import AttributeCss.Options

namespace AttributeCss

/-- The marker and the pseudo-classes of accepted options. -/
structure Vocabulary where
  marker : Text
  pseudos : List Text
  marker_ne : marker ≠ []
  pseudos_named : ∀ s ∈ pseudos, isPseudoName s = true

/-- The vocabulary of options, if they are accepted. -/
def Options.vocabulary (o : Options) : Except OptionsError Vocabulary :=
  match h : o.check with
  | .error e => .error e
  | .ok () => .ok ⟨o.marker, o.pseudos, (check_eq_ok_iff.1 h).1, (check_eq_ok_iff.1 h).2⟩

namespace Vocabulary

/-- The text starts with a pseudo-class and a colon. -/
def startsWithPseudo (v : Vocabulary) (t : Text) : Bool :=
  v.pseudos.any fun s => (s ++ [':']).isPrefixOf t

/-- The first line of a text has a colon with something behind it. -/
def hasSegment (t : Text) : Bool :=
  match Text.cutFirst ':' (t.takeWhile (· ≠ '\n')) with
  | some (_, segment) => !segment.isEmpty
  | none => false

/-- Somewhere behind the marker, on the same line, a segment is appended. -/
def isAppended (marker : Text) : Text → Bool
  | [] => false
  | c :: r =>
      (match Text.behind? marker (c :: r) with
        | some rest => hasSegment rest
        | none => false) || isAppended marker r

/-- What the start of a name says: marked, or else with a pseudo-class, or else nothing. -/
def nameFacets (v : Vocabulary) (name : Text) : Facets :=
  if v.marker.isPrefixOf name then { marked := true }
  else if v.startsWithPseudo name then { pseudo := true }
  else .none

/-- What one occurrence says: whether the name has an appended segment and the value a space. -/
def occurrenceFacets (v : Vocabulary) (name value : Text) : Facets :=
  { appended := isAppended v.marker name, listed := value.contains ' ' }

/-- What a single value says: whether it starts with a pseudo-class. -/
def valueFacets (v : Vocabulary) (token : Text) : Facets :=
  { valuePseudo := v.startsWithPseudo token }

end Vocabulary

end AttributeCss
