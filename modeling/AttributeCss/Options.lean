/-
Options of a session, and when they are accepted.

The marker must not be empty, and every pseudo-class must be an ASCII name.
The first fault is reported, the marker's before any other.
-/
import AttributeCss.Text.Quoted

namespace AttributeCss

/-- Options of a session. -/
structure Options where
  /-- What a declaring attribute starts with. -/
  marker : Text := "xe"
  pseudos : List Text := ["focus", "hover"]
  /-- A source without a template region is an error. -/
  requireTemplate : Bool := false
  /-- The file in which entries are kept between sessions. -/
  cacheFile : Option Text := none
deriving DecidableEq, Repr

/-- Why options are refused. -/
inductive OptionsError where
  | emptyMarker
  | invalidPseudo (name : Text)
  | invalidDocument
deriving DecidableEq, Repr

def OptionsError.message : OptionsError → Text
  | emptyMarker => "The declaration prefix must not be empty"
  | invalidPseudo name => "Invalid pseudo-class name " ++ Text.quoted name
  | invalidDocument => "The options document cannot be read"

/-- A letter of a pseudo-class name after the first. -/
def isPseudoNameChar (c : Char) : Bool := c.isAlphanum || c = '-'

/-- A pseudo-class name: an ASCII letter, then ASCII letters, digits and dashes. -/
def isPseudoName : Text → Bool
  | [] => false
  | c :: r => c.isAlpha && r.all isPseudoNameChar

namespace Options

/-- Accepts the options or gives their first fault. -/
def check (o : Options) : Except OptionsError Unit :=
  if o.marker.isEmpty then .error .emptyMarker
  else
    match o.pseudos.find? fun s => !isPseudoName s with
    | some s => .error (.invalidPseudo s)
    | none => .ok ()

/-- Accepted options have a marker, and names for all their pseudo-classes. -/
theorem check_eq_ok_iff {o : Options} :
    o.check = .ok () ↔ o.marker ≠ [] ∧ ∀ s ∈ o.pseudos, isPseudoName s = true := by
  unfold check
  split
  · next h => simp_all
  · next h =>
    have hm : o.marker ≠ [] := by simpa using h
    split
    · next s hs =>
      have hb := List.find?_some hs
      simp only [Bool.not_eq_true'] at hb
      constructor
      · intro h'
        simp at h'
      · rintro ⟨-, hall⟩
        have := hall s (List.mem_of_find?_eq_some hs)
        simp [hb] at this
    · next hs =>
      simp only [List.find?_eq_none, Bool.not_eq_true'] at hs
      simp only [true_iff]
      exact ⟨hm, fun s hs' => by simpa using hs s hs'⟩

end Options

end AttributeCss
