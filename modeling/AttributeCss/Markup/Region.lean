/-
The template region of a component source.

The region reaches from the first opening template tag to the last closing
one, and at least one character stands between the two.
-/
import AttributeCss.Text.Characters

namespace AttributeCss.Markup

/-- What an opening template tag starts with. -/
def regionLead : Text := "<template"

def regionEnd : Text := "</template>"

/-- Cuts a text behind the opening template tag it starts with. -/
def cutOpening? (s : Text) : Option (Text × Text) :=
  match Text.behind? regionLead s with
  | some ('>' :: r) => some (regionLead ++ ['>'], r)
  | some (c :: r) =>
      if Text.isBlank c then
        (Text.cutFirst '>' r).map fun (inside, rest) => (regionLead ++ c :: inside ++ ['>'], rest)
      else none
  | _ => none

/-- The region of a text that starts with an opening tag and goes on with `rest`. -/
def regionFrom? (opening rest : Text) : Option Text :=
  match rest with
  | [] => none
  | c :: r => (Text.throughLast? regionEnd r).map fun body => opening ++ c :: body

/-- The template region of a source. -/
def region? : Text → Option Text
  | [] => none
  | c :: r =>
      match cutOpening? (c :: r) with
      | some (opening, rest) => regionFrom? opening rest
      | none => region? r

end AttributeCss.Markup
