/-
From entries to a stylesheet.

The same declaration can be written in several ways: `hover:xe-m="10"`,
`xe:10="hover:m"` and `xe-m-10` all speak of the token `m-10`.  An entry is
first brought to its token and pseudo-class (`Utility.ofEntry`); the rule
table turns the token into declarations; and the rule written for them
selects the elements that carry the attribute as it was written.
-/
import AttributeCss.Entry
import AttributeCss.Rule.Table

namespace AttributeCss

open Css

/-- What an entry asks for: a token of the rule table, under a pseudo-class or none. -/
structure Utility where
  token : Text
  pseudo : Option Text
deriving DecidableEq, Repr

namespace Utility

/-- The text without the dash it may start with. -/
def dropDash : Text → Text
  | '-' :: r => r
  | t => t

/-- The name without the marker and a dash behind it.  The marker stands at the start or behind
the first colon; a name with neither is left alone. -/
def withoutMarker (marker name : Text) : Text :=
  match Text.behind? marker name with
  | some r => dropDash r
  | none =>
      match Text.cutFirst ':' name with
      | none => name
      | some (lead, rest) =>
          match Text.behind? marker rest with
          | some r => lead ++ ':' :: dropDash r
          | none => name

/-- Cuts off a leading `name:`. -/
def cutPseudo (t : Text) : Option (Text × Text) :=
  (Text.cutFirst ':' t).filter fun (name, _) => !name.isEmpty

/-- Cuts off a last segment, unless nothing stands behind the last colon. -/
def cutSegment (t : Text) : Option (Text × Text) :=
  (Text.cutLast ':' t).filter fun (_, segment) => !segment.isEmpty

/-- Cuts a pseudo-class off a text that was seen to carry one. -/
def takePseudo (carries : Bool) (t : Text) : Option Text × Text :=
  match if carries then cutPseudo t else none with
  | some (name, rest) => (some name, rest)
  | none => (none, t)

/-- Moves the last segment of a name with one to the end of the value. -/
def moveSegment (appended : Bool) (name value : Text) : Text × Text :=
  match if appended then cutSegment name else none with
  | some (rest, segment) => (rest, value ++ '-' :: segment)
  | none => (name, value)

/-- Name and value with a dash between them, if both are there. -/
def hyphenated (name value : Text) : Text :=
  if !name.isEmpty && !value.isEmpty then name ++ '-' :: value else name ++ value

/-- What an entry asks for, under a marker.  A pseudo-class of the value wins over one of the
name. -/
def ofEntry (marker : Text) (e : Entry) : Utility :=
  let (namePseudo, name) := takePseudo e.facets.pseudo (withoutMarker marker e.name)
  let (valuePseudo, value) := takePseudo e.facets.valuePseudo e.value
  let (name, value) := moveSegment e.facets.appended name value
  ⟨hyphenated name value, valuePseudo.or namePseudo⟩

end Utility

/-- The elements a rule applies to. -/
structure Selector where
  name : Text
  /-- The value it has, if it matters, and whether it may have others beside it. -/
  value : Option (Bool × Text)
  pseudo : Option Text
deriving DecidableEq, Repr

namespace Selector

/-- The selector of an entry: a value given among others may stand among others. -/
def ofEntry (e : Entry) (pseudo : Option Text) : Selector :=
  ⟨e.name, if e.value.isEmpty then none else some (e.facets.listed, e.value), pseudo⟩

/-- A backslash stands before colons and slashes. -/
def escape (t : Text) : Text :=
  t.flatMap fun c => if c = ':' || c = '/' then [Text.backslash, c] else [c]

/-- What stands between the square brackets, before escaping. -/
def condition (s : Selector) : Text :=
  match s.value with
  | none => s.name
  | some (among, value) =>
      s.name ++ (if among then ['~', '='] else ['=']) ++ Text.quoteMark :: value
        ++ [Text.quoteMark]

def write (s : Selector) : Text :=
  '[' :: escape s.condition ++ ']' :: (match s.pseudo with
    | some name => ':' :: name
    | none => [])

end Selector

/-- The rule for an entry, or no text if there is nothing to declare. -/
def Entry.rule (marker : Text) (table : RuleTable) (e : Entry) : Text :=
  let utility := Utility.ofEntry marker e
  let declarations := (table.apply utility.token).declarations
  if declarations.isEmpty then []
  else
    (Selector.ofEntry e utility.pseudo).write ++ " \x7b ".toList ++ declarations.write
      ++ " \x7d ".toList

/-- The stylesheet: the rules of the entries in order. -/
def stylesheet (marker : Text) (table : RuleTable) (entries : List Entry) : Text :=
  entries.flatMap (Entry.rule marker table)

end AttributeCss
