/-
Values of conditional bindings.

An expression `condition ? 'a' : 'b'` gives an attribute one of two fixed
values.  The condition is at least one character of a line and ends at the
last question mark with two quoted values behind it; a quoted value starts
and ends with a quotation mark or apostrophe, of either kind, and reaches as
far as it can on its line.
-/
import AttributeCss.Text.Characters

namespace AttributeCss.Markup.Ternary

/-- A quotation mark or an apostrophe. -/
def isQuote (c : Char) : Bool := c = Text.apostrophe || c = Text.quoteMark

/-- Takes as many characters of the line as possible, and at least one, such that `next` reads the
rest. -/
def stretch {β : Type} (next : Text → Option β) : Text → Option (Text × β)
  | [] => none
  | c :: r =>
      if c = '\n' then none
      else
        match stretch next r with
        | some (t, found) => some (c :: t, found)
        | none => (next r).map fun found => ([c], found)

/-- Reads the mark `m`, blanks before it aside. -/
def behindMark? (m : Char) (s : Text) : Option Text :=
  match s.dropWhile Text.isBlank with
  | c :: r => if c = m then some r else none
  | [] => none

def behindQuote? : Text → Option Text
  | c :: r => if isQuote c then some r else none
  | [] => none

/-- Reads a quoted value, blanks before it aside, such that `next` reads the rest. -/
def quoted? {β : Type} (next : Text → Option β) (s : Text) : Option (Text × β) :=
  (behindQuote? (s.dropWhile Text.isBlank)).bind fun r =>
    stretch (fun u => (behindQuote? u).bind next) r

/-- Reads the value behind the colon. -/
def second? (s : Text) : Option Text :=
  (behindMark? ':' s).bind fun r => (quoted? (fun _ => some ()) r).map Prod.fst

/-- Reads the values behind the question mark. -/
def values? (s : Text) : Option (Text × Text) :=
  (behindMark? '?' s).bind fun r => quoted? second? r

/-- The values of a conditional expression that starts here. -/
def here? (s : Text) : Option (Text × Text) := (stretch values? s).map Prod.snd

/-- The values of the first conditional expression that starts with a line of the text; the text
itself starts with a line if `fresh` says so.  An expression found further on in a line could take
the line from its start. -/
def findFrom (fresh : Bool) : Text → Option (Text × Text)
  | [] => none
  | c :: r => (if fresh then here? (c :: r) else none).or (findFrom (c = '\n') r)

/-- The values of the first conditional expression in a text. -/
def find? (s : Text) : Option (Text × Text) := findFrom true s

/-- All values a conditional expression can give, with a space between them and without quotes. -/
def combined? (expression : Text) : Option Text :=
  (find? expression).map fun (a, b) => (a ++ ' ' :: b).filter fun c => !isQuote c

end AttributeCss.Markup.Ternary
