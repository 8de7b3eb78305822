/-
JSON documents as they were written.

A document keeps what its text says: members in order, repeated keys
included; numbers digit by digit; strings as characters and escaped code
units.  Whether a string stands for text at all is a second question
(`Literal.text?`), since two code units must pair up to one character above
U+FFFF, and members that nobody reads need not answer it.
-/
import AttributeCss.Text.Basic

namespace AttributeCss.Json

/-- A unit of a string: a character, or a code unit given by number. -/
inductive StringUnit where
  | char (c : Char)
  | code (n : Nat)
deriving DecidableEq, Repr

/-- The content of a string as it was written. -/
abbrev Literal := List StringUnit

namespace Literal

/-- The first half of a character above U+FFFF. -/
def isLead (n : Nat) : Bool := 0xD800 ≤ n && n < 0xDC00

/-- The second half of a character above U+FFFF. -/
def isTrail (n : Nat) : Bool := 0xDC00 ≤ n && n < 0xE000

/-- The character of two halves. -/
def paired (lead trail : Nat) : Char :=
  Char.ofNat (0x10000 + (lead - 0xD800) * 0x400 + (trail - 0xDC00))

/-- The text a string stands for; half a character stands for none. -/
def text? : Literal → Option Text
  | [] => some []
  | .char c :: r => (text? r).map (c :: ·)
  | .code n :: .code m :: r =>
      if isLead n then
        if isTrail m then (text? r).map (paired n m :: ·) else none
      else if isTrail n then none
      else (text? (.code m :: r)).map (Char.ofNat n :: ·)
  | .code n :: r =>
      if isLead n || isTrail n then none else (text? r).map (Char.ofNat n :: ·)

/-- The string with the characters of a text. -/
def ofText (t : Text) : Literal := t.map StringUnit.char

@[simp] theorem text?_ofText (t : Text) : text? (ofText t) = some t := by
  induction t with
  | nil => rfl
  | cons c r ih =>
    rw [ofText, List.map_cons, ← ofText]
    simp [text?, ih]

end Literal

/-- A document. -/
inductive Value where
  | null
  | bool (b : Bool)
  /-- A number, as written. -/
  | number (written : Text)
  | string (s : Literal)
  | array (items : List Value)
  /-- Members in order; a key may occur again. -/
  | object (members : List (Literal × Value))

def Value.ofText (t : Text) : Value := .string (Literal.ofText t)

def Value.ofNat (n : Nat) : Value := .number (Text.numeral n)

/-- The object with the given members. -/
def Value.ofMembers (members : List (Text × Value)) : Value :=
  .object (members.map fun p => (Literal.ofText p.1, p.2))

end AttributeCss.Json
