/-
Writing a JSON text.

A document is written without spaces.  In strings a backslash stands before
quotation marks and backslashes, five control characters have a letter, the
other control characters are written by number, and all else is itself.
-/
import AttributeCss.Json.Value

namespace AttributeCss.Json

/-- A number below 65536 in four hex digits. -/
def hexCode (n : Nat) : Text :=
  [Nat.digitChar (n / 4096 % 16), Nat.digitChar (n / 256 % 16), Nat.digitChar (n / 16 % 16),
    Nat.digitChar (n % 16)]

def writeCode (n : Nat) : Text := Text.backslash :: 'u' :: hexCode n

def writeChar (c : Char) : Text :=
  if c = Text.quoteMark || c = Text.backslash then [Text.backslash, c]
  else if c = '\x08' then [Text.backslash, 'b']
  else if c = '\x0c' then [Text.backslash, 'f']
  else if c = '\n' then [Text.backslash, 'n']
  else if c = '\r' then [Text.backslash, 'r']
  else if c = '\t' then [Text.backslash, 't']
  else if c.toNat < 32 then writeCode c.toNat
  else [c]

def StringUnit.write : StringUnit → Text
  | char c => writeChar c
  | code n => writeCode n

/-- A string with its quotation marks. -/
def Literal.write (s : Literal) : Text :=
  Text.quoteMark :: s.flatMap StringUnit.write ++ [Text.quoteMark]

mutual

def Value.write : Value → Text
  | .null => "null"
  | .bool true => "true"
  | .bool false => "false"
  | .number n => n
  | .string s => s.write
  | .array items => '[' :: writeItems items ++ [']']
  | .object members => '\x7b' :: writeMembers members ++ ['\x7d']

def writeItems : List Value → Text
  | [] => []
  | [v] => v.write
  | v :: w :: r => v.write ++ ',' :: writeItems (w :: r)

/-- The members of an object with commas between them. -/
def writeMembers : List (Literal × Value) → Text
  | [] => []
  | [(k, v)] => k.write ++ ':' :: v.write
  | (k, v) :: m :: r => k.write ++ ':' :: v.write ++ ',' :: writeMembers (m :: r)

end

end AttributeCss.Json
