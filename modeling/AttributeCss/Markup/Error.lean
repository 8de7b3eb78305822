/-
What can be wrong with markup, and where.

Places are byte offsets into the source.  A fault at the very end of the
source is always reported as an early end.
-/
import AttributeCss.Text.Basic

namespace AttributeCss.Markup

/-- Why markup cannot be read. -/
inductive Error where
  | malformed (offset : Nat) (expected : Text)
  | strayClosing (offset : Nat)
  | unexpectedEnd
deriving DecidableEq, Repr

namespace Error

def message : Error → Text
  | malformed offset expected =>
      "Malformed template markup at byte " ++ Text.numeral offset ++ ": expected ".toList ++ expected
  | strayClosing offset => "Unexpected closing tag at byte " ++ Text.numeral offset
  | unexpectedEnd => "Template markup ended unexpectedly"

def offset? : Error → Option Nat
  | malformed offset _ => some offset
  | strayClosing offset => some offset
  | unexpectedEnd => none

end Error

/-- A fault found while reading, placed by what was left to read. -/
inductive Fault where
  /-- Something else was expected where `rest` starts. -/
  | expected (what rest : Text)
  /-- A closing tag stands where `rest` starts, and no element is open. -/
  | stray (rest : Text)
deriving DecidableEq, Repr

/-- The error a fault is in a source. -/
def Fault.locate (source : Text) : Fault → Error
  | expected what rest =>
      if rest.isEmpty then .unexpectedEnd
      else .malformed (Text.byteWidth source - Text.byteWidth rest) what
  | stray rest => .strayClosing (Text.byteWidth source - Text.byteWidth rest)

end AttributeCss.Markup
