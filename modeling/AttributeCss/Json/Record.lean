/-
Reading records out of documents.

A record has named fields in a fixed order.  A document gives it as an
object, in which members with other names say nothing and a field stands at
most once, or as an array of the fields in order.  Every key of an object
must stand for text, even one that names no field.
-/
import AttributeCss.Json.Reader

namespace AttributeCss.Json.Value

def text? : Value → Option Text
  | .string s => s.text?
  | _ => none

def bool? : Value → Option Bool
  | .bool b => some b
  | _ => none

def items? : Value → Option (List Value)
  | .array items => some items
  | _ => none

/-- The texts of an array of strings. -/
def texts? (v : Value) : Option (List Text) := v.items?.bind fun items => items.mapM text?

/-- A natural below 2³², written as digits only. -/
def word? : Value → Option Nat
  | .number n =>
      if Text.isNumeral n && Text.numeralValue n < Nat.pow 2 32 then some (Text.numeralValue n)
      else none
  | _ => none

/-- What a value other than null holds. -/
def nullable? {α : Type} (read : Value → Option α) : Value → Option (Option α)
  | .null => some none
  | v => (read v).map some

/-- What a field holds, or `default` if it is not there. -/
def field? {α : Type} (default : α) (read : Value → Option α) : Option Value → Option α
  | none => some default
  | some v => read v

/-- The members with their keys as text. -/
def decodedKeys? (members : List (Literal × Value)) : Option (List (Text × Value)) :=
  members.mapM fun (k, v) => k.text?.map fun k => (k, v)

/-- The value of a member that stands at most once. -/
def only? (members : List (Text × Value)) (name : Text) : Option (Option Value) :=
  match members.filter fun m => m.1 = name with
  | [] => some none
  | [m] => some (some m.2)
  | _ :: _ :: _ => none

/-- The fields of a record in order, if they are there.  An array must hold at least the first
`least` of them and nothing else. -/
def record? (least : Nat) (names : List Text) : Value → Option (List (Option Value))
  | .object members => (decodedKeys? members).bind fun ms => names.mapM (only? ms)
  | .array items =>
      if least ≤ items.length && items.length ≤ names.length then
        some (items.map some ++ List.replicate (names.length - items.length) none)
      else none
  | _ => none

end AttributeCss.Json.Value
