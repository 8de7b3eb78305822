/-
Diagnostics: failures that are told to the host build and stop nothing.

A diagnostic is shown by its message, and exchanged as a record of its four
fields.
-/
import AttributeCss.Json.Record
import AttributeCss.Json.Writer

namespace AttributeCss

open Json

/-- How bad a failure is. -/
inductive Severity where
  | error
  | warning
deriving DecidableEq, Repr

/-- A failure told to the host build. -/
structure Diagnostic where
  severity : Severity
  message : Text
  /-- The module it happened in, if one is known. -/
  origin : Option Text := none
  hints : List Text := []
deriving DecidableEq, Repr

namespace Severity

def name : Severity → Text
  | error => "error"
  | warning => "warning"

def ofName? (t : Text) : Option Severity :=
  if t = error.name then some error
  else if t = warning.name then some warning
  else none

/-- The severity of a document: its name, or an object that has its name as only key and null as
its value. -/
def ofJson? : Value → Option Severity
  | .string s => s.text?.bind ofName?
  | .object [(k, .null)] => k.text?.bind ofName?
  | _ => none

@[simp] theorem ofName?_name (s : Severity) : ofName? s.name = some s := by
  cases s <;> decide

end Severity

namespace Diagnostic

def error (message : Text) : Diagnostic := { severity := .error, message }

def warning (message : Text) : Diagnostic := { severity := .warning, message }

/-- The diagnostic with the module it happened in. -/
def withOrigin (d : Diagnostic) (origin : Text) : Diagnostic := { d with origin := some origin }

/-- The diagnostic with one more hint. -/
def withHint (d : Diagnostic) (hint : Text) : Diagnostic := { d with hints := d.hints ++ [hint] }

def fieldNames : List Text := ["kind", "message", "origin", "hints"]

def originToJson : Option Text → Value
  | none => .null
  | some t => .ofText t

def toJson (d : Diagnostic) : Value :=
  .ofMembers
    [("kind", .ofText d.severity.name), ("message", .ofText d.message),
     ("origin", originToJson d.origin), ("hints", .array (d.hints.map Value.ofText))]

/-- The diagnostic of a document; only the origin may be missing in an object. -/
def ofJson? (v : Value) : Option Diagnostic := do
  match ← v.record? 4 fieldNames with
  | [some kind, some message, origin, some hints] =>
      return {
        severity := ← Severity.ofJson? kind
        message := ← message.text?
        origin := ← Value.field? none (Value.nullable? Value.text?) origin
        hints := ← hints.texts? }
  | _ => none

def write (d : Diagnostic) : Text := d.toJson.write

def read? (t : Text) : Option Diagnostic := (Value.read? t).bind ofJson?

end Diagnostic

end AttributeCss
