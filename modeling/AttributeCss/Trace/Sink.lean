/-
Trace sinks: where log lines go.

A list of sinks is written with commas; blanks around a name do not count,
and a repeated name says nothing new.  The list comes from an environment
variable; a variable that is not set, no text or blank names no sinks.
-/
import AttributeCss.Json.Bounds
import AttributeCss.Json.Writer
import AttributeCss.Text.Characters
import AttributeCss.Text.Basic
import AttributeCss.Text.Quoted

namespace AttributeCss.Trace

open Json

/-- Where log lines go. -/
inductive Sink where
  | stdout
  /-- A file that is changed every hour. -/
  | file
deriving DecidableEq, Repr

/-- A name that is that of no sink. -/
structure InvalidSink where
  name : Text
deriving DecidableEq, Repr

/-- The variable that names the sinks. -/
def variableName : Text := "XECSS_TRACING_MODE"

def InvalidSink.message (e : InvalidSink) : Text :=
  "Invalid value " ++ Text.quoted e.name ++ " for " ++ variableName

namespace Sink

def name : Sink → Text
  | stdout => "stdout"
  | file => "file"

def ofName? (t : Text) : Option Sink :=
  if t = stdout.name then some stdout
  else if t = file.name then some file
  else none

/-- The sink of a name, or the error that there is none. -/
def ofName (t : Text) : Except InvalidSink Sink :=
  match ofName? t with
  | some s => .ok s
  | none => .error ⟨t⟩

/-- The names in a list, without blanks around them. -/
def names (t : Text) : List Text := (t.splitOn ',').map Text.trim

/-- The sinks of names, up to the first that is none. -/
def ofNames : List Text → Except InvalidSink (List Sink)
  | [] => .ok []
  | t :: r =>
      match ofName t with
      | .error e => .error e
      | .ok s => (ofNames r).map (s :: ·)

/-- The sinks in a list, each once, in order of first mention. -/
def parseList (t : Text) : Except InvalidSink (List Sink) := (ofNames (names t)).map List.eraseDups

def ofVariable (value : Option ByteArray) : Except InvalidSink (List Sink) :=
  match value.bind Text.ofBytes? with
  | none => .ok []
  | some t => if Text.allBlank t then .ok [] else parseList t

/-- The name of a document's member that holds the sink. -/
def memberName : Text := "mode"

def toJson (s : Sink) : Value := .ofMembers [(memberName, .ofText s.name)]

/-- How deep a member that says nothing may be. -/
def idleDepth : Nat := 126

/-- A member of a document that does not say what the sink is must be plain data. -/
def idleMember (m : Text × Value) : Bool := m.1 = memberName || m.2.isPlain idleDepth

/-- The sink of a document: an object with one member that names it, or an array of its name. -/
def ofJson? : Value → Option Sink
  | .object members => do
      let members ← Value.decodedKeys? members
      let named ← Value.only? members memberName
      let v ← named
      if members.all idleMember then v.text?.bind ofName? else none
  | .array [v] => v.text?.bind ofName?
  | _ => none

def read? (t : Text) : Option Sink := (Value.read? t).bind ofJson?

end Sink

end AttributeCss.Trace
