/-
Reading a JSON text.

The words of a text are read one at a time by a machine that remembers the
open arrays and objects (`State.step`).  A document is what the machine has
finished when the words run out, so nothing may stand behind it, and there
is no limit to how deep it may be.
-/
import AttributeCss.Json.Token

namespace AttributeCss.Json

/-- An array or object that waits for the value being read. -/
inductive Frame where
  | items (done : List Value)
  | members (done : List (Literal × Value)) (key : Literal)

/-- Where the machine stands; the frames are the open arrays and objects, innermost first. -/
inductive State where
  | value (frames : List Frame)
  /-- An array was opened: its first item or its end must follow. -/
  | firstItem (frames : List Frame)
  /-- An item ended: a comma or the end of the array must follow. -/
  | afterItem (done : List Value) (frames : List Frame)
  /-- An object was opened: its first key or its end must follow. -/
  | firstKey (frames : List Frame)
  | key (done : List (Literal × Value)) (frames : List Frame)
  | colon (done : List (Literal × Value)) (key : Literal) (frames : List Frame)
  /-- A member ended: a comma or the end of the object must follow. -/
  | afterMember (done : List (Literal × Value)) (frames : List Frame)
  | finished (v : Value)

namespace State

def put (v : Value) : List Frame → State
  | [] => finished v
  | .items done :: frames => afterItem (done ++ [v]) frames
  | .members done k :: frames => afterMember (done ++ [(k, v)]) frames

def startValue (frames : List Frame) : Token → Option State
  | .null => some (put .null frames)
  | .bool b => some (put (.bool b) frames)
  | .number n => some (put (.number n) frames)
  | .string s => some (put (.string s) frames)
  | .arrayOpen => some (firstItem frames)
  | .objectOpen => some (firstKey frames)
  | .arrayClose | .objectClose | .comma | .colon => none

/-- The machine reads a word. -/
def step : State → Token → Option State
  | value frames, t => startValue frames t
  | firstItem frames, .arrayClose => some (put (.array []) frames)
  | firstItem frames, t => startValue (.items [] :: frames) t
  | afterItem done frames, .comma => some (value (.items done :: frames))
  | afterItem done frames, .arrayClose => some (put (.array done) frames)
  | firstKey frames, .objectClose => some (put (.object []) frames)
  | firstKey frames, .string s => some (colon [] s frames)
  | key done frames, .string s => some (colon done s frames)
  | colon done k frames, .colon => some (value (.members done k :: frames))
  | afterMember done frames, .comma => some (key done frames)
  | afterMember done frames, .objectClose => some (put (.object done) frames)
  | _, _ => none

/-- The machine reads words, as long as it can. -/
def run (st : State) : List Token → Option State
  | [] => some st
  | t :: ts => (st.step t).bind fun st => st.run ts

def result? : State → Option Value
  | finished v => some v
  | _ => none

theorem run_append (st : State) (a b : List Token) :
    st.run (a ++ b) = (st.run a).bind fun st => st.run b := by
  induction a generalizing st with
  | nil => rfl
  | cons t ts ih =>
    simp only [List.cons_append, run]
    cases st.step t with
    | none => rfl
    | some st' => simpa using ih st'

end State

/-- The document of a list of words. -/
def Value.ofTokens? (ts : List Token) : Option Value :=
  ((State.value []).run ts).bind State.result?

def Value.read? (s : Text) : Option Value := (tokens? s).bind Value.ofTokens?

end AttributeCss.Json
