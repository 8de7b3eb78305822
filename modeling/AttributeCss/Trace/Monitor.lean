/-
The monitor: tracing is set up once until it is closed.

Setting up a running monitor changes nothing.  The variable is read before
that is known, so a variable that names no sink is an error either way.
-/
import AttributeCss.Trace.Sink

namespace AttributeCss.Trace

/-- The monitor: closed, or open with the sinks it was set up with. -/
inductive Monitor where
  | closed
  | opened (sinks : List Sink)
deriving DecidableEq, Repr

namespace Monitor

def isOpen : Monitor → Bool
  | closed => false
  | opened _ => true

/-- Sets the monitor up, unless it is. -/
def setUp (m : Monitor) (sinks : List Sink) : Monitor :=
  match m with
  | closed => opened sinks
  | opened before => opened before

/-- Sets the monitor up with the sinks a variable names. -/
def setUpFrom (m : Monitor) (value : Option ByteArray) : Except InvalidSink Monitor :=
  (Sink.ofVariable value).map m.setUp

def close (_ : Monitor) : Monitor := closed

end Monitor

end AttributeCss.Trace
