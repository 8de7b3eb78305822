/-
Scans as the host build sees them: tasks, results and handles.

A started scan is awaited through its handle.  A scan that could not be
started has a handle too: it gives out its error once, and any later wait
learns that it was given out.
-/
import AttributeCss.Markup.Error

namespace AttributeCss

/-- What a scan contributed. -/
structure ScanReport where
  /-- Declaring attributes in the template. -/
  occurrences : Nat := 0
  newEntries : Nat := 0
deriving DecidableEq, Repr

/-- Why a scan failed. -/
inductive ScanError where
  /-- The source has no template region, and the options require one. -/
  | missingRegion
  | malformed (e : Markup.Error)
  | unreadable (name cause : Text)
  | noModules
  | aborted (reason : Text)
deriving DecidableEq, Repr

def ScanError.message : ScanError → Text
  | missingRegion => "No <template> region found"
  | malformed e => "Failed to parse template: " ++ e.message
  | unreadable name _ => "Failed to read template source " ++ name
  | noModules => "No template source is configured"
  | aborted reason => "Scan task did not complete: " ++ reason

abbrev ScanResult := Except ScanError ScanReport

/-- What a scan is asked to look at. -/
inductive ScanTask where
  | source (text : Text)
  | named (name : Text)
deriving DecidableEq, Repr

/-! ## Handles -/

/-- What a host build waits for. -/
inductive ScanHandle where
  /-- A started scan, with how it will have ended. -/
  | started (result : ScanResult)
  /-- A scan that could not be started, with its error unless that was given out. -/
  | failed (error : Option ScanError)

namespace ScanHandle

/-- The handle of a scan for which nothing is there to run it. -/
def withoutRuntime : ScanHandle := .failed (some (.aborted "nothing is there to run the scan"))

def await : ScanHandle → ScanResult × ScanHandle
  | started result => (result, started result)
  | failed (some e) => (.error e, failed none)
  | failed none => (.error (.aborted "scan already resolved"), failed none)

end ScanHandle

end AttributeCss
