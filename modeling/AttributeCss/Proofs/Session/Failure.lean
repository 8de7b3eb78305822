/-
Scans that fail.

Whether a scan fails is settled before it touches the session: `Setup.outcome`
says, of the setup alone, what a scan finds or why it fails, and `conclude` is
all that becomes of that.  A failure is told to the host build and nothing else
happens; what was found is merged and nothing is told.  `call_eq` says that every
call for a scan is of this shape, also one that is dropped or refused.

The main statement reads what a host build is told off `recording`, the same
session with a host build that keeps its diagnostics.
-/
import AttributeCss.Proofs.Session.Run
import AttributeCss.Session.Handle

namespace AttributeCss

open Markup

/-- How far a scan gets that was called for. -/
inductive ScanFate where
  | ran
  /-- It is dropped before it runs, or breaks down while its source is read. -/
  | dropped (reason : Text)
  /-- Nothing is there to run it. -/
  | refused

/-! ## What a scan finds, or why it fails -/

/-- What a scan of a source text finds, or why it fails. -/
def Setup.look (u : Setup) (text : Text) : Except ScanError (List Occurrence) :=
  match region? text with
  | none => if u.options.requireTemplate then .error .missingRegion else .ok []
  | some region =>
      match u.host.readMarkup region with
      | .crash => .error (.aborted "the scan crashed")
      | .fault e => .error (.malformed e)
      | .tree nodes => .ok (Occurrence.ofNodes u.vocabulary nodes)

/-- What a scan that runs finds, or why it fails. -/
def Setup.lookAt (u : Setup) : ScanTask → Except ScanError (List Occurrence)
  | .source text => u.look text
  | .named name =>
      match u.host.modules with
      | none => .error .noModules
      | some readModule =>
          match readModule name with
          | .error cause => .error (.unreadable name cause)
          | .ok text => u.look text

/-- What a scan that was called for finds, or why it fails. -/
def Setup.outcome (u : Setup) (task : ScanTask) : ScanFate → Except ScanError (List Occurrence)
  | .ran => u.lookAt task
  | .dropped reason => .error (.aborted reason)
  | .refused => .error (.aborted "nothing is there to run the scan")

theorem Setup.look_eq_missingRegion {u : Setup} {text : Text} :
    u.look text = .error .missingRegion ↔
      region? text = none ∧ u.options.requireTemplate = true := by
  unfold look
  cases region? text with
  | none =>
      by_cases hrequired : u.options.requireTemplate = true
      · simp [hrequired]
      · simp [hrequired]
  | some region => cases hread : u.host.readMarkup region <;> simp [hread]

theorem Setup.lookAt_eq_missingRegion {u : Setup} {task : ScanTask} :
    u.lookAt task = .error .missingRegion ↔ ∃ text, u.text? task = some text ∧
      region? text = none ∧ u.options.requireTemplate = true := by
  cases task with
  | source text => simp [lookAt, text?, look_eq_missingRegion]
  | named name =>
      cases hmodules : u.host.modules with
      | none => simp [lookAt, text?, hmodules]
      | some readModule =>
          cases hmodule : readModule name with
          | error cause => simp [lookAt, text?, hmodules, hmodule, Except.toOption]
          | ok text =>
              simp [lookAt, text?, hmodules, hmodule, Except.toOption, look_eq_missingRegion]

/-! ## What the host build is told -/

/-- What the host build is told of an error, but for the module: nothing, if the scan was
aborted. -/
def ScanError.diagnostic? : ScanError → Option Diagnostic
  | .missingRegion => some Session.missingRegionWarning
  | .malformed e => some (Session.malformedError e)
  | .unreadable _ cause => some (Session.unreadableError cause)
  | .noModules => some Session.noModulesError
  | .aborted _ => none

/-- Only a missing region is less than an error. -/
theorem ScanError.exists_diagnostic? (e : ScanError) (h : ∀ reason, e ≠ .aborted reason) :
    ∃ d, e.diagnostic? = some d ∧
      d.severity = if e = .missingRegion then .warning else .error := by
  cases e with
  | aborted reason => exact absurd rfl (h reason)
  | missingRegion | malformed _ | unreadable _ _ | noModules => exact ⟨_, rfl, rfl⟩

namespace Session

/-- What the host build is told when a scan ends. -/
def told (origin : Option Text) : ScanResult → List Diagnostic
  | .ok _ => []
  | .error e => (e.diagnostic?.map fun d => { d with origin }).toList

theorem told_error {e : ScanError} {d : Diagnostic} (h : e.diagnostic? = some d)
    (origin : Option Text) : told origin (.error e) = [{ d with origin }] := by
  rw [told, h]
  rfl

def tell (s : Session) (ds : List Diagnostic) : Session :=
  match s.setup.host.reporter with
  | .logging => s
  | .recording => { s with reported := s.reported ++ ds }

theorem tell_nil (s : Session) : s.tell [] = s := by
  unfold tell
  cases s.setup.host.reporter with
  | logging => rfl
  | recording => simp

/-- A diagnostic names a module only once it is reported. -/
theorem report_eq_tell {s : Session} {e : ScanError} {d : Diagnostic}
    (h : e.diagnostic? = some d) (origin : Option Text) :
    s.report origin d = s.tell (told origin (.error e)) := by
  have horigin : d.origin = none := by
    cases e with
    | aborted reason => cases h
    | missingRegion | malformed _ | unreadable _ _ | noModules =>
        obtain rfl := Option.some.inj h
        rfl
  have hunnamed : ({ d with origin := none } : Diagnostic) = d := by rw [← horigin]
  unfold report tell
  rw [told_error h]
  cases s.setup.host.reporter with
  | logging => rfl
  | recording =>
      cases origin with
      | none => rw [hunnamed]
      | some name => rfl

/-! ## What becomes of it -/

/-- What was found is merged, and a failure is told. -/
def conclude (s : Session) (origin : Option Text) :
    Except ScanError (List Occurrence) → ScanResult × Session
  | .ok found => (.ok (s.merge found).1, (s.merge found).2)
  | .error e => (.error e, s.tell (told origin (.error e)))

theorem conclude_of_diagnostic {s : Session} {e : ScanError} {d : Diagnostic}
    (h : e.diagnostic? = some d) (origin : Option Text) :
    s.conclude origin (.error e) = (.error e, s.report origin d) := by
  rw [conclude, report_eq_tell h]

theorem conclude_aborted (s : Session) (origin : Option Text) (reason : Text) :
    s.conclude origin (.error (.aborted reason)) = (.error (.aborted reason), s) := by
  show (_, s.tell []) = (_, s)
  rw [tell_nil]

theorem scanText_eq_conclude (s : Session) (origin : Option Text) (text : Text) :
    s.scanText origin text = s.conclude origin (s.setup.look text) := by
  unfold scanText Setup.look
  cases region? text with
  | none =>
      dsimp only
      by_cases hrequired : s.setup.options.requireTemplate = true
      · rw [if_pos hrequired, if_pos hrequired]
        exact (conclude_of_diagnostic rfl origin).symm
      · rw [if_neg hrequired, if_neg hrequired]
        rfl
  | some region =>
      dsimp only
      cases s.setup.host.readMarkup region with
      | tree nodes => rfl
      | fault e => exact (conclude_of_diagnostic rfl origin).symm
      | crash => exact (conclude_aborted s origin _).symm

theorem work_eq_conclude (s : Session) (task : ScanTask) :
    s.work task = s.conclude task.origin? (s.setup.lookAt task) := by
  cases task with
  | source text => exact scanText_eq_conclude s none text
  | named name =>
      show s.scanModule name = _
      unfold scanModule Setup.lookAt
      cases s.setup.host.modules with
      | none => exact (conclude_of_diagnostic rfl (some name)).symm
      | some readModule =>
          dsimp only
          cases readModule name with
          | error cause => exact (conclude_of_diagnostic rfl (some name)).symm
          | ok text => exact scanText_eq_conclude s (some name) text

/-- The slot that a scan takes at its start is free again at its end. -/
theorem release_conclude_enter (s : Session) (origin : Option Text)
    (outcome : Except ScanError (List Occurrence)) :
    ((s.enter.conclude origin outcome).1, (s.enter.conclude origin outcome).2.release) =
      s.conclude origin outcome := by
  cases outcome with
  | ok found => rfl
  | error e =>
      have htell : (s.enter.tell (told origin (.error e))).release =
          s.tell (told origin (.error e)) := by
        unfold tell enter
        dsimp only
        cases s.setup.host.reporter <;> rfl
      exact congrArg (Prod.mk _) htell

/-- A call for a scan, with its result as the handle gives it out. -/
def call (s : Session) (task : ScanTask) : ScanFate → ScanResult × Session
  | .ran => s.scan task
  | .dropped reason => ((ScanHandle.started (.error (.aborted reason))).await.1, s.enter.release)
  | .refused => (ScanHandle.withoutRuntime.await.1, s)

theorem call_eq (s : Session) (task : ScanTask) (fate : ScanFate) :
    s.call task fate = s.conclude task.origin? (s.setup.outcome task fate) := by
  cases fate with
  | ran =>
      show s.enter.finish task = _
      rw [finish, work_eq_conclude]
      exact release_conclude_enter s task.origin? (s.setup.lookAt task)
  | dropped reason => exact (conclude_aborted s task.origin? reason).symm
  | refused => exact (conclude_aborted s task.origin? _).symm

/-- The same session with a host build that keeps its diagnostics. -/
def recording (s : Session) : Session :=
  { s with setup := { s.setup with host := { s.setup.host with reporter := .recording } } }

theorem call_recording (s : Session) (task : ScanTask) (fate : ScanFate) :
    (s.recording.call task fate).1 = (s.call task fate).1 ∧
      (s.recording.call task fate).2.reported =
        s.reported ++ told task.origin? (s.call task fate).1 := by
  have houtcome : s.recording.setup.outcome task fate = s.setup.outcome task fate := by
    cases fate <;> rfl
  rw [call_eq, call_eq, houtcome]
  cases s.setup.outcome task fate with
  | ok found => exact ⟨rfl, (List.append_nil _).symm⟩
  | error e => exact ⟨rfl, rfl⟩

theorem conclude_eq_error {s : Session} {origin : Option Text} {e : ScanError}
    {outcome : Except ScanError (List Occurrence)} :
    (s.conclude origin outcome).1 = .error e ↔ outcome = .error e := by
  cases outcome <;> simp [conclude]

/-- A call that fails may add to what was reported, and does nothing else. -/
theorem call_of_error {s : Session} {task : ScanTask} {fate : ScanFate} {e : ScanError}
    (h : (s.call task fate).1 = .error e) :
    ∃ reported, (s.call task fate).2 = { s with reported } := by
  rw [call_eq] at h ⊢
  rw [conclude_eq_error.mp h]
  show ∃ reported, s.tell _ = _
  unfold tell
  cases s.setup.host.reporter with
  | logging => exact ⟨s.reported, rfl⟩
  | recording => exact ⟨_, rfl⟩

theorem call_eq_missingRegion {s : Session} {task : ScanTask} {fate : ScanFate} :
    (s.call task fate).1 = .error .missingRegion ↔
      fate = .ran ∧ ∃ text, s.setup.text? task = some text ∧
        region? text = none ∧ s.setup.options.requireTemplate = true := by
  rw [call_eq, conclude_eq_error]
  cases fate with
  | ran => exact Setup.lookAt_eq_missingRegion.trans (and_iff_right rfl).symm
  | dropped reason => simp [Setup.outcome]
  | refused => simp [Setup.outcome]

/-! ## The main statement -/

/-- **A scan that fails changes nothing and is told once.**  Let `result` be what a call for a scan
comes to in any session, however far the scan gets, and `heard` what its host build has been told
then.  If the scan fails, then registry, stylesheet and pending scans are as they were.  A failure
adds its one diagnostic to what was heard, a warning for a region that is missing and else an error,
with the module it happened in if a module was scanned; but nothing is heard of a scan that was
aborted, nor of a success.  And the region is found missing exactly if the source of a scan that ran
could be read, has no region, and the options require one. -/
theorem failure_told_once (s : Session) (task : ScanTask) (fate : ScanFate) :
    let result := (s.call task fate).1
    let after := (s.call task fate).2
    let heard := (s.recording.call task fate).2.reported
    (∀ e, result = .error e →
      after.registry = s.registry ∧ after.css = s.css ∧ after.pending = s.pending) ∧
    (s.recording.call task fate).1 = result ∧
    (∀ e, result = .error e → (∀ reason, e ≠ .aborted reason) →
      ∃ d, e.diagnostic? = some d ∧ heard = s.reported ++ [{ d with origin := task.origin? }] ∧
        d.severity = if e = .missingRegion then .warning else .error) ∧
    (∀ reason, result = .error (.aborted reason) → heard = s.reported) ∧
    (∀ report, result = .ok report → heard = s.reported) ∧
    (result = .error .missingRegion ↔ fate = .ran ∧ ∃ text, s.setup.text? task = some text ∧
      region? text = none ∧ s.setup.options.requireTemplate = true) := by
  intro result after heard
  obtain ⟨hresult, hheard⟩ : _ ∧ heard = s.reported ++ told task.origin? result :=
    call_recording s task fate
  refine ⟨?_, hresult, ?_, ?_, ?_, call_eq_missingRegion⟩
  · intro e he
    obtain ⟨reported, hafter⟩ : ∃ reported, after = { s with reported } := call_of_error he
    rw [hafter]
    exact ⟨rfl, rfl, rfl⟩
  · intro e he haborted
    obtain ⟨d, hd, hseverity⟩ := e.exists_diagnostic? haborted
    refine ⟨d, hd, ?_, hseverity⟩
    rw [hheard, he, told_error hd]
  · intro reason he
    rw [hheard, he]
    exact List.append_nil _
  · intro report hreport
    rw [hheard, hreport]
    exact List.append_nil _

end Session

end AttributeCss
