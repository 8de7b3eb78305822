/-
Slots of scans.

A scan that is started under a runtime takes a slot, and its task gives the slot
back when it ends: after it merged or failed, after it crashed, or when it is
dropped before it runs.  A scan that no runtime is there for takes none, and no
handle that is polled gives one back.  So the slots taken are those of the tasks
that have not ended, each once (`pending_eq_open_scans`).

`Dispatch` puts the handles next to a build.  All it does to the build is a list
of the build's own events (`Act.events`), and the count is said of those first:
`Build.Tally` ties the phase of each scan to what has happened to it.
-/
import AttributeCss.Proofs.Session.Build
import AttributeCss.Session.Handle

namespace AttributeCss

/-! ## What has happened to the scans of a build -/

namespace Event

def starts : Event → Bool
  | start _ => true
  | _ => false

/-- The scan whose slot is given back. -/
def frees? : Event → Option Nat
  | release i => some i
  | _ => none

end Event

theorem countP_eq_countP_range {α : Type} (p : α → Bool) (l : List α) :
    l.countP p = (List.range l.length).countP fun i => l[i]?.any p := by
  induction l with
  | nil => rfl
  | cons a l ih =>
      rw [List.length_cons, List.range_succ_eq_map, List.countP_cons, List.countP_cons,
        List.countP_map, ih]
      rfl

namespace Build

/-- The phases of the scans, by the events so far: each start adds one, and those whose slot was
given back are released, each of them once. -/
structure Tally (events : List Event) (b : Build) : Prop where
  length : b.scans.length = events.countP Event.starts
  released : ∀ i, i ∈ events.filterMap Event.frees? ↔
    ∃ result, b.scans[i]? = some (.released result)
  once : (events.filterMap Event.frees?).Nodup

theorem tally_start (setup : Setup) : Tally [] (start setup) where
  length := rfl
  released i := by simp [start]
  once := List.nodup_nil

/-- An event that gives no slot back, and leaves the same scans released. -/
theorem Tally.snoc {events : List Event} {b b' : Build} (hb : Tally events b) {e : Event}
    (hfrees : e.frees? = none) (hlength : b'.scans.length = b.scans.length + e.starts.toNat)
    (hreleased : ∀ (i : Nat) (result : ScanResult),
      b'.scans[i]? = some (.released result) ↔ b.scans[i]? = some (.released result)) :
    Tally (events ++ [e]) b' := by
  have hsame : (events ++ [e]).filterMap Event.frees? = events.filterMap Event.frees? := by
    simp [hfrees]
  refine ⟨?_, ?_, ?_⟩
  · rw [hlength, hb.length, List.countP_append, List.countP_singleton]
    cases e.starts <;> rfl
  · intro i
    simp only [hsame, hb.released i, hreleased]
  · rw [hsame]
    exact hb.once

theorem released_set_iff {scans : List ScanPhase} {i : Nat} {task : ScanTask}
    (hi : scans[i]? = some (.running task)) (ended result : ScanResult) (j : Nat) :
    (scans.set i (.ended ended))[j]? = some (.released result) ↔
      scans[j]? = some (.released result) := by
  by_cases hij : i = j
  · subst hij
    have hlt := (List.getElem?_eq_some_iff.mp hi).1
    simp [hi, List.getElem?_set_self hlt]
  · rw [List.getElem?_set_ne hij]

theorem tally_step {events : List Event} {b b' : Build} {e : Event} (h : Step b e b')
    (hb : Tally events b) : Tally (events ++ [e]) b' := by
  cases h with
  | start task =>
      refine hb.snoc rfl (List.length_append ..) fun i result => ?_
      rcases Nat.lt_or_ge i b.scans.length with hlt | hge
      · rw [List.getElem?_append_left hlt]
      · rw [List.getElem?_append_right hge, List.getElem?_eq_none hge]
        simp [List.getElem?_singleton]
  | @release i result hi =>
      have hlt : i < b.scans.length := (List.getElem?_eq_some_iff.mp hi).1
      have hnew : i ∉ events.filterMap Event.frees? := by
        rw [hb.released i, hi]
        rintro ⟨result', hreleased⟩
        cases hreleased
      refine ⟨?_, ?_, ?_⟩
      · simp [hb.length, Event.starts]
      · intro j
        rw [List.filterMap_append, List.mem_append, hb.released j]
        by_cases hij : i = j
        · subst hij
          simp [Event.frees?, List.getElem?_set_self hlt]
        · simp [Event.frees?, List.getElem?_set_ne hij, Ne.symm hij]
      · rw [List.filterMap_append]
        refine List.nodup_append.mpr ⟨hb.once, List.pairwise_singleton _ i, ?_⟩
        intro j hj k hk hjk
        obtain rfl : k = i := List.mem_singleton.mp hk
        exact hnew (hjk ▸ hj)
  | work hi =>
      exact hb.snoc rfl (List.length_set ..) fun j r => released_set_iff hi _ r j
  | abort reason hi =>
      exact hb.snoc rfl (List.length_set ..) fun j r => released_set_iff hi _ r j
  | load | call | settle | lock | copy | store =>
      exact hb.snoc rfl rfl fun _ _ => Iff.rfl

theorem tally_run {setup : Setup} {events : List Event} {b : Build}
    (h : Run (start setup) events b) : Tally events b := by
  induction h with
  | nil => exact tally_start setup
  | snoc _ hstep ih => exact tally_step hstep ih

/-- The slots taken are those of the scans that were started and not freed. -/
theorem Tally.pending_eq {events : List Event} {b : Build} (hb : Tally events b) (ho : Ordered b) :
    b.session.pending = (List.range (events.countP Event.starts)).countP
      fun i => decide (i ∉ events.filterMap Event.frees?) := by
  rw [ho.pending, countP_eq_countP_range, hb.length]
  apply List.countP_congr
  intro i hi
  rw [List.mem_range, ← hb.length] at hi
  rw [decide_eq_true_eq, hb.released i, List.getElem?_eq_getElem hi]
  cases b.scans[i] <;> simp [ScanPhase.isPending]

theorem Ordered.pending_pos {b : Build} (ho : Ordered b) {i : Nat} {phase : ScanPhase}
    (hi : b.scans[i]? = some phase) (hphase : phase.isPending = true) :
    0 < b.session.pending := by
  rw [ho.pending]
  exact List.countP_pos_iff.mpr ⟨phase, List.mem_of_getElem? hi, hphase⟩

end Build

/-! ## Handles -/

/-- A handle that a host build holds. -/
inductive HeldHandle where
  /-- The handle of a task, by the place of its scan. -/
  | task (i : Nat)
  /-- A handle that needs no task any more: it gave out how its scan ended, or never had one. -/
  | taskless (handle : ScanHandle)

/-- A build with the handles given out in it. -/
structure Dispatch where
  build : Build
  handles : List HeldHandle

/-- What a host build does, or what happens to the tasks. -/
inductive Act where
  | start (task : ScanTask)
  /-- A scan is called for where no runtime is there to run it. -/
  | refuse (task : ScanTask)
  | drop (i : Nat) (reason : Text)
  /-- A handle is polled, and the scan has ended as the answer says, or has not ended yet. -/
  | poll (j : Nat) (answer : Option ScanResult)
  | inside (e : Event)

namespace Act

def events : Act → List Event
  | start task => [.start task]
  | drop i reason => [.abort i reason, .release i]
  | inside e => [e]
  | refuse _ | poll _ _ => []

/-- A scan is started under a runtime. -/
def starts : Act → Bool
  | start _ => true
  | inside e => e.starts
  | refuse _ | drop _ _ | poll _ _ => false

def ends? : Act → Option Nat
  | drop i _ => some i
  | inside e => e.frees?
  | start _ | refuse _ | poll _ _ => none

end Act

namespace Dispatch

/-- A dispatch in which nothing has happened. -/
def start (setup : Setup) : Dispatch := ⟨.start setup, []⟩

/-- `Step d a d'`: the act `a` can happen in `d`, and makes it `d'`. -/
inductive Step (d : Dispatch) : Act → Dispatch → Prop
  | start {b : Build} {task : ScanTask} : d.build.Step (.start task) b →
      Step d (.start task) ⟨b, d.handles ++ [.task d.build.scans.length]⟩
  | refuse (task : ScanTask) :
      Step d (.refuse task) { d with handles := d.handles ++ [.taskless .withoutRuntime] }
  | drop {i : Nat} {task : ScanTask} (reason : Text) : d.build.scans[i]? = some (.running task) →
      Step d (.drop i reason)
        { d with build := { d.build with
            session := d.build.session.release
            scans := d.build.scans.set i (.released (.error (.aborted reason))) } }
  | wait {j i : Nat} {phase : ScanPhase} : d.handles[j]? = some (.task i) →
      d.build.scans[i]? = some phase → phase.isPending = true → Step d (.poll j none) d
  | resolve {j i : Nat} {result : ScanResult} : d.handles[j]? = some (.task i) →
      d.build.scans[i]? = some (.released result) →
      Step d (.poll j (some (ScanHandle.started result).await.1))
        { d with handles := d.handles.set j (.taskless (ScanHandle.started result).await.2) }
  | answer {j : Nat} {handle : ScanHandle} : d.handles[j]? = some (.taskless handle) →
      Step d (.poll j (some handle.await.1))
        { d with handles := d.handles.set j (.taskless handle.await.2) }
  | inside {e : Event} {b : Build} : d.build.Step e b → e.starts = false →
      Step d (.inside e) { d with build := b }

/-- `Run d acts d'`: the acts happened one after the other in `d`, and made it `d'`. -/
inductive Run (d : Dispatch) : List Act → Dispatch → Prop
  | nil : Run d [] d
  | snoc {acts : List Act} {a : Act} {d' d'' : Dispatch} : Run d acts d' → Step d' a d'' →
      Run d (acts ++ [a]) d''

/-- How many scans were started under a runtime. -/
def started (acts : List Act) : Nat := acts.countP Act.starts

/-- The scans whose tasks have ended or were dropped. -/
def ended (acts : List Act) : List Nat := acts.filterMap Act.ends?

/-! ## What a dispatch does to its build -/

theorem run_of_step {d d' : Dispatch} {a : Act} (h : Step d a d') :
    d.build.Run a.events d'.build := by
  cases h with
  | start hstep => exact Build.Run.nil.snoc hstep
  | inside hstep hstarts => exact Build.Run.nil.snoc hstep
  | refuse task => exact .nil
  | wait | resolve | answer => exact .nil
  | @drop i task reason hi =>
      have hlt : i < d.build.scans.length := (List.getElem?_eq_some_iff.mp hi).1
      have habort := Build.Step.abort reason hi
      have hended : (d.build.scans.set i (.ended (.error (.aborted reason))))[i]? =
          some (.ended (.error (.aborted reason))) := List.getElem?_set_self hlt
      have hrelease := Build.Step.release
        (b := { d.build with scans := d.build.scans.set i (.ended (.error (.aborted reason))) })
        hended
      rw [List.set_set] at hrelease
      exact (Build.Run.nil.snoc habort).snoc hrelease

theorem run_build {d d' : Dispatch} {acts : List Act} (h : Run d acts d') :
    d.build.Run (acts.flatMap Act.events) d'.build := by
  induction h with
  | nil => exact .nil
  | snoc _ hstep ih =>
      rw [List.flatMap_append, List.flatMap_singleton]
      exact Build.run_append.mpr ⟨_, ih, run_of_step hstep⟩

theorem countP_starts_events (acts : List Act) :
    (acts.flatMap Act.events).countP Event.starts = started acts := by
  induction acts with
  | nil => rfl
  | cons a acts ih =>
      rw [List.flatMap_cons, List.countP_append, ih, started, started, List.countP_cons, Nat.add_comm]
      congr 1
      cases a with
      | inside e => exact List.countP_singleton
      | start | refuse | drop | poll => rfl

theorem filterMap_frees?_events (acts : List Act) :
    (acts.flatMap Act.events).filterMap Event.frees? = ended acts := by
  induction acts with
  | nil => rfl
  | cons a acts ih =>
      rw [List.flatMap_cons, List.filterMap_append, ih, ended, ended, List.filterMap_cons]
      cases a with
      | inside e => cases h : e.frees? <;> simp [Act.events, Act.ends?, h]
      | start | refuse | drop | poll => rfl

theorem pending_step_ends {d d' : Dispatch} {a : Act} (h : Step d a d')
    (ho : d.build.Ordered) (hends : a.ends?.isSome = true) :
    d.build.session.pending = d'.build.session.pending + 1 := by
  have hrelease {i : Nat} {phase : ScanPhase} (hi : d.build.scans[i]? = some phase)
      (hphase : phase.isPending = true) :
      d.build.session.pending = d.build.session.release.pending + 1 :=
    (Nat.sub_add_cancel (ho.pending_pos hi hphase)).symm
  cases h with
  | drop reason hi => exact hrelease hi rfl
  | inside hstep hstarts =>
      cases hstep with
      | release hi => exact hrelease hi rfl
      | load | start | work | abort | call | settle | lock | copy | store => cases hends
  | start | refuse | wait | resolve | answer => cases hends

/-! ## The main statement -/

/-- **A slot is taken once and given back once.**  Whatever happens in a dispatch, in whatever
order, the session counts the scans that were started under a runtime and whose tasks have neither
ended nor been dropped.  No task ends twice and none that was not started; whenever one ends the
count goes down by one, so it is not zero before.  Once all of them have ended the count is zero and
a render that waits can go on. -/
theorem pending_eq_open_scans (setup : Setup) (acts : List Act) (d : Dispatch)
    (h : Run (start setup) acts d) :
    d.build.session.pending =
      ((List.range (started acts)).filter fun i => i ∉ ended acts).length ∧
    (ended acts).Nodup ∧ (∀ i ∈ ended acts, i < started acts) ∧
    (∀ a d', Step d a d' → a.ends?.isSome = true →
      d.build.session.pending = d'.build.session.pending + 1) ∧
    ((∀ i < started acts, i ∈ ended acts) → d.build.session.pending = 0 ∧
      ∀ (j : Nat) (force : Bool), d.build.renders[j]? = some (.waiting force) →
        ∃ d', Step d (.inside (.settle j)) d') := by
  have hrun : (Build.start setup).Run (acts.flatMap Act.events) d.build := run_build h
  have ho : d.build.Ordered := Build.ordered_run hrun
  obtain ⟨hlength, hreleased, honce⟩ := Build.tally_run hrun
  have hpending := (Build.tally_run hrun).pending_eq ho
  rw [countP_starts_events, filterMap_frees?_events] at hpending
  rw [countP_starts_events] at hlength
  rw [filterMap_frees?_events] at hreleased honce
  refine ⟨?_, honce, ?_, fun a d' hstep => pending_step_ends hstep ho, ?_⟩
  · rw [hpending, List.countP_eq_length_filter]
  · intro i hi
    obtain ⟨result, hresult⟩ := (hreleased i).mp hi
    rw [← hlength]
    exact (List.getElem?_eq_some_iff.mp hresult).1
  · intro hall
    have hidle : d.build.session.pending = 0 := by
      rw [hpending, List.countP_eq_zero]
      intro i hi
      simpa using hall i (List.mem_range.mp hi)
    exact ⟨hidle, fun j force hj => ⟨_, .inside (.settle hj hidle) rfl⟩⟩

/-- Of two tasks one runs and one is dropped, a third scan is refused, and a render waits for the
first two. -/
theorem pending_eq_open_scans_dropped :
    let first : List Act := [.start (.source "x"), .refuse (.named "App"), .start (.named "App"),
      .inside (.call false), .poll 0 none, .drop 1 "cancelled"]
    let rest : List Act := [.inside (.work 0), .inside (.release 0), .poll 0 (some (.ok {}))]
    ∃ m d, Run (start (.standard {})) first m ∧ m.build.session.pending = 1 ∧
      Run (start (.standard {})) (first ++ rest) d ∧ d.build.session.pending = 0 ∧
        ∃ d', Step d (.inside (.settle 0)) d' := by
  intro first rest
  have h₀ : Run (start (.standard {})) [] _ := .nil
  have h₁ := h₀.snoc (.start (.start (.source "x")))
  have h₂ := (h₁.snoc (.refuse (.named "App"))).snoc (.start (.start (.named "App")))
  have h₃ := (h₂.snoc (.inside (.call false) rfl)).snoc (.wait (j := 0) rfl rfl rfl)
  have hfirst := h₃.snoc (.drop (i := 1) "cancelled" rfl)
  have h₄ := (hfirst.snoc (.inside (.work (i := 0) rfl) rfl)).snoc (.inside (.release (i := 0) rfl) rfl)
  have hall := h₄.snoc (.resolve (j := 0) rfl rfl)
  refine ⟨_, _, hfirst, (pending_eq_open_scans _ _ _ hfirst).1.trans (by decide), hall, ?_⟩
  obtain ⟨-, -, -, -, hidle⟩ := pending_eq_open_scans _ _ _ hall
  have hended : ∀ i < started (first ++ rest), i ∈ ended (first ++ rest) := by decide
  exact ⟨(hidle hended).1, (hidle hended).2 0 false rfl⟩

end Dispatch

end AttributeCss
