/-
Builds: scans and renders that overlap.

A build is a session with the scans started in it and the renders called in
it, each with how far it has come.  Any of them may take the next step, so a
run is a list of events in whatever order they fell.  What a step does to the
session is what the session's own moves do: `enter`, `work`, `release`, `copy`
and `store`; the lock that renders take in turn is in the phases of renders.
-/
import Mathlib.Data.List.Induction
import AttributeCss.Proofs.Session.Run

namespace AttributeCss

/-- How far a scan has come. -/
inductive ScanPhase where
  | running (task : ScanTask)
  | ended (result : ScanResult)
  | released (result : ScanResult)

/-- How far a render has come: it waits until no scan is pending, takes the lock, copies the entries
if it is to write the stylesheet anew, and returns. -/
inductive RenderPhase where
  | waiting (force : Bool)
  | settled (force : Bool)
  | locked (force : Bool)
  | copied (entries : List Entry)
  | returned (css : Text)
deriving DecidableEq

/-- The scan merges nothing any more. -/
def ScanPhase.Ended : ScanPhase → Prop
  | running _ => False
  | ended _ | released _ => True

/-- The scan's slot is still taken. -/
def ScanPhase.isPending : ScanPhase → Bool
  | running _ | ended _ => true
  | released _ => false

def RenderPhase.Holds : RenderPhase → Prop
  | locked _ | copied _ => True
  | waiting _ | settled _ | returned _ => False

instance : DecidablePred RenderPhase.Holds
  | .locked _ | .copied _ => inferInstanceAs (Decidable True)
  | .waiting _ | .settled _ | .returned _ => inferInstanceAs (Decidable False)

/-- What comes of a render that has asked for the entries: it has them, or returns the text that is
kept. -/
def RenderPhase.ofCopy : Option (List Entry) × Session → RenderPhase
  | (some entries, _) => .copied entries
  | (none, s) => .returned s.css

/-- A session with the scans and renders in it, in the order they came. -/
structure Build where
  session : Session
  scans : List ScanPhase
  renders : List RenderPhase

/-- What happens in a build.  Scans and renders are told apart by their place in the order they
came in. -/
inductive Event where
  | load (snapshot : Snapshot)
  | start (task : ScanTask)
  | work (i : Nat)
  /-- The scan crashes, or is dropped before it could run. -/
  | abort (i : Nat) (reason : Text)
  | release (i : Nat)
  | call (force : Bool)
  | settle (i : Nat)
  | lock (i : Nat)
  | copy (i : Nat)
  | store (i : Nat)

namespace Build

/-- A build in which nothing has happened. -/
def start (setup : Setup) : Build := ⟨.start setup, [], []⟩

/-- `Step b e b'`: the event `e` can happen in `b`, and makes it `b'`. -/
inductive Step (b : Build) : Event → Build → Prop
  | load (snapshot : Snapshot) :
      Step b (.load snapshot) { b with session := b.session.load snapshot }
  | start (task : ScanTask) :
      Step b (.start task)
        { b with session := b.session.enter, scans := b.scans ++ [.running task] }
  | work {i : Nat} {task : ScanTask} : b.scans[i]? = some (.running task) →
      Step b (.work i)
        { b with
          session := (b.session.work task).2
          scans := b.scans.set i (.ended (b.session.work task).1) }
  | abort {i : Nat} {task : ScanTask} (reason : Text) : b.scans[i]? = some (.running task) →
      Step b (.abort i reason)
        { b with scans := b.scans.set i (.ended (.error (.aborted reason))) }
  | release {i : Nat} {result : ScanResult} : b.scans[i]? = some (.ended result) →
      Step b (.release i)
        { b with session := b.session.release, scans := b.scans.set i (.released result) }
  | call (force : Bool) :
      Step b (.call force) { b with renders := b.renders ++ [.waiting force] }
  | settle {i : Nat} {force : Bool} : b.renders[i]? = some (.waiting force) →
      b.session.pending = 0 →
      Step b (.settle i) { b with renders := b.renders.set i (.settled force) }
  | lock {i : Nat} {force : Bool} : b.renders[i]? = some (.settled force) →
      (∀ phase ∈ b.renders, ¬ phase.Holds) →
      Step b (.lock i) { b with renders := b.renders.set i (.locked force) }
  | copy {i : Nat} {force : Bool} : b.renders[i]? = some (.locked force) →
      Step b (.copy i)
        { b with
          session := (b.session.copy force).2
          renders := b.renders.set i (.ofCopy (b.session.copy force)) }
  | store {i : Nat} {entries : List Entry} : b.renders[i]? = some (.copied entries) →
      Step b (.store i)
        { b with
          session := (b.session.store entries).2
          renders := b.renders.set i (.returned (b.session.store entries).1) }

/-- `Run b events b'`: the events happened one after the other in `b`, and made it `b'`. -/
inductive Run (b : Build) : List Event → Build → Prop
  | nil : Run b [] b
  | snoc {events : List Event} {e : Event} {b' b'' : Build} : Run b events b' → Step b' e b'' →
      Run b (events ++ [e]) b''

/-! ## Running a build -/

/-- The build after an event, if the event can happen. -/
def next? (b : Build) : Event → Option Build
  | .load snapshot => some { b with session := b.session.load snapshot }
  | .start task =>
      some { b with session := b.session.enter, scans := b.scans ++ [.running task] }
  | .work i =>
      match b.scans[i]? with
      | some (.running task) =>
          some { b with
            session := (b.session.work task).2
            scans := b.scans.set i (.ended (b.session.work task).1) }
      | _ => none
  | .abort i reason =>
      match b.scans[i]? with
      | some (.running _) =>
          some { b with scans := b.scans.set i (.ended (.error (.aborted reason))) }
      | _ => none
  | .release i =>
      match b.scans[i]? with
      | some (.ended result) =>
          some { b with session := b.session.release, scans := b.scans.set i (.released result) }
      | _ => none
  | .call force => some { b with renders := b.renders ++ [.waiting force] }
  | .settle i =>
      match b.renders[i]? with
      | some (.waiting force) =>
          if b.session.pending = 0 then
            some { b with renders := b.renders.set i (.settled force) }
          else none
      | _ => none
  | .lock i =>
      match b.renders[i]? with
      | some (.settled force) =>
          if ∀ phase ∈ b.renders, ¬ phase.Holds then
            some { b with renders := b.renders.set i (.locked force) }
          else none
      | _ => none
  | .copy i =>
      match b.renders[i]? with
      | some (.locked force) =>
          some { b with
            session := (b.session.copy force).2
            renders := b.renders.set i (.ofCopy (b.session.copy force)) }
      | _ => none
  | .store i =>
      match b.renders[i]? with
      | some (.copied entries) =>
          some { b with
            session := (b.session.store entries).2
            renders := b.renders.set i (.returned (b.session.store entries).1) }
      | _ => none

/-- An event happens in one way only, and `next?` finds it. -/
theorem step_iff {b b' : Build} {e : Event} : Step b e b' ↔ b.next? e = some b' := by
  constructor
  · intro h
    cases h with
    | load | start | call => rfl
    | work hi | abort reason hi | release hi | copy hi | store hi => simp only [next?, hi]
    | settle hi hidle => simp only [next?, hi, if_pos hidle]
    | lock hi hfree => simp only [next?, hi, if_pos hfree]
  · intro h
    cases e with
    | load snapshot => exact Option.some.inj h ▸ .load snapshot
    | start task => exact Option.some.inj h ▸ .start task
    | call force => exact Option.some.inj h ▸ .call force
    | work i =>
        simp only [next?] at h
        split at h
        · next hi => exact Option.some.inj h ▸ .work hi
        · cases h
    | abort i reason =>
        simp only [next?] at h
        split at h
        · next hi => exact Option.some.inj h ▸ .abort reason hi
        · cases h
    | release i =>
        simp only [next?] at h
        split at h
        · next hi => exact Option.some.inj h ▸ .release hi
        · cases h
    | settle i =>
        simp only [next?] at h
        split at h
        · next hi =>
            split at h
            · next hidle => exact Option.some.inj h ▸ .settle hi hidle
            · cases h
        · cases h
    | lock i =>
        simp only [next?] at h
        split at h
        · next hi =>
            split at h
            · next hfree => exact Option.some.inj h ▸ .lock hi hfree
            · cases h
        · cases h
    | copy i =>
        simp only [next?] at h
        split at h
        · next hi => exact Option.some.inj h ▸ .copy hi
        · cases h
    | store i =>
        simp only [next?] at h
        split at h
        · next hi => exact Option.some.inj h ▸ .store hi
        · cases h

theorem run_iff {b b' : Build} {events : List Event} :
    Run b events b' ↔ events.foldlM next? b = some b' := by
  constructor
  · intro h
    induction h with
    | nil => rfl
    | snoc _ hstep ih => simp [List.foldlM_append, ih, step_iff.mp hstep]
  · intro h
    induction events using List.reverseRecOn generalizing b' with
    | nil => exact Option.some.inj h ▸ .nil
    | append_singleton events e ih =>
        rw [List.foldlM_append] at h
        obtain ⟨m, hm, hlast⟩ := Option.bind_eq_some_iff.mp h
        have hstep : m.next? e = some b' := by simpa using hlast
        exact (ih hm).snoc (step_iff.mpr hstep)

theorem run_append {b b'' : Build} {events events' : List Event} :
    Run b (events ++ events') b'' ↔ ∃ b', Run b events b' ∧ Run b' events' b'' := by
  simp only [run_iff, List.foldlM_append]
  exact Option.bind_eq_some_iff

/-! ## What every step keeps -/

theorem setup_step {b b' : Build} {e : Event} (h : Step b e b') :
    b'.session.setup = b.session.setup := by
  cases h with
  | work hi => exact Session.setup_work _ _
  | @copy i force hi =>
      show (b.session.copy force).2.setup = _
      unfold Session.copy
      split <;> rfl
  | load | start | abort | release | call | settle | lock | store => rfl

theorem setup_run {b b' : Build} {events : List Event} (h : Run b events b') :
    b'.session.setup = b.session.setup := by
  induction h with
  | nil => rfl
  | snoc _ hstep ih => rw [setup_step hstep, ih]

theorem ended_step {b b' : Build} {e : Event} (h : Step b e b') {j : Nat}
    (hj : ∃ phase, b.scans[j]? = some phase ∧ phase.Ended) :
    ∃ phase, b'.scans[j]? = some phase ∧ phase.Ended := by
  obtain ⟨phase, hphase, hended⟩ := hj
  have hlt : j < b.scans.length := (List.getElem?_eq_some_iff.mp hphase).1
  have hset : ∀ {i : Nat} {new : ScanPhase}, new.Ended →
      ∃ phase, (b.scans.set i new)[j]? = some phase ∧ phase.Ended := by
    intro i new hnew
    by_cases hij : i = j
    · subst hij
      exact ⟨new, List.getElem?_set_self hlt, hnew⟩
    · exact ⟨phase, by rw [List.getElem?_set_ne hij, hphase], hended⟩
  cases h with
  | start task => exact ⟨phase, by rw [List.getElem?_append_left hlt, hphase], hended⟩
  | work _ => exact hset trivial
  | abort reason _ => exact hset trivial
  | release _ => exact hset trivial
  | load | call | settle | lock | copy | store => exact ⟨phase, hphase, hended⟩

/-! ## What holds in every state -/

theorem getElem?_set_cases {α : Type} {l : List α} {i j : Nat} {new x : α}
    (h : (l.set i new)[j]? = some x) : (i = j ∧ x = new) ∨ (i ≠ j ∧ l[j]? = some x) := by
  by_cases hij : i = j
  · subst hij
    have hlt : i < l.length := by simpa using (List.getElem?_eq_some_iff.mp h).1
    rw [List.getElem?_set_self hlt] at h
    exact Or.inl ⟨rfl, (Option.some.inj h).symm⟩
  · rw [List.getElem?_set_ne hij] at h
    exact Or.inr ⟨hij, h⟩

/-- At most one of the renders holds the lock. -/
def OneHolder (renders : List RenderPhase) : Prop :=
  ∀ (i j : Nat) (p q : RenderPhase), renders[i]? = some p → renders[j]? = some q →
    p.Holds → q.Holds → i = j

theorem oneHolder_append {renders : List RenderPhase} (h : OneHolder renders) (force : Bool) :
    OneHolder (renders ++ [.waiting force]) := by
  have hold : ∀ {i : Nat} {p : RenderPhase}, (renders ++ [.waiting force])[i]? = some p →
      p.Holds → renders[i]? = some p := by
    intro i p hi hp
    rcases Nat.lt_or_ge i renders.length with hlt | hge
    · rwa [List.getElem?_append_left hlt] at hi
    · rw [List.getElem?_append_right hge] at hi
      obtain rfl : p = .waiting force := by simpa using List.mem_of_getElem? hi
      exact False.elim hp
  exact fun i j p q hi hj hp hq => h i j p q (hold hi hp) (hold hj hq) hp hq

/-- A render may go on to any phase without the lock, and to one with it if no other has it. -/
theorem oneHolder_set {renders : List RenderPhase} (h : OneHolder renders) {k : Nat}
    {new : RenderPhase}
    (hnew : new.Holds → ∀ (j : Nat) (q : RenderPhase), renders[j]? = some q → q.Holds → k = j) :
    OneHolder (renders.set k new) := by
  intro i j p q hi hj hp hq
  rcases getElem?_set_cases hi with ⟨rfl, rfl⟩ | ⟨-, hi'⟩
  · rcases getElem?_set_cases hj with ⟨rfl, -⟩ | ⟨-, hj'⟩
    · rfl
    · exact hnew hp j q hj' hq
  · rcases getElem?_set_cases hj with ⟨rfl, rfl⟩ | ⟨-, hj'⟩
    · exact (hnew hq i p hi' hp).symm
    · exact h i j p q hi' hj' hp hq

/-- The session counts the scans not released, one render at most holds the lock, and up to the first
render the registry is stale. -/
structure Ordered (b : Build) : Prop where
  pending : b.session.pending = b.scans.countP (·.isPending)
  holder : OneHolder b.renders
  stale : b.renders = [] → b.session.registry.stale = true

theorem ordered_start (setup : Setup) : Ordered (start setup) where
  pending := rfl
  holder := by simp [OneHolder, start]
  stale _ := rfl

theorem countP_set_of {scans : List ScanPhase} {i : Nat} {old : ScanPhase}
    (hold : scans[i]? = some old) (new : ScanPhase) :
    (scans.set i new).countP (·.isPending) + old.isPending.toNat =
      scans.countP (·.isPending) + new.isPending.toNat := by
  obtain ⟨hlt, rfl⟩ := List.getElem?_eq_some_iff.mp hold
  have hle := List.boole_getElem_le_countP (p := (·.isPending)) hlt
  rw [List.countP_set hlt]
  cases hp : scans[i].isPending <;> cases hq : new.isPending <;> simp_all

theorem ordered_step {b b' : Build} {e : Event} (h : Step b e b') (hb : Ordered b) :
    Ordered b' := by
  have hset : ∀ {i : Nat} {old new : RenderPhase}, b.renders[i]? = some old →
      b.renders.set i new ≠ [] := by
    intro i old new hold hnil
    have hlt := (List.getElem?_eq_some_iff.mp hold).1
    simp_all
  cases h with
  | load snapshot => exact ⟨hb.pending, hb.holder, hb.stale⟩
  | start task =>
      refine ⟨?_, hb.holder, hb.stale⟩
      show b.session.pending + 1 = _
      rw [hb.pending, List.countP_append]
      rfl
  | @work i task hi =>
      refine ⟨?_, hb.holder, ?_⟩
      · have hcount := countP_set_of hi (.ended (b.session.work task).1)
        show (b.session.work task).2.pending = _
        rw [Session.pending_work, hb.pending]
        exact (Nat.add_right_cancel hcount).symm
      · intro hnil
        -- what is fresh after a scan was fresh before it
        by_contra hfresh
        have hfresh := Bool.eq_false_iff.mpr hfresh
        rw [Session.work_eq_self hfresh, hb.stale hnil] at hfresh
        exact absurd hfresh (by decide)
  | abort reason hi =>
      refine ⟨?_, hb.holder, hb.stale⟩
      have hcount := countP_set_of hi (.ended (.error (.aborted reason)))
      show b.session.pending = _
      rw [hb.pending]
      exact (Nat.add_right_cancel hcount).symm
  | @release i result hi =>
      refine ⟨?_, hb.holder, hb.stale⟩
      have hcount := countP_set_of hi (.released result)
      show b.session.pending - 1 = _
      rw [hb.pending]
      exact Nat.sub_eq_of_eq_add hcount.symm
  | call force => exact ⟨hb.pending, oneHolder_append hb.holder force, by simp⟩
  | settle hi hidle =>
      exact ⟨hb.pending, oneHolder_set hb.holder nofun, fun hnil => absurd hnil (hset hi)⟩
  | lock hi hfree =>
      refine ⟨hb.pending, oneHolder_set hb.holder ?_, fun hnil => absurd hnil (hset hi)⟩
      intro _ j q hj hq
      exact absurd hq (hfree q (List.mem_of_getElem? hj))
  | @copy i force hi =>
      refine ⟨?_, oneHolder_set hb.holder ?_, fun hnil => absurd hnil (hset hi)⟩
      · show (b.session.copy force).2.pending = _
        rw [← hb.pending]
        unfold Session.copy
        split <;> rfl
      · exact fun _ j q hj hq => hb.holder i j _ q hi hj trivial hq
  | store hi =>
      exact ⟨hb.pending, oneHolder_set hb.holder nofun, fun hnil => absurd hnil (hset hi)⟩

theorem ordered_run {setup : Setup} {b : Build} {events : List Event}
    (h : Run (start setup) events b) : Ordered b := by
  induction h with
  | nil => exact ordered_start setup
  | snoc _ hstep ih => exact ordered_step hstep ih

end Build

end AttributeCss
