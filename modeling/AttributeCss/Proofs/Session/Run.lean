/-
Runs of a session, and the stylesheet it keeps.

A session keeps the text it wrote last and one flag, `stale`, that decides
whether the next render writes it anew.  Scans raise the flag, restoring a
snapshot does not, and a render takes it back.  The invariant that ties the
three together is `Current`: a registry that is not stale is the one the kept
text was written for.  Every move keeps it but one, restoring entries that
were not there.
-/
import AttributeCss.Session.Basic
import AttributeCss.Proofs.Registry.Freshness

namespace AttributeCss

open Markup

/-- The setup of the default options. -/
def Setup.standard (host : Host) : Setup :=
  ⟨{}, ⟨"xe", ["focus", "hover"], by decide, by decide⟩, rfl, host⟩

/-! ## What a scan does -/

def ScanTask.origin? : ScanTask → Option Text
  | .source _ => none
  | .named name => some name

/-- The source text of a task, if it can be had. -/
def Setup.text? (u : Setup) : ScanTask → Option Text
  | .source text => some text
  | .named name => u.host.modules.bind fun readModule => (readModule name).toOption

/-- The template in a source text, if it has one that can be read. -/
def Setup.templateOf? (u : Setup) (text : Text) : Option (List Node) :=
  (region? text).bind fun region =>
    match u.host.readMarkup region with
    | .tree nodes => some nodes
    | .fault _ | .crash => none

/-- The template a task leads to, if the scan gets that far. -/
def Setup.template? (u : Setup) (task : ScanTask) : Option (List Node) :=
  (u.text? task).bind u.templateOf?

namespace Session

theorem report_eq (s : Session) (origin : Option Text) (d : Diagnostic) :
    ∃ reported, s.report origin d = { s with reported } := by
  unfold report
  split
  · exact ⟨s.reported, rfl⟩
  · exact ⟨_, rfl⟩

theorem scanText_of_template {s : Session} {text : Text} {nodes : List Node}
    (h : s.setup.templateOf? text = some nodes) (origin : Option Text) :
    s.scanText origin text = (.ok (s.merge (Occurrence.ofNodes s.setup.vocabulary nodes)).1,
      (s.merge (Occurrence.ofNodes s.setup.vocabulary nodes)).2) := by
  obtain ⟨region, hregion, hread⟩ := Option.bind_eq_some_iff.mp h
  unfold scanText
  rw [hregion]
  dsimp only
  split at hread
  · next nodes' htree =>
      obtain rfl : nodes' = nodes := by simpa using hread
      rw [htree]
  all_goals simp at hread

theorem scanText_of_no_template {s : Session} {text : Text}
    (h : s.setup.templateOf? text = none) (origin : Option Text) :
    ∃ reported, (s.scanText origin text).2 = { s with reported } := by
  unfold scanText
  cases hregion : region? text with
  | none =>
      dsimp only
      split
      · exact report_eq s _ _
      · exact ⟨s.reported, rfl⟩
  | some region =>
      dsimp only
      cases hread : s.setup.host.readMarkup region with
      | tree nodes => simp [Setup.templateOf?, hregion, hread] at h
      | fault e => exact report_eq s _ _
      | crash => exact ⟨s.reported, rfl⟩

theorem work_of_text {s : Session} {task : ScanTask} {text : Text}
    (h : s.setup.text? task = some text) : s.work task = s.scanText task.origin? text := by
  cases task with
  | source t =>
      obtain rfl : t = text := by simpa [Setup.text?] using h
      rfl
  | named name =>
      obtain ⟨readModule, hmodules, hread⟩ := Option.bind_eq_some_iff.mp h
      show s.scanModule name = s.scanText (some name) text
      unfold scanModule
      rw [hmodules]
      cases hmodule : readModule name with
      | error cause => simp [hmodule, Except.toOption] at hread
      | ok t =>
          obtain rfl : t = text := by simpa [hmodule, Except.toOption] using hread
          simp only [hmodule]

theorem work_of_no_text {s : Session} {task : ScanTask} (h : s.setup.text? task = none) :
    ∃ reported, (s.work task).2 = { s with reported } := by
  cases task with
  | source text => exact absurd h (by simp [Setup.text?])
  | named name =>
      show ∃ reported, (s.scanModule name).2 = _
      unfold scanModule
      cases hmodules : s.setup.host.modules with
      | none => exact report_eq s (some name) noModulesError
      | some readModule =>
          cases hmodule : readModule name with
          | error cause =>
              simp only [hmodule]
              exact report_eq s (some name) (unreadableError cause)
          | ok text => simp [Setup.text?, hmodules, hmodule, Except.toOption] at h

/-- A scan that gets to a template merges its occurrences and does nothing else. -/
theorem work_of_template {s : Session} {task : ScanTask} {nodes : List Node}
    (h : s.setup.template? task = some nodes) :
    s.work task = (.ok (s.merge (Occurrence.ofNodes s.setup.vocabulary nodes)).1,
      (s.merge (Occurrence.ofNodes s.setup.vocabulary nodes)).2) := by
  obtain ⟨text, htext, htemplate⟩ := Option.bind_eq_some_iff.mp h
  rw [work_of_text htext]
  exact scanText_of_template htemplate _

theorem work_of_no_template {s : Session} {task : ScanTask}
    (h : s.setup.template? task = none) :
    ∃ reported, (s.work task).2 = { s with reported } := by
  cases htext : s.setup.text? task with
  | none => exact work_of_no_text htext
  | some text =>
      rw [work_of_text htext]
      exact scanText_of_no_template (by simpa [Setup.template?, htext] using h) _

theorem work_frame (s : Session) (task : ScanTask) :
    ∃ registry reported, (s.work task).2 = { s with registry, reported } := by
  cases h : s.setup.template? task with
  | none =>
      obtain ⟨reported, hwork⟩ := work_of_no_template h
      exact ⟨s.registry, reported, hwork⟩
  | some nodes =>
      rw [work_of_template h]
      exact ⟨_, s.reported, rfl⟩

@[simp] theorem setup_work (s : Session) (task : ScanTask) :
    (s.work task).2.setup = s.setup := by
  obtain ⟨registry, reported, h⟩ := work_frame s task
  rw [h]

@[simp] theorem css_work (s : Session) (task : ScanTask) : (s.work task).2.css = s.css := by
  obtain ⟨registry, reported, h⟩ := work_frame s task
  rw [h]

@[simp] theorem pending_work (s : Session) (task : ScanTask) :
    (s.work task).2.pending = s.pending := by
  obtain ⟨registry, reported, h⟩ := work_frame s task
  rw [h]

theorem registry_work (s : Session) (task : ScanTask) :
    (s.work task).2.registry =
      match s.setup.template? task with
      | some nodes => (s.merge (Occurrence.ofNodes s.setup.vocabulary nodes)).2.registry
      | none => s.registry := by
  cases h : s.setup.template? task with
  | none =>
      obtain ⟨reported, hwork⟩ := work_of_no_template h
      rw [hwork]
  | some nodes => rw [work_of_template h]

theorem mergeOne_eq_self (st : Nat × Registry) (o : Occurrence)
    (h : (mergeOne st o).2.stale = false) : (mergeOne st o).2 = st.2 :=
  Registry.collect_eq_self h

theorem merge_eq_self {s : Session} {found : List Occurrence}
    (h : (s.merge found).2.registry.stale = false) :
    (s.merge found).2.registry = s.registry :=
  Registry.foldl_eq_self mergeOne_eq_self found (0, s.registry) h

theorem work_eq_self {s : Session} {task : ScanTask}
    (h : (s.work task).2.registry.stale = false) :
    (s.work task).2.registry = s.registry := by
  rw [registry_work] at h ⊢
  split at h
  · exact merge_eq_self h
  · rfl

/-! ## Renders -/

/-- A render with this `force` writes the stylesheet anew. -/
def Rewrites (s : Session) (force : Bool) : Prop := s.registry.stale = true ∨ force = true

instance (s : Session) (force : Bool) : Decidable (s.Rewrites force) :=
  inferInstanceAs (Decidable (_ ∨ _))

theorem fresh_of_not_rewrites {s : Session} {force : Bool} (h : ¬ s.Rewrites force) :
    s.registry.stale = false :=
  Bool.eq_false_iff.mpr fun hstale => h (Or.inl hstale)

theorem copy_of_rewrites {s : Session} {force : Bool} (h : s.Rewrites force) :
    s.copy force = (some s.registry.entries, { s with registry := s.registry.freshened }) :=
  if_pos (Bool.or_eq_true_iff.mpr h)

theorem copy_of_not_rewrites {s : Session} {force : Bool} (h : ¬ s.Rewrites force) :
    s.copy force = (none, s) :=
  if_neg fun hor => h (Bool.or_eq_true_iff.mp hor)

theorem render_of_rewrites {s : Session} {force : Bool} (h : s.Rewrites force) :
    s.render force = (s.stylesheetOf s.registry.entries,
      { s with
        registry := s.registry.freshened
        css := s.stylesheetOf s.registry.entries }) := by
  simp only [render, copy_of_rewrites h, store]
  rfl

theorem render_of_not_rewrites {s : Session} {force : Bool} (h : ¬ s.Rewrites force) :
    s.render force = (s.css, s) := by
  simp only [render, copy_of_not_rewrites h]

theorem render_force (s : Session) : (s.render true).1 =
    s.registry.entries.flatMap (Entry.rule s.setup.vocabulary.marker s.setup.host.rules) := by
  have hforce : s.Rewrites true := Or.inr rfl
  rw [render_of_rewrites hforce]
  rfl

@[simp] theorem setup_render (s : Session) (force : Bool) :
    (s.render force).2.setup = s.setup := by
  by_cases h : s.Rewrites force
  · rw [render_of_rewrites h]
  · rw [render_of_not_rewrites h]

/-! ## Moves and runs -/

/-- What a host build does with a session. -/
inductive Move where
  | scan (task : ScanTask)
  | load (snapshot : Snapshot)
  | loadCache (store : Store)
  | persistCache (store : Store)
  | render (force : Bool)

/-- The session after a move.  Putting the entries into a store changes the store alone. -/
def move (s : Session) : Move → Session
  | .scan task => (s.scan task).2
  | .load snapshot => s.load snapshot
  | .loadCache store => (s.loadCache store).2
  | .persistCache _ => s
  | .render force => (s.render force).2

def shown (s : Session) : Move → List Text
  | .render force => [(s.render force).1]
  | .scan _ | .load _ | .loadCache _ | .persistCache _ => []

/-- One move of a run, in which the texts returned so far are kept. -/
def record (st : List Text × Session) (m : Move) : List Text × Session :=
  (st.1 ++ st.2.shown m, st.2.move m)

/-- The texts returned by moves one after the other, and the session after them. -/
def run (s : Session) (ms : List Move) : List Text × Session := ms.foldl record ([], s)

def Move.Restores : Move → Prop
  | .load _ | .loadCache _ => True
  | .scan _ | .persistCache _ | .render _ => False

/-- No move that restores entries changes them. -/
def RestoresNothingNew (s : Session) : List Move → Prop
  | [] => True
  | m :: ms =>
      (m.Restores → (s.move m).registry.entries = s.registry.entries) ∧
        RestoresNothingNew (s.move m) ms

/-- Some render among the moves wrote the stylesheet anew, and nothing new was restored since. -/
def RewrittenSince (s : Session) (ms : List Move) : Prop :=
  ∃ before force after, ms = before ++ .render force :: after ∧
    (run s before).2.Rewrites force ∧
    RestoresNothingNew (run s (before ++ [.render force])).2 after

theorem run_append (s : Session) (a b : List Move) :
    (run s (a ++ b)).2 = (run (run s a).2 b).2 := by
  have hsession : ∀ (ms : List Move) (st : List Text × Session),
      (ms.foldl record st).2 = ms.foldl move st.2 := by
    intro ms
    induction ms with
    | nil => exact fun _ => rfl
    | cons m ms ih => exact fun st => ih (record st m)
  simp only [run, List.foldl_append]
  rw [hsession b, hsession b]

theorem run_cons (s : Session) (m : Move) (ms : List Move) :
    (run s (m :: ms)).2 = (run (s.move m) ms).2 :=
  run_append s [m] ms

theorem setup_move (s : Session) (m : Move) : (s.move m).setup = s.setup := by
  cases m with
  | scan task => exact setup_work s.enter task
  | load snapshot => rfl
  | loadCache store =>
      simp only [move, loadCache]
      split <;> rfl
  | persistCache store => rfl
  | render force => exact setup_render s force

theorem setup_run (s : Session) (ms : List Move) : (run s ms).2.setup = s.setup := by
  unfold run
  suffices h : ∀ st : List Text × Session, (ms.foldl record st).2.setup = st.2.setup from h _
  intro st
  induction ms generalizing st with
  | nil => rfl
  | cons m ms ih =>
      rw [List.foldl_cons, ih]
      exact setup_move st.2 m

end Session

end AttributeCss
