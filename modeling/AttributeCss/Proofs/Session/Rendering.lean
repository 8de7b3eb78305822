/-
The stylesheet a render returns, over all runs.

Two invariants carry the result.  `Current` ties the kept text to the entries
and is broken only by restoring new ones, so it holds from a rewriting render
on for as long as nothing new is restored.  `LastShown` ties the kept text to
what was returned last; it holds in every run, since a registry is stale until
the first render.
-/
import AttributeCss.Proofs.Session.Run

namespace AttributeCss.Session

/-- The kept text is the stylesheet of the entries, unless the registry is stale. -/
def Current (s : Session) : Prop :=
  s.registry.stale = false → s.css = s.stylesheetOf s.registry.entries

theorem stylesheetOf_congr {s s' : Session} (h : s.setup = s'.setup) (entries : List Entry) :
    s.stylesheetOf entries = s'.stylesheetOf entries := by
  unfold stylesheetOf
  rw [h]

/-! ## What keeps the text current -/

theorem current_work {s : Session} (h : s.Current) (task : ScanTask) :
    (s.work task).2.Current := by
  intro hfresh
  have hsame := work_eq_self hfresh
  rw [hsame] at hfresh
  rw [css_work, stylesheetOf_congr (setup_work s task), hsame]
  exact h hfresh

theorem current_render_of_rewrites {s : Session} {force : Bool} (h : s.Rewrites force) :
    (s.render force).2.Current := by
  rw [render_of_rewrites h]
  exact fun _ => rfl

theorem current_render {s : Session} (h : s.Current) (force : Bool) :
    (s.render force).2.Current := by
  by_cases hrewrites : s.Rewrites force
  · exact current_render_of_rewrites hrewrites
  · rw [render_of_not_rewrites hrewrites]
    exact h

theorem current_load {s : Session} (h : s.Current) {snapshot : Snapshot}
    (hsame : (s.load snapshot).registry.entries = s.registry.entries) :
    (s.load snapshot).Current := by
  intro hfresh
  show s.css = s.stylesheetOf (s.load snapshot).registry.entries
  rw [hsame]
  exact h hfresh

theorem current_move {s : Session} (h : s.Current) {m : Move}
    (hsame : m.Restores → (s.move m).registry.entries = s.registry.entries) :
    (s.move m).Current := by
  cases m with
  | scan task =>
      have henter : s.enter.Current := h
      exact current_work henter task
  | load snapshot => exact current_load h (hsame trivial)
  | loadCache store =>
      have hentries := hsame trivial
      simp only [move, loadCache] at hentries ⊢
      split
      · next snapshot hread =>
          rw [hread] at hentries
          exact current_load h hentries
      all_goals exact h
  | persistCache store => exact h
  | render force => exact current_render h force

theorem current_moves {s : Session} (h : s.Current) {ms : List Move}
    (hms : s.RestoresNothingNew ms) : (run s ms).2.Current := by
  induction ms generalizing s with
  | nil => exact h
  | cons m ms ih =>
      rw [run_cons]
      exact ih (current_move h hms.1) hms.2

/-- Where the text is current, forcing a render makes no difference to what it returns. -/
theorem render_eq_of_current {s : Session} (h : s.Current) :
    (s.render false).1 = (s.render true).1 := by
  have hforced : s.Rewrites true := Or.inr rfl
  by_cases hrewrites : s.Rewrites false
  · rw [render_of_rewrites hrewrites, render_of_rewrites hforced]
  · rw [render_of_not_rewrites hrewrites, render_of_rewrites hforced]
    exact h (fresh_of_not_rewrites hrewrites)

theorem current_of_rewrittenSince {s : Session} {ms : List Move} (h : s.RewrittenSince ms) :
    (run s ms).2.Current := by
  obtain ⟨before, force, after, rfl, hrewrites, hafter⟩ := h
  rw [← List.singleton_append, ← List.append_assoc, run_append]
  refine current_moves ?_ hafter
  rw [run_append]
  exact current_render_of_rewrites hrewrites

/-! ## What was returned last -/

/-- The kept text is the one returned last, unless the registry is stale. -/
def LastShown (st : List Text × Session) : Prop :=
  st.2.registry.stale = false → st.1.getLast? = some st.2.css

/-- A move that returns nothing keeps the text returned last, if it keeps the text and does not make
the registry fresh. -/
theorem lastShown_of_silent {st : List Text × Session} (h : LastShown st) {m : Move}
    (hshown : st.2.shown m = []) (hcss : (st.2.move m).css = st.2.css)
    (hfresh : (st.2.move m).registry.stale = false → st.2.registry.stale = false) :
    LastShown (record st m) := by
  intro hmoved
  show (st.1 ++ st.2.shown m).getLast? = some (st.2.move m).css
  rw [hshown, List.append_nil, hcss]
  exact h (hfresh hmoved)

theorem lastShown_record {st : List Text × Session} (h : LastShown st) (m : Move) :
    LastShown (record st m) := by
  cases m with
  | scan task =>
      refine lastShown_of_silent h rfl (css_work st.2.enter task) fun hfresh => ?_
      have hsame : (st.2.enter.work task).2.registry = st.2.enter.registry := work_eq_self hfresh
      exact (congrArg Registry.stale hsame).symm.trans hfresh
  | load snapshot => exact lastShown_of_silent h rfl rfl id
  | loadCache store =>
      have hkept : (st.2.loadCache store).2.css = st.2.css ∧
          (st.2.loadCache store).2.registry.stale = st.2.registry.stale := by
        unfold loadCache
        split <;> exact ⟨rfl, rfl⟩
      exact lastShown_of_silent h rfl hkept.1 hkept.2.symm.trans
  | persistCache store => exact lastShown_of_silent h rfl rfl id
  | render force =>
      -- whatever it returns is the text it leaves behind
      intro _
      show (st.1 ++ [(st.2.render force).1]).getLast? = some (st.2.render force).2.css
      rw [List.getLast?_concat]
      by_cases hrewrites : st.2.Rewrites force
      · rw [render_of_rewrites hrewrites]
      · rw [render_of_not_rewrites hrewrites]

theorem lastShown_run (setup : Setup) (ms : List Move) : LastShown (run (start setup) ms) := by
  unfold run
  suffices h : ∀ st, LastShown st → LastShown (ms.foldl record st) from
    h ([], start setup) fun hfresh => absurd hfresh (by simp [start, Registry.empty])
  intro st hst
  induction ms generalizing st with
  | nil => exact hst
  | cons m ms ih => exact ih (record st m) (lastShown_record hst m)

/-! ## The main statement -/

/-- **What a render returns, after any run.**  A render that rewrites returns the rules of all
entries in order and leaves the registry fresh; one that does not returns the text returned last;
and a render returns what a forced one would, if the registry is stale or nothing new was restored
since some render rewrote the text. -/
theorem render_run (setup : Setup) (ms : List Move) :
    let texts := (run (start setup) ms).1
    let s := (run (start setup) ms).2
    (∀ force, s.Rewrites force →
      (s.render force).1 =
        s.registry.entries.flatMap (Entry.rule setup.vocabulary.marker setup.host.rules) ∧
      (s.render force).2.registry.stale = false) ∧
    (∀ force, ¬ s.Rewrites force → texts.getLast? = some (s.render force).1) ∧
    (s.registry.stale = true ∨ (start setup).RewrittenSince ms →
      (s.render false).1 = (s.render true).1) := by
  intro texts s
  have hsetup : s.setup = setup := setup_run (start setup) ms
  refine ⟨?_, ?_, ?_⟩
  · intro force h
    rw [render_of_rewrites h, stylesheetOf, hsetup]
    exact ⟨rfl, rfl⟩
  · intro force h
    rw [render_of_not_rewrites h]
    exact lastShown_run setup ms (fresh_of_not_rewrites h)
  · rintro (hstale | hsince)
    · exact render_eq_of_current fun hfresh => absurd hstale (by simp [hfresh])
    · exact render_eq_of_current (current_of_rewrittenSince hsince)

/-- A template scanned twice, with a render between and an empty cache read: the second scan finds
nothing new, so the next render returns the text of the first. -/
theorem render_run_scanned_twice :
    let task : ScanTask := .source "<template><i xe-m='10'></i></template>"
    let ms : List Move := [.scan task, .render false, .loadCache (.memory none), .scan task]
    let s := (run (start (.standard {})) ms).2
    ((start (.standard {})).RewrittenSince ms ∧ (s.render false).1 = (s.render true).1) ∧
    (s.Rewrites true ∧ (s.render true).2.registry.stale = false) ∧
    (¬ s.Rewrites false ∧
      (run (start (.standard {})) ms).1.getLast? = some (s.render false).1) := by
  intro task ms s
  have hall := render_run (.standard {}) ms
  have hsince : (start (.standard {})).RewrittenSince ms := by
    refine ⟨[.scan task], false, [.loadCache (.memory none), .scan task], rfl, ?_, ?_⟩
    · decide +kernel
    · exact ⟨fun _ => rfl, nofun, trivial⟩
  have hkept : ¬ s.Rewrites false := by decide +kernel
  exact ⟨⟨hsince, hall.2.2 (Or.inr hsince)⟩, ⟨Or.inr rfl, (hall.1 true (Or.inr rfl)).2⟩,
    ⟨hkept, hall.2.1 false hkept⟩⟩

end AttributeCss.Session
