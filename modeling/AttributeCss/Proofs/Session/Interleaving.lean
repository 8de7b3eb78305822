/-
What overlapping renders return.

Two things are at stake when scans merge between the steps of a render.  No
update is lost: a scan that merges after the entries were copied makes the
registry stale again, so a fresh registry is always the one last copied, and
once that copy is stored the kept text is its stylesheet (`UpToDate`).  And
every render sees what was scanned before it was called: it copies the
entries, or finds them unchanged, only after those scans have ended
(`Progress`).
-/
import AttributeCss.Proofs.Session.Build
import AttributeCss.Proofs.Session.Rendering

namespace AttributeCss

def Event.Loads : Event → Prop
  | load _ => True
  | _ => False

/-- The event is the call of a render. -/
def Event.Calls : Event → Prop
  | call _ => True
  | _ => False

/-- No entries are restored once a render has been called. -/
def LoadsFirst (events : List Event) : Prop :=
  events.Pairwise fun e f => e.Calls → ¬ f.Loads

namespace Build

/-! ## No update is lost -/

/-- A fresh registry is the one last copied, and if that copy has been stored, the kept text is its
stylesheet. -/
structure UpToDate (b : Build) : Prop where
  copied : b.session.registry.stale = false →
    ∀ entries, .copied entries ∈ b.renders → entries = b.session.registry.entries
  kept : (∀ entries, .copied entries ∉ b.renders) → b.session.Current

theorem copied_mem_set_iff {renders : List RenderPhase} {i : Nat} {old new : RenderPhase}
    (hi : renders[i]? = some old) (hold : ∀ entries, old ≠ .copied entries)
    (hnew : ∀ entries, new ≠ .copied entries) (entries : List Entry) :
    .copied entries ∈ renders.set i new ↔ .copied entries ∈ renders := by
  constructor
  · intro hmem
    rcases List.mem_or_eq_of_mem_set hmem with hmem | heq
    · exact hmem
    · exact absurd heq.symm (hnew entries)
  · intro hmem
    obtain ⟨j, hj⟩ := List.mem_iff_getElem?.mp hmem
    have hij : i ≠ j := by
      rintro rfl
      exact hold entries (Option.some.inj (hi.symm.trans hj))
    exact List.mem_of_getElem? ((List.getElem?_set_ne hij).trans hj)

/-- Whoever holds the lock is the only one that may have copied. -/
theorem eq_of_copied_mem {renders : List RenderPhase} (h : OneHolder renders) {i : Nat}
    {old : RenderPhase} (hi : renders[i]? = some old) (hold : old.Holds) {entries : List Entry}
    (hmem : .copied entries ∈ renders) : old = .copied entries := by
  obtain ⟨j, hj⟩ := List.mem_iff_getElem?.mp hmem
  obtain rfl : i = j := h i j _ _ hi hj hold trivial
  exact Option.some.inj (hi.symm.trans hj)

theorem eq_of_copied_mem_set {renders : List RenderPhase} (h : OneHolder renders) {i : Nat}
    {old new : RenderPhase} (hi : renders[i]? = some old) (hold : old.Holds)
    {entries : List Entry} (hmem : .copied entries ∈ renders.set i new) :
    new = .copied entries := by
  obtain ⟨j, hj⟩ := List.mem_iff_getElem?.mp hmem
  rcases getElem?_set_cases hj with ⟨-, hnew⟩ | ⟨hij, hj⟩
  · exact hnew.symm
  · exact absurd (h i j _ _ hi hj hold trivial) hij

theorem upToDate_start (setup : Setup) : UpToDate (start setup) where
  copied _ _ hmem := absurd hmem List.not_mem_nil
  kept _ hfresh := Bool.noConfusion hfresh

theorem upToDate_set {b : Build} (hb : UpToDate b) {i : Nat} {old new : RenderPhase}
    (hi : b.renders[i]? = some old) (hold : ∀ entries, old ≠ .copied entries)
    (hnew : ∀ entries, new ≠ .copied entries) :
    UpToDate { b with renders := b.renders.set i new } where
  copied hfresh entries hmem :=
    hb.copied hfresh entries ((copied_mem_set_iff hi hold hnew entries).mp hmem)
  kept hnone :=
    hb.kept fun entries hmem => hnone entries ((copied_mem_set_iff hi hold hnew entries).mpr hmem)

theorem upToDate_work {b : Build} (hb : UpToDate b) (task : ScanTask) (scans : List ScanPhase) :
    UpToDate ⟨(b.session.work task).2, scans, b.renders⟩ where
  copied hfresh entries hmem := by
    have hsame := Session.work_eq_self hfresh
    have hfresh' : (b.session.work task).2.registry.stale = false := hfresh
    rw [hsame] at hfresh'
    show entries = (b.session.work task).2.registry.entries
    rw [hsame]
    exact hb.copied hfresh' entries hmem
  kept hnone := Session.current_work (hb.kept hnone) task

theorem upToDate_copy {b : Build} (ho : Ordered b) (hb : UpToDate b) {i : Nat} {force : Bool}
    (hi : b.renders[i]? = some (.locked force)) :
    UpToDate { b with
      session := (b.session.copy force).2
      renders := b.renders.set i (.ofCopy (b.session.copy force)) } := by
  by_cases h : b.session.Rewrites force
  · rw [Session.copy_of_rewrites h]
    refine ⟨?_, ?_⟩
    · intro _ entries hmem
      have hcopied := eq_of_copied_mem_set ho.holder hi trivial hmem
      exact (RenderPhase.copied.inj hcopied).symm
    · intro hnone
      refine absurd ?_ (hnone b.session.registry.entries)
      exact List.mem_set (List.getElem?_eq_some_iff.mp hi).1 _
  · rw [Session.copy_of_not_rewrites h]
    exact upToDate_set hb hi nofun nofun

theorem upToDate_store {b : Build} (ho : Ordered b) (hb : UpToDate b) {i : Nat}
    {entries : List Entry} (hi : b.renders[i]? = some (.copied entries)) :
    UpToDate { b with
      session := (b.session.store entries).2
      renders := b.renders.set i (.returned (b.session.store entries).1) } where
  copied _ entries' hmem := nomatch eq_of_copied_mem_set ho.holder hi trivial hmem
  kept _ hfresh := by
    show b.session.stylesheetOf entries = b.session.stylesheetOf b.session.registry.entries
    rw [hb.copied hfresh entries (List.mem_of_getElem? hi)]

theorem upToDate_step {b b' : Build} {e : Event} (h : Step b e b')
    (hload : e.Loads → b.renders = []) (ho : Ordered b) (hb : UpToDate b) : UpToDate b' := by
  cases h with
  | load snapshot =>
      -- the registry has been stale from the start, and stays so
      have hstale : (b.session.load snapshot).registry.stale = true := ho.stale (hload trivial)
      refine ⟨fun hfresh => ?_, fun _ hfresh => ?_⟩
      all_goals exact absurd (hstale.symm.trans hfresh) (by decide)
  | start task => exact ⟨hb.copied, hb.kept⟩
  | @work i task hi => exact upToDate_work hb task _
  | abort reason hi => exact ⟨hb.copied, hb.kept⟩
  | release hi => exact ⟨hb.copied, hb.kept⟩
  | call force =>
      have hmem : ∀ entries, .copied entries ∈ b.renders ++ [.waiting force] ↔
          .copied entries ∈ b.renders := by simp
      exact ⟨fun hfresh entries h => hb.copied hfresh entries ((hmem entries).mp h),
        fun hnone => hb.kept fun entries h => hnone entries ((hmem entries).mpr h)⟩
  | settle hi hidle => exact upToDate_set hb hi nofun nofun
  | lock hi hfree => exact upToDate_set hb hi nofun nofun
  | copy hi => exact upToDate_copy ho hb hi
  | store hi => exact upToDate_store ho hb hi

theorem called_of_renders {setup : Setup} {b : Build} {events : List Event}
    (h : Run (start setup) events b) (hne : b.renders ≠ []) : ∃ e ∈ events, e.Calls := by
  induction h with
  | nil => exact absurd rfl hne
  | @snoc events e b' b'' _ hstep ih =>
      by_cases hb' : b'.renders = []
      · cases hstep with
        | call force => exact ⟨.call force, by simp, trivial⟩
        | load | start | work | abort | release => exact absurd hb' hne
        | settle hi | lock hi | copy hi | store hi => simp [hb'] at hi
      · obtain ⟨e', he', hcalls⟩ := ih hb'
        exact ⟨e', by simp [he'], hcalls⟩

theorem upToDate_run {setup : Setup} {b : Build} {events : List Event}
    (h : Run (start setup) events b) (hfirst : LoadsFirst events) : UpToDate b := by
  induction h with
  | nil => exact upToDate_start setup
  | @snoc events e b' b'' hrun hstep ih =>
      obtain ⟨hbefore, -, hlast⟩ := List.pairwise_append.mp hfirst
      refine upToDate_step hstep ?_ (ordered_run hrun) (ih hbefore)
      intro hload
      by_contra hne
      obtain ⟨e', he', hcalls⟩ := called_of_renders hrun hne
      exact hlast e' he' e (by simp) hcalls hload

/-! ## A render sees what was scanned before it -/

/-- The build came through the state `m` while `events` made it `b` from `b₀`. -/
def Passed (b₀ : Build) (events : List Event) (b m : Build) : Prop :=
  ∃ first rest, events = first ++ rest ∧ Run b₀ first m ∧ Run m rest b

/-- In `m`, all scans started up to `b₀` have ended. -/
def AllEnded (b₀ m : Build) : Prop :=
  ∀ j < b₀.scans.length, ∃ phase, m.scans[j]? = some phase ∧ phase.Ended

/-- The entries are those of a moment in the render called from `b₀`, when all scans started up to
the call had ended. -/
def Served (b₀ : Build) (events : List Event) (b : Build) (entries : List Entry) : Prop :=
  ∃ m, Passed b₀ events b m ∧ b₀.renders.length < m.renders.length ∧ AllEnded b₀ m ∧
    m.session.registry.entries = entries

/-- What can be said of the render called from `b₀`, by how far it has come. -/
def Progress (b₀ : Build) (events : List Event) (b : Build) : RenderPhase → Prop
  | .waiting _ => True
  | .settled _ | .locked _ => AllEnded b₀ b
  | .copied entries => Served b₀ events b entries
  | .returned css =>
      ∃ entries, Served b₀ events b entries ∧ css = b₀.session.stylesheetOf entries

theorem served_snoc {b₀ b b' : Build} {events : List Event} {e : Event} (hstep : Step b e b')
    {entries : List Entry} (h : Served b₀ events b entries) :
    Served b₀ (events ++ [e]) b' entries := by
  obtain ⟨m, ⟨first, rest, rfl, hfirst, hrest⟩, hm⟩ := h
  exact ⟨m, ⟨first, rest ++ [e], by simp, hfirst, hrest.snoc hstep⟩, hm⟩

theorem progress_snoc {b₀ b b' : Build} {events : List Event} {e : Event} (hstep : Step b e b')
    {phase : RenderPhase} (h : Progress b₀ events b phase) :
    Progress b₀ (events ++ [e]) b' phase := by
  cases phase with
  | waiting force => trivial
  | settled force => exact fun j hj => ended_step hstep (h j hj)
  | locked force => exact fun j hj => ended_step hstep (h j hj)
  | copied entries => exact served_snoc hstep h
  | returned css =>
      obtain ⟨entries, hserved, hcss⟩ := h
      exact ⟨entries, served_snoc hstep hserved, hcss⟩

theorem scans_length_step {b b' : Build} {e : Event} (h : Step b e b') :
    b.scans.length ≤ b'.scans.length := by
  cases h with
  | start task => simp
  | work | abort | release => simp
  | load | call | settle | lock | copy | store => exact Nat.le_refl _

theorem scans_length_run {b b' : Build} {events : List Event} (h : Run b events b') :
    b.scans.length ≤ b'.scans.length := by
  induction h with
  | nil => exact Nat.le_refl _
  | snoc _ hstep ih => exact Nat.le_trans ih (scans_length_step hstep)

theorem allEnded_of_idle {b₀ b : Build} (ho : Ordered b) (hidle : b.session.pending = 0)
    (hlen : b₀.scans.length ≤ b.scans.length) : AllEnded b₀ b := by
  intro j hj
  have hlt : j < b.scans.length := Nat.lt_of_lt_of_le hj hlen
  refine ⟨b.scans[j], List.getElem?_eq_getElem hlt, ?_⟩
  have hnone := List.countP_eq_zero.mp (ho.pending.symm.trans hidle) b.scans[j]
    (List.getElem_mem hlt)
  cases hphase : b.scans[j] with
  | running task => simp [hphase, ScanPhase.isPending] at hnone
  | ended result => trivial
  | released result => trivial

theorem served_now {b₀ b b' : Build} {events : List Event} {e : Event} (h : Run b₀ events b)
    (hstep : Step b e b') (hcalled : b₀.renders.length < b.renders.length)
    (hended : AllEnded b₀ b) : Served b₀ (events ++ [e]) b' b.session.registry.entries :=
  ⟨b, ⟨events, [e], rfl, h, Run.nil.snoc hstep⟩, hcalled, hended, rfl⟩

theorem progress_copy {b₀ b : Build} {events : List Event} (h : Run b₀ events b)
    (ho : Ordered b) (hb : UpToDate b) {force : Bool}
    (hi : b.renders[b₀.renders.length]? = some (.locked force)) (hended : AllEnded b₀ b) :
    Progress b₀ (events ++ [.copy b₀.renders.length])
      { b with
        session := (b.session.copy force).2
        renders := b.renders.set b₀.renders.length (.ofCopy (b.session.copy force)) }
      (.ofCopy (b.session.copy force)) := by
  have hcalled : b₀.renders.length < b.renders.length := (List.getElem?_eq_some_iff.mp hi).1
  have hserved := served_now h (Step.copy hi) hcalled hended
  by_cases hrewrites : b.session.Rewrites force
  · rw [Session.copy_of_rewrites hrewrites] at hserved ⊢
    exact hserved
  · -- this render has the lock, so none is between its copy and its store
    have hcurrent : b.session.Current := hb.kept fun entries hmem =>
      nomatch eq_of_copied_mem ho.holder hi trivial hmem
    rw [Session.copy_of_not_rewrites hrewrites] at hserved ⊢
    refine ⟨_, hserved, ?_⟩
    rw [Session.stylesheetOf_congr (setup_run h).symm]
    exact hcurrent (Session.fresh_of_not_rewrites hrewrites)

theorem progress_step {b₀ b b' : Build} {events : List Event} {e : Event} (h : Run b₀ events b)
    (hstep : Step b e b') (ho : Ordered b) (hb : UpToDate b)
    (ih : ∀ phase, b.renders[b₀.renders.length]? = some phase → Progress b₀ events b phase) :
    ∀ phase, b'.renders[b₀.renders.length]? = some phase →
      Progress b₀ (events ++ [e]) b' phase := by
  intro phase hphase
  have hold : b.renders[b₀.renders.length]? = some phase →
      Progress b₀ (events ++ [e]) b' phase := fun h => progress_snoc hstep (ih phase h)
  cases hstep with
  | load | start | work | abort | release => exact hold hphase
  | call force =>
      rcases Nat.lt_or_ge b₀.renders.length b.renders.length with hlt | hge
      · exact hold (by rwa [List.getElem?_append_left hlt] at hphase)
      · rw [List.getElem?_append_right hge] at hphase
        obtain rfl : phase = .waiting force := by simpa using List.mem_of_getElem? hphase
        trivial
  | settle hi hidle =>
      rcases getElem?_set_cases hphase with ⟨rfl, rfl⟩ | ⟨-, hphase⟩
      · have hended : AllEnded b₀ b := allEnded_of_idle ho hidle (scans_length_run h)
        exact hended
      · exact hold hphase
  | lock hi hfree =>
      rcases getElem?_set_cases hphase with ⟨rfl, rfl⟩ | ⟨-, hphase⟩
      · exact ih _ hi
      · exact hold hphase
  | copy hi =>
      rcases getElem?_set_cases hphase with ⟨rfl, rfl⟩ | ⟨-, hphase⟩
      · exact progress_copy h ho hb hi (ih _ hi)
      · exact hold hphase
  | @store i entries hi =>
      rcases getElem?_set_cases hphase with ⟨rfl, rfl⟩ | ⟨-, hphase⟩
      · have hserved : Served b₀ events b entries := ih _ hi
        refine ⟨entries, served_snoc (Step.store hi) hserved, ?_⟩
        exact Session.stylesheetOf_congr (setup_run h) entries
      · exact hold hphase

theorem progress_run {setup : Setup} {before events : List Event} {b₀ b : Build}
    (hbefore : Run (start setup) before b₀) (h : Run b₀ events b)
    (hfirst : LoadsFirst (before ++ events)) :
    ∀ phase, b.renders[b₀.renders.length]? = some phase → Progress b₀ events b phase := by
  induction h with
  | nil => simp
  | @snoc events e b' b'' hrun hstep ih =>
      have hall : Run (start setup) (before ++ events) b' := run_append.mpr ⟨b₀, hbefore, hrun⟩
      rw [← List.append_assoc] at hfirst
      have hfirst' : LoadsFirst (before ++ events) := (List.pairwise_append.mp hfirst).1
      exact progress_step hrun hstep (ordered_run hall) (upToDate_run hall hfirst') (ih hfirst')

/-! ## The main statement -/

/-- **Overlapping scans and renders.**  Whatever the order of the steps, if no entries are restored
once a render has been called: the text a render returns is the stylesheet of the entries at a
moment of that render when all scans started before its call had ended; and where the registry is
fresh and no render is between its copy and its store, the kept text is the stylesheet of the
entries. -/
theorem stylesheet_interleaved (setup : Setup) (events : List Event) (b : Build)
    (h : Run (start setup) events b) (hfirst : LoadsFirst events) :
    (∀ before force during, events = before ++ .call force :: during →
      ∃ b₀, Run (start setup) before b₀ ∧ Run b₀ (.call force :: during) b ∧
        ∀ css, b.renders[b₀.renders.length]? = some (.returned css) →
          ∃ m, Passed b₀ (.call force :: during) b m ∧ b₀.renders.length < m.renders.length ∧
            AllEnded b₀ m ∧
            css = stylesheet setup.vocabulary.marker setup.host.rules
              m.session.registry.entries) ∧
    (b.session.registry.stale = false → (∀ entries, .copied entries ∉ b.renders) →
      b.session.css =
        stylesheet setup.vocabulary.marker setup.host.rules b.session.registry.entries) := by
  constructor
  · intro before force during hevents
    subst hevents
    obtain ⟨b₀, hbefore, hduring⟩ := run_append.mp h
    refine ⟨b₀, hbefore, hduring, ?_⟩
    intro css hcss
    obtain ⟨_, ⟨m, hpassed, hcalled, hended, rfl⟩, rfl⟩ :=
      progress_run hbefore hduring hfirst (.returned css) hcss
    refine ⟨m, hpassed, hcalled, hended, ?_⟩
    rw [Session.stylesheetOf, setup_run hbefore]
    rfl
  · intro hfresh hnone
    have hcurrent := (upToDate_run h hfirst).kept hnone hfresh
    rw [Session.stylesheetOf, setup_run h] at hcurrent
    exact hcurrent

/-- A scan that merges between the copy and the store of a render: the text returned is that of the
moment before, and the next render writes it anew. -/
theorem stylesheet_interleaved_late_merge :
    let before : List Event := [.start (.source "<template><i xe-m='10'></i></template>"), .work 0,
      .release 0]
    let during : List Event := [.settle 0, .start (.source "<template><i xe-p='8'></i></template>"),
      .lock 0, .copy 0, .work 1, .store 0, .release 1, .call false, .settle 1, .lock 1, .copy 1,
      .store 1]
    ∃ b₀ m b, Run (start (.standard {})) before b₀ ∧ Passed b₀ (.call false :: during) b m ∧
      AllEnded b₀ m ∧
      ("[xe-m=\"10\"] \x7b margin:10px!important; \x7d " : Text) =
        stylesheet "xe" Rule.builtin m.session.registry.entries ∧
      b.session.css = stylesheet "xe" Rule.builtin b.session.registry.entries := by
  intro before during
  have hafter : ((before ++ .call false :: during).foldlM next? (start (.standard {}))).any
      (fun b => b.renders[0]? = some (.returned "[xe-m=\"10\"] \x7b margin:10px!important; \x7d ") ∧
        b.session.registry.stale = false ∧ ∀ phase ∈ b.renders, ¬ phase.Holds) = true := by
    decide +kernel
  obtain ⟨b, hb, hend⟩ := (Option.any_eq_true ..).mp hafter
  obtain ⟨hcss, hfresh, hfree⟩ := of_decide_eq_true hend
  have hfirst : LoadsFirst (before ++ .call false :: during) := by
    simp [LoadsFirst, before, during, Event.Loads]
  have hall := stylesheet_interleaved (.standard {}) _ b (run_iff.mpr hb) hfirst
  obtain ⟨b₀, hbefore, -, hreturned⟩ := hall.1 before false during rfl
  have hb₀ : b₀.renders.length = 0 := by
    have hnone : (before.foldlM next? (start (.standard {}))).map (·.renders.length) = some 0 := by
      decide +kernel
    rw [run_iff.mp hbefore] at hnone
    exact Option.some.inj hnone
  rw [← hb₀] at hcss
  obtain ⟨m, hpassed, -, hended, htext⟩ := hreturned _ hcss
  refine ⟨b₀, m, b, hbefore, hpassed, hended, htext, ?_⟩
  exact hall.2 hfresh fun entries hmem => hfree _ hmem trivial

end Build

end AttributeCss
