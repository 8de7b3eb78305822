/-
A source that was scanned can be scanned again at no cost.

What a scan finds in a source is settled by the source and the setup.  Once it
was merged the registry covers it, and the registry only grows, so it covers it
at every later point of the run, whatever is scanned, restored or rendered on
the way.  A later scan of the same source therefore merges nothing, and leaves
the session as it is.  The snapshot of such a registry carries all of this into
a session that restores it.
-/
import AttributeCss.Proofs.Session.Found

namespace AttributeCss

open Markup

/-- What a scan of a source text finds, unless it fails: nothing, if the text has no template and
needs none. -/
def Setup.foundIn? (u : Setup) (text : Text) : Option (List Occurrence) :=
  match region? text with
  | none => if u.options.requireTemplate then none else some []
  | some _ => (u.templateOf? text).map (Occurrence.ofNodes u.vocabulary)

namespace Setup

theorem vocabulary_eq {u u' : Setup} (h : u'.options = u.options) :
    u'.vocabulary = u.vocabulary := by
  have haccepted := u'.accepted
  rw [h, u.accepted] at haccepted
  exact (Except.ok.inj haccepted).symm

theorem foundIn?_congr {u u' : Setup} (hoptions : u'.options = u.options)
    (hread : u'.host.readMarkup = u.host.readMarkup) (text : Text) :
    u'.foundIn? text = u.foundIn? text := by
  simp only [foundIn?, templateOf?, hoptions, hread, vocabulary_eq hoptions]

end Setup

namespace Session

/-! ## What a successful scan does -/

theorem scanText_of_foundIn? {s : Session} {text : Text} {found : List Occurrence}
    (h : s.setup.foundIn? text = some found) (origin : Option Text) :
    s.scanText origin text = (.ok (s.merge found).1, (s.merge found).2) := by
  unfold Setup.foundIn? at h
  split at h
  · next hregion =>
      split at h
      · cases h
      · next hrequired =>
          obtain rfl := Option.some.inj h
          simp only [scanText, hregion, if_neg hrequired]
          rfl
  · obtain ⟨nodes, hnodes, rfl⟩ := Option.map_eq_some_iff.mp h
    exact scanText_of_template hnodes origin

theorem exists_foundIn?_of_scanText {s : Session} {text : Text} {origin : Option Text}
    {report : ScanReport} (h : (s.scanText origin text).1 = .ok report) :
    ∃ found, s.setup.foundIn? text = some found := by
  unfold scanText at h
  unfold Setup.foundIn?
  cases hregion : region? text with
  | none =>
      rw [hregion] at h
      dsimp only at h ⊢
      split at h
      · cases h
      · next hrequired => exact ⟨[], if_neg hrequired⟩
  | some region =>
      rw [hregion] at h
      dsimp only at h ⊢
      rw [Setup.templateOf?, hregion, Option.bind_some]
      cases hread : s.setup.host.readMarkup region with
      | tree nodes => exact ⟨_, rfl⟩
      | fault e => simp [hread] at h
      | crash => simp [hread] at h

theorem scan_eq {s : Session} {task : ScanTask} {text : Text}
    (htext : s.setup.text? task = some text) :
    s.scan task = ((s.enter.scanText task.origin? text).1,
      (s.enter.scanText task.origin? text).2.release) := by
  have hwork : s.enter.work task = s.enter.scanText task.origin? text := work_of_text htext
  rw [scan, finish, hwork]

theorem scan_of_foundIn? {s : Session} {task : ScanTask} {text : Text} {found : List Occurrence}
    (htext : s.setup.text? task = some text) (hfound : s.setup.foundIn? text = some found) :
    s.scan task = (.ok (s.merge found).1, (s.merge found).2) := by
  have hentered : s.enter.setup.foundIn? text = some found := hfound
  rw [scan_eq htext, scanText_of_foundIn? hentered]
  rfl

theorem exists_foundIn?_of_scan {s : Session} {task : ScanTask} {text : Text}
    {report : ScanReport} (htext : s.setup.text? task = some text)
    (h : (s.scan task).1 = .ok report) : ∃ found, s.setup.foundIn? text = some found := by
  rw [scan_eq htext] at h
  exact exists_foundIn?_of_scanText (s := s.enter) h

theorem covers_merge {s : Session} (hs : s.registry.vocabulary = s.setup.vocabulary)
    (found : List Occurrence) : (s.merge found).2.registry.Covers
      (found.flatMap (Occurrence.contributions s.setup.vocabulary)) := by
  have hseen := (seen_foldl_mergeOne found (0, s.registry)).2
  rw [hs] at hseen
  exact (Registry.covers_congr hseen).mpr (Registry.covers_load_self _ _)

/-! ## What is covered stays covered -/

/-- Whatever a move does to the registry, restoring some entries does the same. -/
theorem exists_load_move {s : Session} (hs : s.registry.vocabulary = s.setup.vocabulary)
    (m : Move) : (s.move m).registry.vocabulary = s.setup.vocabulary ∧
      ∃ cs, (s.move m).registry.seen = (s.registry.load cs).seen := by
  have hother (h : ¬ m.Restores) : (s.move m).registry.vocabulary = s.setup.vocabulary ∧
      ∃ cs, (s.move m).registry.seen = (s.registry.load cs).seen :=
    ⟨(registry_move hs h).1, _, (registry_move hs h).2⟩
  cases m with
  | load snapshot => exact ⟨hs, snapshot, rfl⟩
  | loadCache store =>
      have hmove : s.move (.loadCache store) = (s.loadCache store).2 := rfl
      rw [hmove, loadCache]
      split
      · next snapshot _ => exact ⟨hs, snapshot, rfl⟩
      all_goals exact ⟨hs, [], rfl⟩
  | scan | persistCache | render => exact hother id

theorem exists_load_moves {s : Session} (hs : s.registry.vocabulary = s.setup.vocabulary)
    (ms : List Move) : (run s ms).2.registry.vocabulary = s.setup.vocabulary ∧
      ∃ cs, (run s ms).2.registry.seen = (s.registry.load cs).seen := by
  induction ms generalizing s with
  | nil => exact ⟨hs, [], rfl⟩
  | cons m ms ih =>
      obtain ⟨hvocabulary, cs, hseen⟩ := exists_load_move hs m
      have hsetup := setup_move s m
      obtain ⟨hlast, ds, hrest⟩ := ih (hvocabulary.trans (congrArg Setup.vocabulary hsetup).symm)
      rw [hsetup] at hlast
      rw [run_cons]
      refine ⟨hlast, cs ++ ds, hrest.trans ?_⟩
      rw [Registry.load_append]
      exact Registry.load_seen_congr hseen ds

theorem vocabulary_run (u : Setup) (ms : List Move) :
    (run (start u) ms).2.registry.vocabulary = u.vocabulary :=
  (exists_load_moves (s := start u) rfl ms).1

theorem vocabulary_setup_run (u : Setup) (ms : List Move) :
    (run (start u) ms).2.registry.vocabulary = (run (start u) ms).2.setup.vocabulary := by
  rw [vocabulary_run, setup_run]
  rfl

/-- What is covered after a move of a run is covered at every later point of the run. -/
theorem covers_run {u : Setup} {before : List Move} {m : Move} {cs : Snapshot}
    (h : ((run (start u) before).2.move m).registry.Covers cs) (after : List Move) :
    (run (start u) (before ++ m :: after)).2.registry.Covers cs := by
  have hmoved : (run (start u) (before ++ [m])).2 = (run (start u) before).2.move m := by
    rw [run_append]
    rfl
  have hvocabulary := vocabulary_setup_run u (before ++ [m])
  rw [hmoved] at hvocabulary
  obtain ⟨-, ds, hseen⟩ := exists_load_moves hvocabulary after
  rw [run_append, run_cons, Registry.covers_congr hseen]
  exact h.load ds

theorem exists_covered_of_scan {u : Setup} {before : List Move} {task : ScanTask} {text : Text}
    (htext : u.text? task = some text) {report : ScanReport}
    (hreport : ((run (start u) before).2.scan task).1 = .ok report) (after : List Move) :
    ∃ found, u.foundIn? text = some found ∧ report.occurrences = found.length ∧
      (run (start u) (before ++ .scan task :: after)).2.registry.Covers
        (found.flatMap (Occurrence.contributions u.vocabulary)) := by
  let s := (run (start u) before).2
  have hs : s.setup = u := setup_run (start u) before
  have htexts : s.setup.text? task = some text := hs.symm ▸ htext
  obtain ⟨found, hfound⟩ := exists_foundIn?_of_scan htexts hreport
  have hscan : s.scan task = (.ok (s.merge found).1, (s.merge found).2) :=
    scan_of_foundIn? htexts hfound
  have hmerged := covers_merge (vocabulary_setup_run u before) found
  rw [hs] at hfound hmerged
  refine ⟨found, hfound, ?_, covers_run ?_ after⟩
  · rw [hscan] at hreport
    exact congrArg ScanReport.occurrences (Except.ok.inj hreport).symm
  · show (s.scan task).2.registry.Covers _
    rw [hscan]
    exact hmerged

/-- A scan that finds nothing but what is covered adds nothing and changes nothing. -/
theorem scan_of_covers {u : Setup} {ms : List Move} {task : ScanTask} {text : Text}
    {found : List Occurrence} (htext : u.text? task = some text)
    (hfound : u.foundIn? text = some found)
    (hcovers : (run (start u) ms).2.registry.Covers
      (found.flatMap (Occurrence.contributions u.vocabulary))) :
    (run (start u) ms).2.scan task = (.ok ⟨found.length, 0⟩, (run (start u) ms).2) := by
  have hsetup : (run (start u) ms).2.setup = u := setup_run (start u) ms
  have hmerged : found.foldl mergeOne (0, (run (start u) ms).2.registry) =
      (0, (run (start u) ms).2.registry) := by
    apply foldl_mergeOne_of_covers
    rw [vocabulary_run]
    exact hcovers
  rw [scan_of_foundIn? (hsetup.symm ▸ htext) (hsetup.symm ▸ hfound), merge, hmerged]

/-! ## The main statement -/

/-- **Rescanning is free.**  Take a run in which a source was scanned with success, whatever else was
scanned, restored and rendered before and after.  A scan of the same source at its end counts the
same occurrences and no new entry, and gives back the very session it was given.  The same holds in
any session with these options and this reader that has restored the snapshot of the run. -/
theorem scan_again (u : Setup) (before after : List Move) (first : ScanTask) (text : Text)
    (htext : u.text? first = some text) (report : ScanReport)
    (hreport : ((run (start u) before).2.scan first).1 = .ok report) :
    let s := (run (start u) (before ++ .scan first :: after)).2
    (∀ again, u.text? again = some text →
      s.scan again = (.ok ⟨report.occurrences, 0⟩, s)) ∧
    ∀ u' : Setup, u'.options = u.options → u'.host.readMarkup = u.host.readMarkup →
      ∀ early late again, u'.text? again = some text →
        let s' := (run (start u') (early ++ .load s.registry.snapshot :: late)).2
        s'.scan again = (.ok ⟨report.occurrences, 0⟩, s') := by
  intro s
  obtain ⟨found, hfound, hcount, hcovers⟩ := exists_covered_of_scan htext hreport after
  rw [hcount]
  refine ⟨fun again hagain => scan_of_covers hagain hfound hcovers, ?_⟩
  intro u' hoptions hread early late again hagain s'
  have hsnapshot : s'.registry.Covers s.registry.snapshot := by
    apply covers_run
    exact Registry.covers_load_self _ s.registry.snapshot
  refine scan_of_covers hagain ((Setup.foundIn?_congr hoptions hread text).trans hfound) ?_
  rw [Setup.vocabulary_eq hoptions]
  exact hsnapshot.of_snapshot hcovers

/-- A module that was scanned, with a render and a restored entry behind it, is scanned again as a
source; and so it is in a session that has no modules and has restored the snapshot. -/
theorem scan_again_restored :
    let text : Text := "<template><i xe='m-10 hover:p-4' xe-fc-red></i></template>"
    let u := Setup.standard { modules := some fun _ => .ok text }
    let after : List Move := [.render false, .load [("xe=m-10", { appended := true })]]
    let s := (run (start u) (.scan (.named "App") :: after)).2
    let s' := (run (start (.standard {})) [.load s.registry.snapshot, .render true]).2
    ((start u).scan (.named "App")).1 = .ok ⟨2, 3⟩ ∧
      s.scan (.source text) = (.ok ⟨2, 0⟩, s) ∧ s'.scan (.source text) = (.ok ⟨2, 0⟩, s') := by
  intro text u after s s'
  have hreport : ((run (start u) []).2.scan (.named "App")).1 = .ok ⟨2, 3⟩ := by decide +kernel
  have hall := scan_again u [] after (.named "App") text rfl ⟨2, 3⟩ hreport
  exact ⟨hreport, hall.1 (.source text) rfl,
    hall.2 (.standard {}) rfl rfl [] [.render true] (.source text) rfl⟩

end Session

end AttributeCss
