/-
What the scans of a run have found, and the registry they leave.

As long as nothing is restored, the registry holds the contributions of the
occurrences found so far and nothing else, whatever renders and failed scans
lie between.  What can be said of an entry can therefore be read off the
occurrences, without following the registry through the run.
-/
import AttributeCss.Proofs.Markup.Scanned
import AttributeCss.Proofs.Registry.Coverage
import AttributeCss.Proofs.Session.Run

namespace AttributeCss

open Markup

/-- What an occurrence contributes to a registry. -/
def Occurrence.contributions (v : Vocabulary) (o : Occurrence) : Snapshot :=
  v.contributions o.name o.value o.facets

theorem Occurrence.mem_contributions {v : Vocabulary} {o : Occurrence} {k : Text} {f : Facets} :
    (k, f) ∈ o.contributions v ↔ ∃ w ∈ Registry.valuesOf o.value o.facets,
      k = Entry.keyOf o.name w ∧ f = o.facets ∪ v.valueFacets w := by
  simp only [contributions, Vocabulary.contributions, Registry.valuesOf, List.mem_map,
    Prod.mk.injEq, eq_comm]

namespace Setup

def found (u : Setup) (task : ScanTask) : List Occurrence :=
  ((u.template? task).map (Occurrence.ofNodes u.vocabulary)).getD []

/-- The occurrences found in a move. -/
def foundBy (u : Setup) : Session.Move → List Occurrence
  | .scan task => u.found task
  | .load _ | .loadCache _ | .persistCache _ | .render _ => []

/-- What is contributed in moves one after the other. -/
def contributed (u : Setup) (ms : List Session.Move) : Snapshot :=
  (ms.flatMap u.foundBy).flatMap (Occurrence.contributions u.vocabulary)

end Setup

namespace Session

theorem seen_foldl_mergeOne (found : List Occurrence) (st : Nat × Registry) :
    (found.foldl mergeOne st).2.vocabulary = st.2.vocabulary ∧
    (found.foldl mergeOne st).2.seen =
      (st.2.load (found.flatMap (Occurrence.contributions st.2.vocabulary))).seen := by
  induction found generalizing st with
  | nil => exact ⟨rfl, rfl⟩
  | cons o found ih =>
      obtain ⟨hvocabulary, hseen⟩ := ih (mergeOne st o)
      have hone : (mergeOne st o).2.vocabulary = st.2.vocabulary :=
        Registry.vocabulary_collect st.2 o.name o.value o.facets
      rw [hone] at hvocabulary hseen
      refine ⟨hvocabulary, ?_⟩
      rw [List.foldl_cons, hseen, List.flatMap_cons, Registry.load_append]
      exact Registry.load_seen_congr (Registry.seen_collect st.2 o.name o.value o.facets) _

theorem foldl_mergeOne_of_covers {found : List Occurrence} {st : Nat × Registry}
    (h : st.2.Covers (found.flatMap (Occurrence.contributions st.2.vocabulary))) :
    found.foldl mergeOne st = st := by
  apply foldl_eq_of_fixed
  intro o ho
  have hcovers : st.2.Covers (st.2.vocabulary.contributions o.name o.value o.facets) :=
    h.of_mem ho
  simp [mergeOne, Registry.collect_of_covers hcovers]

/-- A scan merges what it finds, which is nothing if it gets to no template. -/
theorem registry_scan (s : Session) (task : ScanTask) :
    (s.scan task).2.registry = ((s.setup.found task).foldl mergeOne (0, s.registry)).2 := by
  have hwork := registry_work s.enter task
  have hsetup : s.enter.setup = s.setup := rfl
  show (s.enter.work task).2.registry = _
  rw [hwork, Setup.found, hsetup]
  cases s.setup.template? task with
  | none => rfl
  | some nodes => rfl

/-- A move that restores nothing adds what is found in it, and nothing else. -/
theorem registry_move {s : Session} (hs : s.registry.vocabulary = s.setup.vocabulary) {m : Move}
    (hm : ¬ m.Restores) :
    (s.move m).registry.vocabulary = s.setup.vocabulary ∧
    (s.move m).registry.seen = (s.registry.load ((s.setup.foundBy m).flatMap
      (Occurrence.contributions s.setup.vocabulary))).seen := by
  cases m with
  | scan task =>
      obtain ⟨hvocabulary, hseen⟩ := seen_foldl_mergeOne (s.setup.found task) (0, s.registry)
      show (s.scan task).2.registry.vocabulary = _ ∧ (s.scan task).2.registry.seen = _
      rw [registry_scan, hvocabulary, hseen, hs]
      exact ⟨rfl, rfl⟩
  | load snapshot => exact absurd trivial hm
  | loadCache store => exact absurd trivial hm
  | persistCache store => exact ⟨hs, rfl⟩
  | render force =>
      show (s.render force).2.registry.vocabulary = _ ∧ (s.render force).2.registry.seen = _
      by_cases h : s.Rewrites force
      · rw [render_of_rewrites h]
        exact ⟨hs, rfl⟩
      · rw [render_of_not_rewrites h]
        exact ⟨hs, rfl⟩

theorem registry_moves {s : Session} (hs : s.registry.vocabulary = s.setup.vocabulary)
    {ms : List Move} (hms : ∀ m ∈ ms, ¬ m.Restores) :
    (run s ms).2.registry.vocabulary = s.setup.vocabulary ∧
    (run s ms).2.registry.seen = (s.registry.load (s.setup.contributed ms)).seen := by
  induction ms generalizing s with
  | nil => exact ⟨hs, rfl⟩
  | cons m ms ih =>
      obtain ⟨hvocabulary, hseen⟩ := registry_move hs (hms m List.mem_cons_self)
      -- the rest runs from the moved session, which has the same setup and vocabulary
      have hsetup := setup_move s m
      have hrest := ih (hvocabulary.trans (congrArg Setup.vocabulary hsetup).symm) fun m hm =>
        hms m (List.mem_cons_of_mem _ hm)
      rw [hsetup] at hrest
      rw [run_cons]
      refine ⟨hrest.1, hrest.2.trans ?_⟩
      rw [Registry.load_seen_congr hseen, ← Registry.load_append, Setup.contributed,
        ← List.flatMap_append]
      rfl

/-- What is seen for a key after a run that restores nothing: all facets contributed for it. -/
theorem get?_run {u : Setup} {ms : List Move} (hms : ∀ m ∈ ms, ¬ m.Restores) (k : Text) :
    (run (start u) ms).2.registry.get? k =
      if k ∈ (u.contributed ms).map Prod.fst then some ((u.contributed ms).facetsOf k)
      else none := by
  have hseen := (registry_moves (s := start u) rfl hms).2
  have hload := Registry.get?_load (Registry.empty u.vocabulary) (u.contributed ms) k
  have hnone : (Registry.empty u.vocabulary).get? k = none := rfl
  rw [hnone, Option.getD_none, Facets.none_union] at hload
  rw [← hload]
  exact congrArg (·.get? k) hseen

/-! ## Where contributions come from -/

theorem read_of_template? {u : Setup} (hread : u.host.readMarkup = MarkupResult.ofText)
    {task : ScanTask} {nodes : List Node} (h : u.template? task = some nodes) :
    ∃ source, read source = .ok nodes := by
  obtain ⟨text, -, htemplate⟩ := Option.bind_eq_some_iff.mp h
  obtain ⟨region, -, hregion⟩ := Option.bind_eq_some_iff.mp htemplate
  refine ⟨region, ?_⟩
  rw [hread, MarkupResult.ofText] at hregion
  cases hnodes : read region with
  | error e => simp [hnodes] at hregion
  | ok found => simpa [hnodes] using hregion

theorem exists_template_of_mem_found {u : Setup} {ms : List Move} {o : Occurrence}
    (h : o ∈ ms.flatMap u.foundBy) :
    ∃ task nodes, u.template? task = some nodes ∧ o ∈ Occurrence.ofNodes u.vocabulary nodes := by
  obtain ⟨m, -, hm⟩ := List.mem_flatMap.mp h
  cases m with
  | scan task =>
      replace hm : o ∈ u.found task := hm
      rw [Setup.found] at hm
      cases htemplate : u.template? task with
      | none => simp [htemplate] at hm
      | some nodes => exact ⟨task, nodes, htemplate, by simpa [htemplate] using hm⟩
  | load | loadCache | persistCache | render => cases hm

theorem of?_of_mem_found {u : Setup} {ms : List Move} {o : Occurrence}
    (h : o ∈ ms.flatMap u.foundBy) :
    Occurrence.of? u.vocabulary o.name o.value = some o := by
  obtain ⟨task, nodes, -, hnodes⟩ := exists_template_of_mem_found h
  rw [Occurrence.ofNodes_eq] at hnodes
  obtain ⟨attributes, -, hattributes⟩ := List.mem_flatMap.mp hnodes
  obtain ⟨a, -, name, value, -, hof⟩ := Occurrence.mem_ofAttributes.mp hattributes
  have ho := Occurrence.eq_of_of? hof
  rw [show o.name = name from congrArg Occurrence.name ho,
    show o.value = value from congrArg Occurrence.value ho]
  exact hof

/-- With the library's own reader, whatever is contributed comes from an occurrence under a name
without equals sign, for one of the values it is counted for. -/
theorem occurrence_of_mem_contributed {u : Setup}
    (hread : u.host.readMarkup = MarkupResult.ofText) {ms : List Move} {k : Text} {f : Facets}
    (h : (k, f) ∈ u.contributed ms) :
    ∃ o ∈ ms.flatMap u.foundBy, '=' ∉ o.name ∧
      ∃ w ∈ Registry.valuesOf o.value o.facets, k = Entry.keyOf o.name w ∧
        f = o.facets ∪ u.vocabulary.valueFacets w := by
  obtain ⟨o, ho, hcontributed⟩ := List.mem_flatMap.mp h
  obtain ⟨task, nodes, htemplate, hnodes⟩ := exists_template_of_mem_found ho
  obtain ⟨source, hsource⟩ := read_of_template? hread htemplate
  exact ⟨o, ho, Occurrence.notMem_name_of_read hsource hnodes,
    Occurrence.mem_contributions.mp hcontributed⟩

/-- A facet of an entry comes from an occurrence found under its name, which is counted for its
value, or from the value itself. -/
theorem exists_found_of_facet (facet : Facets → Bool) (hnone : facet .none = false)
    (hunion : ∀ f g, facet (f ∪ g) = (facet f || facet g)) {u : Setup}
    (hread : u.host.readMarkup = MarkupResult.ofText) {ms : List Move}
    (hms : ∀ m ∈ ms, ¬ m.Restores) {name w : Text} (hname : '=' ∉ name) {f : Facets}
    (hf : (run (start u) ms).2.registry.get? (Entry.keyOf name w) = some f)
    (hfacet : facet f = true) :
    ∃ o ∈ ms.flatMap u.foundBy, o.name = name ∧ w ∈ Registry.valuesOf o.value o.facets ∧
      (facet o.facets = true ∨ facet (u.vocabulary.valueFacets w) = true) := by
  rw [get?_run hms] at hf
  split at hf
  · obtain rfl := Option.some.inj hf
    obtain ⟨g, hmem, hg⟩ := (Snapshot.facetsOf_eq_true_iff facet hnone hunion).mp hfacet
    obtain ⟨o, ho, hnames, w', hw, hkey, rfl⟩ := occurrence_of_mem_contributed hread hmem
    -- the key was contributed by one occurrence or another, but under this name and value
    have hsplit := congrArg Entry.splitKey hkey
    rw [Entry.splitKey_keyOf w hname, Entry.splitKey_keyOf w' hnames] at hsplit
    obtain ⟨rfl, rfl⟩ := Prod.mk.inj hsplit
    rw [hunion, Bool.or_eq_true] at hg
    exact ⟨o, ho, rfl, hw, hg⟩
  · cases hf

end Session

end AttributeCss
