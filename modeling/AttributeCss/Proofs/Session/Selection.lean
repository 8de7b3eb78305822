/-
Selectors, and the elements whose attributes they were made for.

Whether an entry is selected by `=` or by `~=` depends on all occurrences of
its key, so a scan can change the selector of an entry that was there before.
It never loses an element by that.  An entry selected by `=` was never listed,
so its value is the whole value of every occurrence.  One selected by `~=` may
have been the whole value of an earlier occurrence; but an entry with a rule
has no space of any kind in its value, so it is a word of that value too.
-/
import AttributeCss.Proofs.Markup.Branched
import AttributeCss.Proofs.Session.Found
import AttributeCss.Proofs.Stylesheet.Token

namespace AttributeCss

open Markup

/-- The selector asks for an element that has `value` for the attribute `name`. -/
def Selector.Matches (s : Selector) (name value : Text) : Prop :=
  s.name = name ∧
    match s.value with
    | none => True
    | some (false, w) => value = w
    | some (true, w) => w ∈ Text.listedWords value

/-- `a.Shows name value`: an element with the attribute `a` can have `value` for `name` at run time.
A branch of a conditional expression is its value if there is no quote in it. -/
inductive Markup.Attribute.Shows : Attribute → Text → Text → Prop
  | static (name : Text) (value : Option Text) :
      Attribute.Shows (.static name value) name (value.getD [])
  | first {name expression a b : Text} {modifiers : List Text} :
      Ternary.find? expression = some (a, b) → (∀ c ∈ a, Ternary.isQuote c = false) →
      Attribute.Shows (.directive ⟨"bind", some name, modifiers, some expression⟩) name a
  | second {name expression a b : Text} {modifiers : List Text} :
      Ternary.find? expression = some (a, b) → (∀ c ∈ b, Ternary.isQuote c = false) →
      Attribute.Shows (.directive ⟨"bind", some name, modifiers, some expression⟩) name b

/-- No branch of the attribute's expression holds a quote. -/
def Markup.Attribute.Plain : Attribute → Prop
  | .static _ _ => True
  | .directive d => ∀ expression ∈ d.expression, ∀ a b, Ternary.find? expression = some (a, b) →
      (∀ c ∈ a, Ternary.isQuote c = false) ∧ ∀ c ∈ b, Ternary.isQuote c = false

namespace Occurrence

/-! ## What an element shows is among the values of the occurrence -/

theorem bound?_bind (name expression : Text) (modifiers : List Text) :
    bound? (.directive ⟨"bind", some name, modifiers, some expression⟩) =
      (Ternary.combined? expression).map fun value => (name, value) := rfl

/-- What an element shows is the value of the occurrence, or one side of it. -/
theorem eq_or_side_of_shows {a : Attribute} {name shown : Text} (h : a.Shows name shown)
    {n value : Text} (hfound : bound? a = some (n, value) ∨ static? a = some (n, value)) :
    n = name ∧ (value = shown ∨
      ∃ other, value = shown ++ ' ' :: other ∨ value = other ++ ' ' :: shown) := by
  cases h with
  | static name given =>
      rcases hfound with hfound | hfound
      · cases hfound
      · obtain ⟨rfl, rfl⟩ := Prod.mk.inj (Option.some.inj hfound)
        exact ⟨rfl, Or.inl rfl⟩
  | first hfind hplain =>
      rcases hfound with hfound | hfound
      · rw [bound?_bind, Ternary.combined?_of_find? hfind,
          Ternary.filter_quotes_of (Ternary.quotes_eq_zero.mpr hplain)] at hfound
        obtain ⟨rfl, rfl⟩ := Prod.mk.inj (Option.some.inj hfound)
        exact ⟨rfl, Or.inr ⟨_, Or.inl rfl⟩⟩
      · cases hfound
  | second hfind hplain =>
      rcases hfound with hfound | hfound
      · rw [bound?_bind, Ternary.combined?_of_find? hfind,
          Ternary.filter_quotes_of (Ternary.quotes_eq_zero.mpr hplain)] at hfound
        obtain ⟨rfl, rfl⟩ := Prod.mk.inj (Option.some.inj hfound)
        exact ⟨rfl, Or.inr ⟨_, Or.inr rfl⟩⟩
      · cases hfound

/-- The values counted for what an element shows are among those counted for its occurrence. -/
theorem valuesOf_subset {a : Attribute} {v : Vocabulary} {o : Occurrence}
    (ho : o ∈ ofAttributes v [a]) {name shown : Text} (h : a.Shows name shown) :
    o.name = name ∧
      Registry.valuesOf shown o.facets ⊆ Registry.valuesOf o.value o.facets := by
  obtain ⟨a', ha', n, value, hfound, hof⟩ := mem_ofAttributes.mp ho
  obtain rfl := List.mem_singleton.mp ha'
  obtain ⟨rfl, hvalue⟩ := eq_or_side_of_shows h hfound
  have hn : o.name = n := congrArg Occurrence.name (eq_of_of? hof)
  have ho : o.value = value := congrArg Occurrence.value (eq_of_of? hof)
  have hlisted := (facets_of_of? hof).1
  rw [ho]
  refine ⟨hn, ?_⟩
  rcases hvalue with rfl | ⟨other, hside⟩
  · exact List.Subset.refl _
  · have hspace : value.contains ' ' = true := by
      rcases hside with rfl | rfl <;> simp
    simp only [Registry.valuesOf, if_pos (hlisted.trans hspace)]
    rcases hside with rfl | rfl
    · rw [Text.words_append_space]
      exact List.subset_append_left _ _
    · rw [Text.words_append_space]
      exact List.subset_append_right _ _

/-- Where no quote gets lost, every value counted for an occurrence is counted for something an
element can show. -/
theorem exists_shows_of_mem_valuesOf {a : Attribute} {v : Vocabulary} {o : Occurrence}
    (ho : o ∈ ofAttributes v [a]) (hplain : a.Plain) {w : Text}
    (hw : w ∈ Registry.valuesOf o.value o.facets) :
    ∃ shown, a.Shows o.name shown ∧ w ∈ Registry.valuesOf shown o.facets := by
  obtain ⟨a', ha', n, value, hfound, hof⟩ := mem_ofAttributes.mp ho
  obtain rfl := List.mem_singleton.mp ha'
  have hn : o.name = n := congrArg Occurrence.name (eq_of_of? hof)
  have hvalue : o.value = value := congrArg Occurrence.value (eq_of_of? hof)
  have hlisted := (facets_of_of? hof).1
  rw [hn]
  rw [hvalue] at hw
  rcases hfound with hfound | hfound
  · obtain ⟨modifiers, expression, rfl, hcombined⟩ := eq_of_bound? hfound
    obtain ⟨⟨x, y⟩, hfind, -⟩ := Option.map_eq_some_iff.mp hcombined
    obtain ⟨hx, hy⟩ := hplain expression rfl x y hfind
    rw [Ternary.combined?_of_find? hfind,
      Ternary.filter_quotes_of (Ternary.quotes_eq_zero.mpr hx),
      Ternary.filter_quotes_of (Ternary.quotes_eq_zero.mpr hy)] at hcombined
    obtain rfl := Option.some.inj hcombined
    have hspace : (x ++ ' ' :: y).contains ' ' = true := by simp
    simp only [Registry.valuesOf, if_pos (hlisted.trans hspace)] at hw ⊢
    rw [Text.words_append_space] at hw
    rcases List.mem_append.mp hw with hw | hw
    · exact ⟨x, .first hfind hx, hw⟩
    · exact ⟨y, .second hfind hy, hw⟩
  · cases a' with
    | static name given =>
        obtain ⟨rfl, rfl⟩ := Prod.mk.inj (Option.some.inj hfound)
        exact ⟨_, .static name given, hw⟩
    | directive d => cases hfound

end Occurrence

/-! ## The selector of an entry -/

/-- An entry with a rule selects the elements that show a value it was counted for, if it is listed
wherever they list the value and has a pseudo-class only where its value starts with one. -/
theorem Selector.matches_of_rule {v : Vocabulary} {marker name w shown : Text} {f g : Facets}
    (hname : '=' ∉ name) (hw : w ∈ Registry.valuesOf shown g)
    (hlisted : g.listed = true → f.listed = true)
    (hpseudo : f.valuePseudo = true → v.startsWithPseudo w = true)
    (hrule : (Entry.of name w f).rule marker Rule.builtin ≠ []) (pseudo : Option Text) :
    (Selector.ofEntry (Entry.of name w f) pseudo).Matches name shown := by
  have hsplit : (Entry.of name w f).split = (name, w) := Entry.splitKey_keyOf w hname
  have hentry : (Entry.of name w f).name = name := congrArg Prod.fst hsplit
  have hvalue : (Entry.of name w f).value = w := congrArg Prod.snd hsplit
  have hfree : ∀ c ∈ w, Text.separates c = false := by
    have hfree := Entry.not_separates_of_rule (v := v) (by rw [hvalue]; exact hpseudo) hrule
    rwa [hvalue] at hfree
  unfold Matches ofEntry
  rw [hentry, hvalue]
  refine ⟨rfl, ?_⟩
  by_cases hempty : w = []
  · simp [hempty]
  · rw [if_neg (by simpa using hempty)]
    show match (some (f.listed, w) : Option (Bool × Text)) with
      | none => True
      | some (false, w) => shown = w
      | some (true, w) => w ∈ Text.listedWords shown
    cases hg : g.listed with
    | true =>
        rw [hlisted hg]
        rw [Registry.valuesOf, if_pos hg] at hw
        exact Text.mem_listedWords hw hfree
    | false =>
        rw [Registry.valuesOf, if_neg (by simp [hg])] at hw
        obtain rfl := List.mem_singleton.mp hw
        cases hf : f.listed with
        | false => rfl
        | true =>
            -- another occurrence lists the value; a value without spaces is its own only word
            have hspace : ' ' ∉ w := fun hmem => absurd (hfree ' ' hmem) (by decide)
            refine Text.mem_listedWords ?_ hfree
            rw [Text.words_of_no_space hspace hempty]
            exact List.mem_singleton_self w

/-! ## Entries after a run -/

namespace Session

/-- Every value an occurrence is counted for has its entry, and the entry is listed if the
occurrence is. -/
theorem get?_run_of_found {u : Setup} {ms : List Move} (hms : ∀ m ∈ ms, ¬ m.Restores)
    {o : Occurrence} (ho : o ∈ ms.flatMap u.foundBy) {w : Text}
    (hw : w ∈ Registry.valuesOf o.value o.facets) :
    ∃ f, (run (start u) ms).2.registry.get? (Entry.keyOf o.name w) = some f ∧
      (o.facets.listed = true → f.listed = true) := by
  have hmem : (Entry.keyOf o.name w, o.facets ∪ u.vocabulary.valueFacets w) ∈ u.contributed ms :=
    List.mem_flatMap.mpr ⟨o, ho, Occurrence.mem_contributions.mpr ⟨w, hw, rfl, rfl⟩⟩
  refine ⟨(u.contributed ms).facetsOf (Entry.keyOf o.name w), ?_, ?_⟩
  · rw [get?_run hms, if_pos (List.mem_map_of_mem hmem)]
  · intro hlisted
    refine (Snapshot.facetsOf_eq_true_iff Facets.listed rfl fun _ _ => rfl).mpr ?_
    refine ⟨_, hmem, ?_⟩
    show (o.facets.listed || _) = true
    rw [hlisted, Bool.true_or]

/-- An entry has a pseudo-class in its value only where the value starts with one. -/
theorem startsWithPseudo_of_get?_run {u : Setup}
    (hread : u.host.readMarkup = MarkupResult.ofText) {ms : List Move}
    (hms : ∀ m ∈ ms, ¬ m.Restores) {name w : Text} (hname : '=' ∉ name) {f : Facets}
    (hf : (run (start u) ms).2.registry.get? (Entry.keyOf name w) = some f)
    (hpseudo : f.valuePseudo = true) : u.vocabulary.startsWithPseudo w = true := by
  obtain ⟨o, ho, -, -, hfacet⟩ := exists_found_of_facet Facets.valuePseudo rfl (fun _ _ => rfl)
    hread hms hname hf hpseudo
  rw [(Occurrence.facets_of_of? (of?_of_mem_found ho)).2] at hfacet
  exact hfacet.resolve_left Bool.false_ne_true

/-- **Selectors are sound.**  Take an attribute of a scanned element and a value the element can show
for it.  After any further moves that restore nothing, every value counted for what is shown has an
entry, and if the entry has a rule, its selector matches the element; and where no quote gets lost,
these are all values counted for the attribute. -/
theorem selector_matches_shown (u : Setup) (hrules : u.host.rules = Rule.builtin)
    (hread : u.host.readMarkup = MarkupResult.ofText) (before after : List Move) (task : ScanTask)
    (hms : ∀ m ∈ before ++ .scan task :: after, ¬ m.Restores) (nodes : List Node)
    (htask : u.template? task = some nodes) (attributes : List Attribute)
    (hscanned : attributes ∈ scanned nodes) (a : Attribute) (ha : a ∈ attributes) (o : Occurrence)
    (ho : o ∈ Occurrence.ofAttributes u.vocabulary [a]) :
    let r := (run (start u) (before ++ .scan task :: after)).2.registry
    (∀ name shown, a.Shows name shown → ∀ w ∈ Registry.valuesOf shown o.facets,
      ∃ f, r.get? (Entry.keyOf name w) = some f ∧
        let e := Entry.of name w f
        (e.rule u.vocabulary.marker u.host.rules ≠ [] →
          (Selector.ofEntry e (Utility.ofEntry u.vocabulary.marker e).pseudo).Matches
            name shown)) ∧
    (a.Plain → ∀ w ∈ Registry.valuesOf o.value o.facets,
      ∃ shown, a.Shows o.name shown ∧ w ∈ Registry.valuesOf shown o.facets) := by
  intro r
  refine ⟨?_, fun hplain w hw => Occurrence.exists_shows_of_mem_valuesOf ho hplain hw⟩
  intro name shown hshows w hw
  obtain ⟨rfl, hsubset⟩ := Occurrence.valuesOf_subset ho hshows
  have hnodes : o ∈ Occurrence.ofNodes u.vocabulary nodes := by
    rw [Occurrence.ofNodes_eq]
    refine List.mem_flatMap.mpr ⟨attributes, hscanned, ?_⟩
    obtain ⟨a', ha', hrest⟩ := Occurrence.mem_ofAttributes.mp ho
    exact Occurrence.mem_ofAttributes.mpr ⟨a', List.mem_singleton.mp ha' ▸ ha, hrest⟩
  have hfound : o ∈ (before ++ .scan task :: after).flatMap u.foundBy := by
    refine List.mem_flatMap.mpr ⟨.scan task, by simp, ?_⟩
    show o ∈ u.found task
    rw [Setup.found, htask]
    exact hnodes
  obtain ⟨source, hsource⟩ := read_of_template? hread htask
  have hname : '=' ∉ o.name := Occurrence.notMem_name_of_read hsource hnodes
  obtain ⟨f, hf, hlisted⟩ := get?_run_of_found hms hfound (hsubset hw)
  refine ⟨f, hf, ?_⟩
  intro e hrule
  rw [hrules] at hrule
  exact Selector.matches_of_rule hname hw hlisted
    (startsWithPseudo_of_get?_run hread hms hname hf) hrule _

/-- A value that stood alone is listed by a later scan, and the selector of its entry changes: it
still matches the first element. -/
theorem selector_matches_shown_listed_later :
    let u := Setup.standard {}
    let task : ScanTask := .source "<template><i xe-m='10'></i></template>"
    let after : List Move := [.render false,
      .scan (.source "<template><i xe-m='10 20'></i></template>")]
    ∃ f, (run (start u) (.scan task :: after)).2.registry.get? "xe-m=10" = some f ∧
      f.listed = true ∧
      (Selector.ofEntry (Entry.of "xe-m" "10" f) none).Matches "xe-m" "10" := by
  intro u task after
  let a : Attribute := .static "xe-m" (some "10")
  have htemplate : (u.template? task).any (fun nodes => [a] ∈ scanned nodes) = true := by
    decide +kernel
  obtain ⟨nodes, htask, hscanned⟩ := (Option.any_eq_true ..).mp htemplate
  have hall := selector_matches_shown u rfl rfl [] after task (by simp [after, Move.Restores]) nodes
    htask [a] (of_decide_eq_true hscanned) a (by simp) ⟨"xe-m", "10", { marked := true }⟩
    (by decide +kernel)
  obtain ⟨f, hf, hmatches⟩ := hall.1 "xe-m" "10" (.static "xe-m" (some "10")) "10" (by decide)
  have hend : ((run (start u) (.scan task :: after)).2.registry.get? "xe-m=10").any
      (fun f => f.listed = true ∧ (Entry.of "xe-m" "10" f).rule "xe" Rule.builtin ≠ []) = true := by
    decide +kernel
  obtain ⟨f', hf', hend⟩ := (Option.any_eq_true ..).mp hend
  obtain ⟨hlisted, hrule⟩ := of_decide_eq_true hend
  obtain rfl : f = f' := Option.some.inj (hf.symm.trans hf')
  exact ⟨f, hf', hlisted, hmatches hrule⟩

/-- The values of one branch concern the element that shows it only: an element that shows the other
branch may not be matched by their selectors. -/
theorem selector_not_matches_other_branch :
    let u := Setup.standard {}
    let task : ScanTask := .source "<template><i :xe-m=\"c ? '10' : '10 20'\"></i></template>"
    let a : Attribute := .directive ⟨"bind", some "xe-m", [], some "c ? '10' : '10 20'"⟩
    ∃ nodes o f, u.template? task = some nodes ∧ [a] ∈ scanned nodes ∧
      o ∈ Occurrence.ofAttributes u.vocabulary [a] ∧ a.Shows "xe-m" "10" ∧
      "20".toList ∈ Registry.valuesOf o.value o.facets ∧
      (run (start u) [.scan task]).2.registry.get? (Entry.keyOf "xe-m" "20") = some f ∧
      (Entry.of "xe-m" "20" f).rule u.vocabulary.marker u.host.rules ≠ [] ∧
      ∀ pseudo, ¬ (Selector.ofEntry (Entry.of "xe-m" "20" f) pseudo).Matches "xe-m" "10" := by
  intro u task a
  have htemplate : (u.template? task).any (fun nodes => [a] ∈ scanned nodes) = true := by
    decide +kernel
  obtain ⟨nodes, htask, hscanned⟩ := (Option.any_eq_true ..).mp htemplate
  have hentry : ((run (start u) [.scan task]).2.registry.get? (Entry.keyOf "xe-m" "20")).any
      (fun f => f.listed = true ∧ (Entry.of "xe-m" "20" f).rule "xe" Rule.builtin ≠ []) = true := by
    decide +kernel
  obtain ⟨f, hf, hend⟩ := (Option.any_eq_true ..).mp hentry
  obtain ⟨hlisted, hrule⟩ := of_decide_eq_true hend
  have hshows : a.Shows "xe-m" "10" :=
    .first (a := "10") (b := "10 20") (by decide +kernel)
      (by simp [Ternary.isQuote, Text.apostrophe, Text.quoteMark])
  refine ⟨nodes, ⟨"xe-m", "10 10 20", { marked := true, listed := true }⟩, f, htask,
    of_decide_eq_true hscanned, by decide +kernel, hshows, by decide +kernel, hf, hrule, ?_⟩
  intro pseudo hmatches
  have hword : "20".toList ∈ Text.listedWords "10" := by
    have hsecond := hmatches.2
    unfold Selector.ofEntry at hsecond
    rw [show (Entry.of "xe-m" "20" f).facets.listed = true from hlisted] at hsecond
    exact hsecond
  exact absurd hword (by decide +kernel)

end Session

end AttributeCss
