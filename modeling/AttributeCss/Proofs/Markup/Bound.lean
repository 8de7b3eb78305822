/-
Attributes bound to a conditional expression.

Such an attribute declares with all values its expression has (`Ternary`), and
they are collected word by word.  A pair of values is recorded whatever its
condition looks like (`both_branches_recorded`).  But an empty value keeps the
other from being recorded (`recorded_iff_no_branch_empty`), and of a chain only
the end is (`chain_recorded_iff`).
-/
import AttributeCss.Occurrence
import AttributeCss.Proofs.Markup.Branched
import AttributeCss.Proofs.Registry.Contribution
import AttributeCss.Proofs.Text.Words

namespace AttributeCss

open Markup

/-- An attribute bound to an expression. -/
def Markup.Attribute.bound (name : Text) (modifiers : List Text) (expression : Text) : Attribute :=
  .directive ⟨"bind", some name, modifiers, some expression⟩

namespace Occurrence

open Ternary

/-- The occurrence of a name with a value. -/
def ofValue (v : Vocabulary) (name value : Text) : Occurrence :=
  ⟨name, value, v.nameFacets name ∪ v.occurrenceFacets name value⟩

variable {v : Vocabulary} {name : Text}

theorem listed_ofValue (a b : Text) : (ofValue v name (a ++ ' ' :: b)).facets.listed = true := by
  simp [ofValue, Facets.union_def, Facets.join, Vocabulary.occurrenceFacets]

/-- A bound attribute declares once, with all values of its expression, or not at all. -/
theorem ofAttributes_bound (hname : (v.nameFacets name).isDeclaration = true)
    (modifiers : List Text) (expression : Text) :
    ofAttributes v [.bound name modifiers expression] =
      ((combined? expression).map (ofValue v name)).toList := by
  have hof (value : Text) : of? v name value = some (ofValue v name value) := if_pos hname
  have hbound : bound? (.bound name modifiers expression) =
      (combined? expression).map fun value => (name, value) := rfl
  have hstatic : static? (.bound name modifiers expression) = none := rfl
  cases hvalue : combined? expression with
  | none => simp [ofAttributes, hbound, hstatic, hvalue]
  | some value => simp [ofAttributes, hbound, hstatic, hvalue, hof]

/-- What an attribute declares is put between what others of its element do. -/
theorem exists_ofAttributes_insert (v : Vocabulary) (before after : List Attribute)
    (a : Attribute) :
    ∃ others others', ofAttributes v (before ++ after) = others ++ others' ∧
      ofAttributes v (before ++ a :: after) = others ++ ofAttributes v [a] ++ others' := by
  let declared := List.filterMap fun p : Text × Text => of? v p.1 p.2
  have hsplit (attributes : List Attribute) : ofAttributes v attributes =
      declared (attributes.filterMap bound?) ++ declared (attributes.filterMap static?) :=
    List.filterMap_append
  have happend (x y : List (Text × Text)) : declared (x ++ y) = declared x ++ declared y :=
    List.filterMap_append
  have hcons (f : Attribute → Option (Text × Text)) (attributes : List Attribute) :
      (a :: attributes).filterMap f = [a].filterMap f ++ attributes.filterMap f :=
    List.filterMap_append (l := [a])
  simp only [hsplit, List.filterMap_append, hcons _ after, happend]
  cases a with
  | static n value =>
      have hbound : [Attribute.static n value].filterMap bound? = [] := rfl
      refine ⟨declared (before.filterMap bound?) ++ declared (after.filterMap bound?) ++
        declared (before.filterMap static?), declared (after.filterMap static?), by simp, ?_⟩
      simp [hbound, declared]
  | directive d =>
      have hstatic : [Attribute.directive d].filterMap static? = [] := rfl
      refine ⟨declared (before.filterMap bound?), declared (after.filterMap bound?) ++
        (declared (before.filterMap static?) ++ declared (after.filterMap static?)), by simp, ?_⟩
      simp [hstatic, declared]

/-! ## A pair of values -/

/-- **Both values of a conditional expression are recorded.**  Take any condition on one line,
whatever quotes and marks are in it, any blanks around the marks, and any two values without quotes
that are not empty.  An attribute bound to the expression adds to what the others of its element
declare exactly one occurrence, listed, with both values; and recording it creates or updates
exactly the entries of their words, each with the facets of the occurrence and of the word. -/
theorem both_branches_recorded (v : Vocabulary) (name : Text)
    (hname : (v.nameFacets name).isDeclaration = true) (modifiers : List Text) (a : Arm)
    (last : Literal) (hvalue : a.value.text ≠ []) (hlast : last.text ≠ [])
    (before after : List Attribute) (r : Registry) :
    let o := ofValue v name (a.value.text ++ ' ' :: last.text)
    let words := Text.words a.value.text ++ Text.words last.text
    let recorded := (r.collect o.name o.value o.facets).2
    o.facets.listed = true ∧
    (∃ others others', ofAttributes v (before ++ after) = others ++ others' ∧
      ofAttributes v (before ++ .bound name modifiers (a.write ++ last.write) :: after) =
        others ++ o :: others') ∧
    recorded.seen.keys = (r.seen.keys ++ words.map (Entry.keyOf name)).eraseDups ∧
    (∀ w ∈ words, recorded.get? (Entry.keyOf name w) =
      some ((r.get? (Entry.keyOf name w)).getD .none ∪ (o.facets ∪ r.vocabulary.valueFacets w))) ∧
    ∀ k, (∀ w ∈ words, k ≠ Entry.keyOf name w) → recorded.get? k = r.get? k := by
  intro o words recorded
  have hlisted : o.facets.listed = true := listed_ofValue _ _
  have hcounted : Registry.valuesOf o.value o.facets = words := by
    rw [Registry.valuesOf, if_pos hlisted]
    exact Text.words_append_space _ _
  have hcombined : combined? (a.write ++ last.write) = some o.value :=
    combined?_arm List.not_mem_nil hvalue hlast
  have hdeclared : ofAttributes v [.bound name modifiers (a.write ++ last.write)] = [o] := by
    rw [ofAttributes_bound hname, hcombined]
    rfl
  refine ⟨hlisted, ?_, ?_, fun w hw => ?_, fun k hk => ?_⟩
  · obtain ⟨others, others', hothers, hall⟩ := exists_ofAttributes_insert v before after
      (.bound name modifiers (a.write ++ last.write))
    rw [hdeclared, List.append_assoc, List.singleton_append] at hall
    exact ⟨others, others', hothers, hall⟩
  · rw [← hcounted]
    exact Registry.keys_collect r o.name o.value o.facets
  · exact Registry.get?_collect_of_mem (hcounted ▸ hw)
  · exact Registry.get?_collect_of_notMem (hcounted ▸ hk)

/-- The condition has quotes and marks of its own, the values have marks, and the expression is
broken into lines. -/
theorem both_branches_recorded_marks_inside :
    let v : Vocabulary := ⟨"xe", ["focus", "hover"], by decide, by decide⟩
    let expression : Text := "k == 'a ? b' : c\n? \"red? x\" :\t'4:5'"
    let o := ofValue v "xe-fc" "red? x 4:5"
    o ∈ ofAttributes v [.static "xe-p" (some "1"), .bound "xe-fc" [] expression] ∧
    ((Registry.empty v).collect o.name o.value o.facets).2.seen.keys =
      ["xe-fc=red?".toList, "xe-fc=x".toList, "xe-fc=4:5".toList] := by
  intro v expression o
  let a : Arm :=
    { condition := "k == 'a ? b' : c"
      condition_ne := by decide
      condition_line := by decide
      beforeMark := ⟨['\n'], by decide⟩
      afterMark := ⟨[' '], by decide⟩
      value := ⟨Text.quoteMark, "red? x", Text.quoteMark, rfl, rfl, by decide, by decide⟩
      beforeColon := ⟨[' '], by decide⟩
      afterColon := ⟨['\t'], by decide⟩ }
  let last : Literal := .plain "4:5" (by decide) (by decide)
  have hwritten : a.write ++ last.write = expression := by decide +kernel
  obtain ⟨-, ⟨others, others', -, hall⟩, hkeys, -⟩ :=
    both_branches_recorded v "xe-fc" (by decide) [] a last (by decide) (by decide)
      [.static "xe-p" (some "1")] [] (.empty v)
  rw [hwritten, List.singleton_append] at hall
  refine ⟨?_, hkeys.trans (by decide +kernel)⟩
  rw [hall]
  exact List.mem_append_right _ List.mem_cons_self

/-! ## An empty value -/

/-- **An empty value keeps the other from being recorded.**  Where condition and values are free of
quotes and marks, an attribute bound to the expression declares nothing if one of the values is
empty; the words of both values are recorded just if neither is. -/
theorem recorded_iff_no_branch_empty (v : Vocabulary) (name : Text)
    (hname : (v.nameFacets name).isDeclaration = true) (modifiers : List Text) (a : Arm)
    (ha : a.Bare) (last : Literal) :
    let found := ofAttributes v [.bound name modifiers (a.write ++ last.write)]
    (found = if a.value.text = [] ∨ last.text = [] then []
      else [ofValue v name (a.value.text ++ ' ' :: last.text)]) ∧
    ((∃ o ∈ found, Text.words o.value = Text.words a.value.text ++ Text.words last.text) ↔
      a.value.text ≠ [] ∧ last.text ≠ []) := by
  intro found
  have hfound : found = if a.value.text = [] ∨ last.text = [] then []
      else [ofValue v name (a.value.text ++ ' ' :: last.text)] := by
    show ofAttributes v _ = _
    rw [ofAttributes_bound hname, combined?_pair ha last]
    split <;> rfl
  refine ⟨hfound, ?_⟩
  rw [hfound]
  split
  · next hempty => simpa [or_iff_not_imp_left] using hempty
  · next hnone =>
      have hwords : Text.words (ofValue v name (a.value.text ++ ' ' :: last.text)).value =
          Text.words a.value.text ++ Text.words last.text := Text.words_append_space _ _
      simpa [hwords] using not_or.mp hnone

/-- A switch between words and nothing declares nothing. -/
theorem recorded_iff_no_branch_empty_switch :
    let v : Vocabulary := ⟨"xe", ["focus", "hover"], by decide, by decide⟩
    ofAttributes v [.bound "xe" [] "on ? 'm-1 p-2' : ''"] = [] := by
  intro v
  let a : Arm := .spaced "on" (by decide) (by decide) (.plain "m-1 p-2" (by decide) (by decide))
  let last : Literal := .plain "" (by decide) (by decide)
  have hwritten : a.write ++ last.write = "on ? 'm-1 p-2' : ''" := by decide +kernel
  obtain ⟨hfound, -⟩ := recorded_iff_no_branch_empty v "xe" (by decide) [] a (by decide) last
  rw [hwritten] at hfound
  exact hfound.trans (if_pos (Or.inr rfl))

/-- The words under the condition are not recorded where the other value is empty, in either
place. -/
theorem not_recorded_beside_empty :
    let v : Vocabulary := ⟨"xe", ["focus", "hover"], by decide, by decide⟩
    ∀ expression ∈ ["c ? '10' : ''".toList, "c ? '' : '10'".toList],
      ¬ ∃ o ∈ ofAttributes v [.bound "xe-m" [] expression],
        Text.words o.value = Text.words "10" := by
  decide +kernel

/-! ## Chains -/

/-- **Of a chain only the end is recorded.**  Where conditions and values are free of quotes and
marks and each arm is on one line, an attribute bound to a chain of at least three values declares
nothing if the last value is empty.  Otherwise it declares with the last value and the one before
it; or, if that is empty, with what stands between the value before and the last arm.  So either
nothing or the words of all values are recorded just if the last value is empty, or if the words
of the earlier values stand at the end as well. -/
theorem chain_recorded_iff (v : Vocabulary) (name : Text)
    (hname : (v.nameFacets name).isDeclaration = true) (modifiers : List Text) (front : List Arm)
    (a b : Arm) (harms : ∀ arm ∈ front ++ [a, b], arm.Bare ∧ arm.OneLine) (last : Literal) :
    let found := ofAttributes v [.bound name modifiers (written (front ++ [a, b]) last)]
    let values := (front ++ [a, b]).map (fun arm => arm.value.text) ++ [last.text]
    let kept := if b.value.text = [] then a.span b else b.value.text
    (found = if last.text = [] then [] else [ofValue v name (kept ++ ' ' :: last.text)]) ∧
    ((found = [] ∨ ∃ o ∈ found, ∀ value ∈ values, Text.words value ⊆ Text.words o.value) ↔
      last.text = [] ∨ ∀ arm ∈ front ++ [a],
        Text.words arm.value.text ⊆ Text.words kept ++ Text.words last.text) := by
  intro found values kept
  have hfound : found = if last.text = [] then []
      else [ofValue v name (kept ++ ' ' :: last.text)] := by
    show ofAttributes v _ = _
    rw [ofAttributes_bound hname, combined?_written harms]
    split <;> rfl
  refine ⟨hfound, ?_⟩
  rw [hfound]
  split
  · next hlast => simp [hlast]
  · next hlast =>
      have hwords : Text.words (ofValue v name (kept ++ ' ' :: last.text)).value =
          Text.words kept ++ Text.words last.text := Text.words_append_space _ _
      have hkept : Text.words b.value.text ⊆ Text.words kept := by
        by_cases hempty : b.value.text = []
        · rw [hempty]
          exact List.nil_subset _
        · exact (if_neg hempty : kept = b.value.text) ▸ List.Subset.refl _
      simp only [List.cons_ne_nil, false_or, List.mem_singleton, exists_eq_left, hwords, hlast]
      constructor
      · intro h arm harm
        refine h arm.value.text (List.mem_append_left _ (List.mem_map_of_mem ?_))
        rw [List.append_cons]
        exact List.mem_append_left _ harm
      · intro h value hvalue
        rcases List.mem_append.mp hvalue with hvalue | hvalue
        · obtain ⟨arm, harm, rfl⟩ := List.mem_map.mp hvalue
          rw [List.append_cons] at harm
          rcases List.mem_append.mp harm with harm | harm
          · exact h arm harm
          · rw [List.mem_singleton.mp harm]
            exact List.Subset.trans hkept (List.subset_append_left _ _)
        · rw [List.mem_singleton.mp hvalue]
          exact List.subset_append_right _ _

/-- Four values, of which the third is empty and the first stands at the end again: those of the
second and fourth are found, and with them all there are. -/
theorem chain_recorded_iff_empty_third :
    let v : Vocabulary := ⟨"xe", ["focus", "hover"], by decide, by decide⟩
    let found := ofAttributes v [.bound "xe-m" [] "a ? '1' : b ? '2' : c ? '' : '4 1'"]
    found = [ofValue v "xe-m" "2 : c ?  4 1"] ∧
      ∃ o ∈ found, ∀ value ∈ ["1".toList, "2".toList, [], "4 1".toList],
        Text.words value ⊆ Text.words o.value := by
  intro v found
  let arm (condition : Text) (h : condition ≠ [] ∧ '\n' ∉ condition) (value : Literal) : Arm :=
    .spaced condition h.1 h.2 value
  let first := arm "a" (by decide) (.plain "1" (by decide) (by decide))
  let second := arm "b" (by decide) (.plain "2" (by decide) (by decide))
  let third := arm "c" (by decide) (.plain "" (by decide) (by decide))
  let last : Literal := .plain "4 1" (by decide) (by decide)
  have hwritten : written ([first] ++ [second, third]) last =
      "a ? '1' : b ? '2' : c ? '' : '4 1'" := by decide +kernel
  have hchain := chain_recorded_iff v "xe-m" (by decide) [] [first] second third (by decide) last
  rw [hwritten] at hchain
  obtain ⟨hfound, hall⟩ := hchain
  refine ⟨hfound.trans (by decide +kernel), ?_⟩
  have hkept := hall.mpr (Or.inr (by decide +kernel))
  refine hkept.resolve_left fun hnone => ?_
  exact absurd (hfound.symm.trans hnone) (by decide +kernel)

/-- Of three values the last two are recorded. -/
theorem not_recorded_before_end :
    let v : Vocabulary := ⟨"xe", ["focus", "hover"], by decide, by decide⟩
    let found := ofAttributes v [.bound "xe-m" [] "a ? '1' : b ? '2' : '3'"]
    ¬ (found = [] ∨ ∃ o ∈ found, ∀ value ∈ ["1".toList, "2".toList, "3".toList],
      Text.words value ⊆ Text.words o.value) := by
  decide +kernel

end Occurrence

end AttributeCss
