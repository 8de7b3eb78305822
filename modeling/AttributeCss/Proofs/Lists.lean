/-
Lists: members that are kept once, and members that are read.

Keys, sides of a box and sinks are all kept once, where they first occurred.
A list is followed from its front, so what one more member changes is said for
a member at the end (`eraseDups_concat_of_mem`, `eraseDups_concat_of_notMem`).

The members of a document and the letters of a side are read one by one, and
the list is read if each of them is (`mapM_eq_some_iff`).
-/
import Mathlib.Data.List.Forall2
import Mathlib.Data.List.Induction
import Mathlib.Data.List.Nodup

namespace AttributeCss

/-! ## Members that are kept once -/

section Repeats

variable {α : Type} [BEq α] [LawfulBEq α]

theorem eraseDups_concat_of_mem {l : List α} {a : α} (h : a ∈ l) :
    (l ++ [a]).eraseDups = l.eraseDups := by
  simp [List.eraseDups_append, List.removeAll, h]

theorem eraseDups_concat_of_notMem {l : List α} {a : α} (h : a ∉ l) :
    (l ++ [a]).eraseDups = l.eraseDups ++ [a] := by
  simp [List.eraseDups_append, List.removeAll, h, List.eraseDups_cons]

theorem eraseDups_of_nodup {l : List α} (h : l.Nodup) : l.eraseDups = l := by
  induction l using List.reverseRecOn with
  | nil => rfl
  | append_singleton l a ih =>
      have ha : a ∉ l := fun ha => List.disjoint_of_nodup_append h ha List.mem_cons_self
      rw [eraseDups_concat_of_notMem ha, ih h.of_append_left]

theorem eraseDups_map_of_injective {β : Type} [BEq β] [LawfulBEq β] {f : α → β}
    (hf : Function.Injective f) (l : List α) : (l.map f).eraseDups = l.eraseDups.map f := by
  induction l using List.reverseRecOn with
  | nil => rfl
  | append_singleton l a ih =>
      rw [List.map_append, List.map_singleton]
      by_cases ha : a ∈ l
      · rw [eraseDups_concat_of_mem ha, eraseDups_concat_of_mem (List.mem_map_of_mem ha), ih]
      · have hfa : f a ∉ l.map f := fun h => ha ((List.mem_map_of_injective hf).mp h)
        rw [eraseDups_concat_of_notMem ha, eraseDups_concat_of_notMem hfa, ih, List.map_append,
          List.map_singleton]

theorem pairwise_idxOf_eraseDups (l : List α) :
    l.eraseDups.Pairwise fun a b => l.idxOf a < l.idxOf b := by
  induction l using List.reverseRecOn with
  | nil => exact .nil
  | append_singleton l c ih =>
      -- what occurred before the last member keeps its place
      have hplace : ∀ a ∈ l.eraseDups, (l ++ [c]).idxOf a = l.idxOf a :=
        fun a ha => List.idxOf_append_of_mem (List.mem_eraseDups.mp ha)
      have hearlier : l.eraseDups.Pairwise fun a b => (l ++ [c]).idxOf a < (l ++ [c]).idxOf b := by
        refine ih.imp_of_mem ?_
        intro a b ha hb hlt
        rw [hplace a ha, hplace b hb]
        exact hlt
      by_cases hc : c ∈ l
      · rw [eraseDups_concat_of_mem hc]
        exact hearlier
      · rw [eraseDups_concat_of_notMem hc]
        refine List.pairwise_append.mpr ⟨hearlier, List.pairwise_singleton _ _, ?_⟩
        intro a ha b hb
        obtain rfl := List.mem_singleton.mp hb
        rw [hplace a ha, List.idxOf_append_of_notMem hc]
        exact Nat.lt_add_right _ (List.idxOf_lt_length_of_mem (List.mem_eraseDups.mp ha))

end Repeats

/-! ## Members that are read -/

variable {α β : Type} {f : α → Option β}

theorem mapM_eq_some_iff {l : List α} {r : List β} :
    l.mapM f = some r ↔ List.Forall₂ (fun a b => f a = some b) l r := by
  constructor
  · intro h
    induction l generalizing r with
    | nil =>
        obtain rfl : [] = r := Option.some.inj h
        exact .nil
    | cons a l ih =>
        rw [List.mapM_cons] at h
        obtain ⟨b, hb, hrest⟩ := Option.bind_eq_some_iff.mp h
        obtain ⟨rest, hl, hr⟩ := Option.bind_eq_some_iff.mp hrest
        obtain rfl : b :: rest = r := Option.some.inj hr
        exact .cons hb (ih hl)
  · intro h
    induction h with
    | nil => rfl
    | cons hab _ ih =>
        rw [List.mapM_cons, hab, ih]
        rfl

theorem exists_of_mem_mapM {l : List α} {r : List β} (h : l.mapM f = some r) {b : β}
    (hb : b ∈ r) : ∃ a ∈ l, f a = some b := by
  have hread := mapM_eq_some_iff.mp h
  clear h
  induction hread with
  | nil => cases hb
  | cons hac _ ih =>
      rcases List.mem_cons.mp hb with rfl | hmem
      · exact ⟨_, List.mem_cons_self, hac⟩
      · obtain ⟨a, ha, hab⟩ := ih hmem
        exact ⟨a, List.mem_cons_of_mem _ ha, hab⟩

end AttributeCss
