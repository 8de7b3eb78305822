/-
What a registry has already, and when it becomes stale.

A registry covers contributions that would tell it nothing new: each of their
keys is there, with all the facets contributed for it.  Covered contributions
leave it as it is, and whatever was contributed once is covered from then on,
since the registry only grows.  That makes the flag exact: recording an
occurrence raises it just when the occurrence is not covered, which is just
when the entries change.
-/
import AttributeCss.Proofs.Registry.Contribution
import AttributeCss.Proofs.Registry.Freshness

namespace AttributeCss

theorem Snapshot.facetsOf_union_of_mem {cs : Snapshot} {k : Text} {f : Facets}
    (h : (k, f) ∈ cs) : cs.facetsOf k ∪ f = cs.facetsOf k := by
  induction cs with
  | nil => cases h
  | cons p cs ih =>
      obtain ⟨k', g⟩ := p
      by_cases hk : k' = k
      · subst hk
        rw [facetsOf_cons_self]
        rcases List.mem_cons.mp h with heq | hmem
        · rw [(Prod.mk.inj heq).2, Facets.union_comm, ← Facets.union_assoc, Facets.union_self]
        · rw [Facets.union_assoc, ih hmem]
      · rw [facetsOf_cons_of_ne hk]
        rcases List.mem_cons.mp h with heq | hmem
        · exact absurd (Prod.mk.inj heq).1.symm hk
        · exact ih hmem

theorem foldl_eq_of_fixed {α β : Type} {step : α → β → α} {a : α} {l : List β}
    (h : ∀ b ∈ l, step a b = a) : l.foldl step a = a := by
  induction l with
  | nil => rfl
  | cons b l ih =>
      rw [List.foldl_cons, h b List.mem_cons_self]
      exact ih fun c hc => h c (List.mem_cons_of_mem _ hc)

namespace Registry

/-- The key is in the registry, with the facets among its own. -/
def Has (r : Registry) (k : Text) (f : Facets) : Prop := ∃ g, r.get? k = some g ∧ g ∪ f = g

/-- Each contributed key is in the registry, with all facets contributed for it. -/
def Covers (r : Registry) (cs : Snapshot) : Prop := ∀ k f, (k, f) ∈ cs → r.Has k f

variable {r r' : Registry} {cs ds : Snapshot}

theorem get?_congr (h : r.seen = r'.seen) (k : Text) : r.get? k = r'.get? k :=
  congrArg (·.get? k) h

theorem covers_congr (h : r.seen = r'.seen) : r.Covers cs ↔ r'.Covers cs := by
  simp only [Covers, Has, get?_congr h]

theorem Covers.of_mem {α : Type} {contributions : α → Snapshot} {l : List α}
    (h : r.Covers (l.flatMap contributions)) {a : α} (ha : a ∈ l) :
    r.Covers (contributions a) := by
  intro k f hmem
  exact h k f (List.mem_flatMap.mpr ⟨a, ha, hmem⟩)

/-! ## What was contributed is covered from then on -/

theorem covers_load_self (r : Registry) (cs : Snapshot) : (r.load cs).Covers cs := by
  intro k f hmem
  refine ⟨_, (get?_load r cs k).trans (if_pos (List.mem_map_of_mem hmem)), ?_⟩
  rw [Facets.union_assoc, Snapshot.facetsOf_union_of_mem hmem]

theorem Covers.load (h : r.Covers cs) (ds : Snapshot) : (r.load ds).Covers cs := by
  intro k f hmem
  obtain ⟨g, hget, hg⟩ := h k f hmem
  by_cases hk : k ∈ ds.map Prod.fst
  · refine ⟨g ∪ ds.facetsOf k, ?_, ?_⟩
    · rw [get?_load, if_pos hk, hget, Option.getD_some]
    · rw [Facets.union_assoc, Facets.union_comm _ f, ← Facets.union_assoc, hg]
  · exact ⟨g, by rw [get?_load, if_neg hk, hget], hg⟩

/-- A registry that covers all another one has covers what the other one covers. -/
theorem Covers.of_snapshot (hsnapshot : r'.Covers r.snapshot) (h : r.Covers cs) :
    r'.Covers cs := by
  intro k f hmem
  obtain ⟨g, hget, hg⟩ := h k f hmem
  obtain ⟨g', hget', hg'⟩ := hsnapshot k g (OrderedMap.mem_of_find? hget)
  refine ⟨g', hget', ?_⟩
  calc g' ∪ f = g' ∪ g ∪ f := by rw [hg']
    _ = g' ∪ (g ∪ f) := Facets.union_assoc g' g f
    _ = g' := by rw [hg, hg']

/-! ## What is covered leaves the registry as it is -/

theorem alter_of_has {k : Text} {f : Facets} (h : r.Has k f) :
    r.seen.alter k (merged f) = r.seen := by
  obtain ⟨g, hget, hg⟩ := h
  exact OrderedMap.alter_eq_self hget hg

theorem load_of_covers (h : r.Covers cs) : r.load cs = r := by
  have hseen : cs.foldl (fun m p => m.alter p.1 (merged p.2)) r.seen = r.seen :=
    foldl_eq_of_fixed fun p hp => alter_of_has (h p.1 p.2 hp)
  rw [load, hseen]

theorem note_of_has {k : Text} {f : Facets} (h : r.Has k f) : r.note k f = r := by
  have hseen := alter_of_has h
  obtain ⟨g, hget, hg⟩ := h
  have hsame : merged f (some g) = g := hg
  simp [note, hseen, hget, hsame]

theorem collect_of_covers {name value : Text} {f : Facets}
    (h : r.Covers (r.vocabulary.contributions name value f)) :
    r.collect name value f = (0, r) := by
  apply foldl_eq_of_fixed
  intro w hw
  have hhas := h _ _ (List.mem_map_of_mem hw)
  have hsome : (r.get? (Entry.keyOf name w)).isNone = false := by
    obtain ⟨g, hget, -⟩ := hhas
    rw [hget]
    rfl
  simp [noteValue, hsome, note_of_has hhas]

theorem covers_iff_seen_load : r.Covers cs ↔ (r.load cs).seen = r.seen :=
  ⟨fun h => congrArg seen (load_of_covers h), fun h => (covers_congr h).mp (covers_load_self r cs)⟩

theorem snapshot_inj : r.snapshot = r'.snapshot ↔ r.seen = r'.seen :=
  ⟨OrderedMap.ext, fun h => congrArg OrderedMap.toList h⟩

theorem snapshot_collect_eq_iff {name value : Text} {f : Facets} :
    (r.collect name value f).2.snapshot = r.snapshot ↔
      r.Covers (r.vocabulary.contributions name value f) := by
  rw [snapshot_inj, seen_collect, covers_iff_seen_load]

/-! ## The flag -/

/-- What adds contributions raises the flag just when they are not covered, if it does nothing to a
registry that covers them, and nothing to one that it leaves fresh. -/
theorem stale_iff_not_covers (hseen : r'.seen = (r.load cs).seen)
    (hfresh : r'.stale = false → r' = r) (hcovered : r.Covers cs → r' = r) :
    r'.stale = true ↔ r.stale = true ∨ ¬ r.Covers cs := by
  cases hstale : r'.stale with
  | false =>
      obtain rfl := hfresh hstale
      have hcovers : r'.Covers cs := covers_iff_seen_load.mpr hseen.symm
      simp [hstale, hcovers]
  | true =>
      simp only [true_iff]
      by_contra hnone
      obtain ⟨hbefore, hcovers⟩ := not_or.mp hnone
      rw [hcovered (not_not.mp hcovers)] at hstale
      exact hbefore hstale

/-- Recording an occurrence raises the flag just when it changes the entries. -/
theorem stale_collect (r : Registry) (name value : Text) (f : Facets) :
    (r.collect name value f).2.stale = true ↔
      r.stale = true ∨ (r.collect name value f).2.snapshot ≠ r.snapshot := by
  rw [ne_eq, snapshot_collect_eq_iff]
  apply stale_iff_not_covers (seen_collect r name value f) collect_eq_self
  intro hcovers
  rw [collect_of_covers hcovers]

theorem stale_update {u : Update} (hu : u ≠ .freshen) :
    (r.update u).stale = true ↔ r.stale = true ∨ ∃ name value f, u = .collect name value f ∧
      (r.collect name value f).2.snapshot ≠ r.snapshot := by
  cases u with
  | collect name value f =>
      refine (stale_collect r name value f).trans (or_congr_right ?_)
      constructor
      · intro hne
        exact ⟨name, value, f, rfl, hne⟩
      · rintro ⟨_, _, _, heq, hne⟩
        cases heq
        exact hne
  | load s =>
      constructor
      · exact Or.inl
      · rintro (hstale | ⟨_, _, _, heq, -⟩)
        · exact hstale
        · cases heq
  | freshen => exact absurd rfl hu

/-- Between two renders the flag is raised just when some occurrence changes the entries at its
turn; what is restored in between does not raise it. -/
theorem stale_updates (r : Registry) {us : List Update} (hus : Update.freshen ∉ us) :
    (r.updates us).stale = true ↔ r.stale = true ∨ ∃ before name value f after,
      us = before ++ .collect name value f :: after ∧
        ((r.updates before).collect name value f).2.snapshot ≠ (r.updates before).snapshot := by
  induction us generalizing r with
  | nil =>
      constructor
      · exact Or.inl
      · rintro (hstale | ⟨before, _, _, _, _, heq, -⟩)
        · exact hstale
        · exact absurd heq (by simp)
  | cons u us ih =>
      obtain ⟨hu, hrest⟩ := not_or.mp (mt List.mem_cons.mpr hus)
      have hstep := stale_update (r := r) (Ne.symm hu)
      show ((r.update u).updates us).stale = true ↔ _
      rw [ih (r.update u) hrest]
      constructor
      · rintro (hstale | ⟨before, name, value, f, after, rfl, hne⟩)
        · rcases hstep.mp hstale with hstale | ⟨name, value, f, rfl, hne⟩
          · exact Or.inl hstale
          · exact Or.inr ⟨[], name, value, f, us, rfl, hne⟩
        · exact Or.inr ⟨u :: before, name, value, f, after, rfl, hne⟩
      · rintro (hstale | ⟨before, name, value, f, after, heq, hne⟩)
        · exact Or.inl (hstep.mpr (Or.inl hstale))
        · cases before with
          | nil =>
              obtain ⟨rfl, rfl⟩ := List.cons.inj heq
              exact Or.inl (hstep.mpr (Or.inr ⟨name, value, f, rfl, hne⟩))
          | cons u' before =>
              obtain ⟨rfl, rfl⟩ := List.cons.inj heq
              exact Or.inr ⟨before, name, value, f, after, rfl, hne⟩

/-- Occurrences cannot undo each other: if they leave a fresh registry fresh, each of them left it
as it was. -/
theorem updates_eq_self {us : List Update} (hfreshen : Update.freshen ∉ us)
    (hload : ∀ s, Update.load s ∉ us) (h : (r.updates us).stale = false) : r.updates us = r := by
  induction us generalizing r with
  | nil => rfl
  | cons u us ih =>
      have hrest : (r.update u).updates us = r.update u :=
        ih (fun hmem => hfreshen (List.mem_cons_of_mem _ hmem))
          (fun s hmem => hload s (List.mem_cons_of_mem _ hmem)) h
      show (r.update u).updates us = r
      replace h : ((r.update u).updates us).stale = false := h
      rw [hrest] at h ⊢
      cases u with
      | collect name value f => exact collect_eq_self h
      | load s => exact absurd List.mem_cons_self (hload s)
      | freshen => exact absurd List.mem_cons_self hfreshen

theorem updates_of_covers {us : List Update} (hfreshen : Update.freshen ∉ us)
    (hload : ∀ s, Update.load s ∉ us)
    (h : r.Covers (us.flatMap (Update.contributions r.vocabulary))) : r.updates us = r := by
  apply foldl_eq_of_fixed
  intro u hu
  cases u with
  | collect name value f => exact congrArg Prod.snd (collect_of_covers (h.of_mem hu))
  | load s => exact absurd hu (hload s)
  | freshen => exact absurd hu hfreshen

/-- **The flag is exact.**  Take any registry whose flag was just taken back.  After further
occurrences and restored entries, in any order, it is stale just when some occurrence changed the
entries at its turn; and if nothing was restored, just when the entries differ from those it had
when the flag was taken back. -/
theorem stale_iff_changed (r : Registry) (us : List Update) (hus : Update.freshen ∉ us) :
    let marked := r.freshened
    let now := marked.updates us
    (now.stale = true ↔ ∃ before name value f after,
      us = before ++ .collect name value f :: after ∧
        ((marked.updates before).collect name value f).2.snapshot ≠
          (marked.updates before).snapshot) ∧
    ((∀ s, Update.load s ∉ us) → (now.stale = true ↔ now.snapshot ≠ marked.snapshot)) := by
  intro marked now
  have hmarked : marked.stale = false := rfl
  refine ⟨?_, ?_⟩
  · rw [stale_updates marked hus, hmarked]
    simp only [Bool.false_eq_true, false_or]
  · intro hload
    constructor
    · intro hstale hsame
      rw [snapshot_inj, seen_updates, ← covers_iff_seen_load] at hsame
      have hnow : now = marked := updates_of_covers hus hload hsame
      rw [hnow, hmarked] at hstale
      cases hstale
    · intro hne
      by_contra hfresh
      have hnow : now = marked := updates_eq_self hus hload (Bool.eq_false_iff.mpr hfresh)
      exact hne (congrArg snapshot hnow)

/-- An entry that was restored is found again with the facets it has, which changes nothing, though
it was not there at the mark; one that is found alone and then among others changes twice. -/
theorem stale_iff_changed_restored :
    let r := empty ⟨"xe", ["focus", "hover"], by decide, by decide⟩
    let marked := r.freshened
    let restored : Update := .load [("xe-m=10", { marked := true })]
    let alone : Update := .collect "xe-m" "10" { marked := true }
    let listed : Update := .collect "xe-m" "20 10" { marked := true, listed := true }
    (marked.updates [restored, alone]).snapshot ≠ marked.snapshot ∧
      (¬ ∃ before name value f after, [restored, alone] = before ++ .collect name value f :: after ∧
        ((marked.updates before).collect name value f).2.snapshot ≠
          (marked.updates before).snapshot) ∧
      (marked.updates [alone, listed]).stale = true := by
  intro r marked restored alone listed
  have hrestored := stale_iff_changed r [restored, alone] (by simp [restored, alone])
  have hfound := stale_iff_changed r [alone, listed] (by simp [alone, listed])
  refine ⟨by decide, ?_, ?_⟩
  · intro hchanged
    exact absurd (hrestored.1.mpr hchanged) (by decide)
  · exact (hfound.2 (by simp [alone, listed])).mpr (by decide)

end Registry

end AttributeCss
