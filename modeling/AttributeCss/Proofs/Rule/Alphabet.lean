/-
The characters rules can read.

A piece takes characters of its sets and words only, so the set it is written
in bounds what it takes (`holds_of_mem_taken`).  All built-in patterns are
written in one small set and must take the whole token: a token with any other
character, a space above all, declares nothing.
-/
import Mathlib.Data.List.TakeWhile
import AttributeCss.Rule.Builtin
import AttributeCss.Proofs.Text.Words

namespace AttributeCss

/-- All characters of the item are in the set, by one item of the set. -/
def SetItem.within (set : CharSet) : SetItem → Bool
  | .one c => set.holds c
  | .range first last => set.any fun
      | .one _ => false
      | .range first' last' => first' ≤ first && last ≤ last'

/-- All sets and characters of the piece are within the set. -/
def Piece.within (set : CharSet) : Piece → Bool
  | .nothing => true
  | .char c => set.holds c
  | .oneOf s | .run s _ _ => s.all (SetItem.within set)
  | .seq a b | .alt a b => a.within set && b.within set
  | .opt a | .group a | .bare a => a.within set

namespace CharSet

variable {set : CharSet}

theorem holds_of_within_item {item : SetItem} (h : item.within set = true) {c : Char}
    (hc : item.holds c = true) : set.holds c = true := by
  cases item with
  | one d =>
      obtain rfl : c = d := by simpa [SetItem.holds] using hc
      exact h
  | range first last =>
      obtain ⟨item, hmem, hitem⟩ := List.any_eq_true.mp h
      cases item with
      | one d => cases hitem
      | range first' last' =>
          simp only [Bool.and_eq_true, decide_eq_true_eq] at hitem
          simp only [SetItem.holds, Bool.and_eq_true, decide_eq_true_eq] at hc
          refine List.any_eq_true.mpr ⟨_, hmem, ?_⟩
          simp only [SetItem.holds, Bool.and_eq_true, decide_eq_true_eq]
          exact ⟨Char.le_trans hitem.1 hc.1, Char.le_trans hc.2 hitem.2⟩

theorem holds_of_within {s : CharSet} (h : s.all (SetItem.within set) = true) {c : Char}
    (hc : s.holds c = true) : set.holds c = true := by
  obtain ⟨item, hmem, hitem⟩ := List.any_eq_true.mp hc
  exact holds_of_within_item (List.all_eq_true.mp h item hmem) hitem

end CharSet

namespace Piece

theorem holds_of_mem_runOf {s : CharSet} {most : Option Nat} {t : Text} {c : Char}
    (h : c ∈ runOf s most t) : s.holds c = true := by
  cases most with
  | none => exact List.mem_takeWhile_imp h
  | some n => exact List.mem_takeWhile_imp (List.mem_of_mem_take h)

/-! The readings of the pieces that take characters themselves. -/

variable {t : Text} {x : Reading}

theorem eq_of_mem_readings_char {c : Char} (h : x ∈ (char c).readings t) :
    ∃ r, t = c :: r ∧ x = ⟨[c], [], r⟩ := by
  cases t with
  | nil => cases h
  | cons d r =>
      simp only [readings] at h
      split at h
      · next hd => exact ⟨r, by rw [hd], hd ▸ List.mem_singleton.mp h⟩
      · cases h

theorem eq_of_mem_readings_oneOf {s : CharSet} (h : x ∈ (oneOf s).readings t) :
    ∃ c r, t = c :: r ∧ s.holds c = true ∧ x = ⟨[c], [], r⟩ := by
  cases t with
  | nil => cases h
  | cons d r =>
      simp only [readings] at h
      split at h
      · next hd => exact ⟨d, r, rfl, hd, List.mem_singleton.mp h⟩
      · cases h

theorem eq_of_mem_readings_run {s : CharSet} {least : Nat} {most : Option Nat}
    (h : x ∈ (run s least most).readings t) : least ≤ (runOf s most t).length ∧
      x = ⟨runOf s most t, [], t.drop (runOf s most t).length⟩ := by
  simp only [readings] at h
  split at h
  · next hleast => exact ⟨hleast, List.mem_singleton.mp h⟩
  · cases h

theorem exists_of_mem_readings_seq {a b : Piece} (h : x ∈ (seq a b).readings t) :
    ∃ y z, y ∈ a.readings t ∧ z ∈ b.readings y.rest ∧
      x = ⟨y.taken ++ z.taken, y.groups ++ z.groups, z.rest⟩ := by
  simp only [readings, List.mem_flatMap, List.mem_map] at h
  obtain ⟨y, hy, z, hz, rfl⟩ := h
  exact ⟨y, z, hy, hz, rfl⟩

theorem holds_of_mem_taken {set : CharSet} {p : Piece} (hp : p.within set = true)
    (h : x ∈ p.readings t) {c : Char} (hc : c ∈ x.taken) : set.holds c = true := by
  induction p generalizing t x with
  | nothing =>
      obtain rfl := List.mem_singleton.mp h
      cases hc
  | char d =>
      obtain ⟨r, -, rfl⟩ := eq_of_mem_readings_char h
      obtain rfl : c = d := List.mem_singleton.mp hc
      exact hp
  | oneOf s =>
      obtain ⟨d, r, -, hd, rfl⟩ := eq_of_mem_readings_oneOf h
      obtain rfl : c = d := List.mem_singleton.mp hc
      exact CharSet.holds_of_within hp hd
  | run s least most =>
      obtain ⟨-, rfl⟩ := eq_of_mem_readings_run h
      exact CharSet.holds_of_within hp (holds_of_mem_runOf hc)
  | seq a b iha ihb =>
      obtain ⟨ha, hb⟩ := (Bool.and_eq_true ..).mp hp
      obtain ⟨y, z, hy, hz, rfl⟩ := exists_of_mem_readings_seq h
      rcases List.mem_append.mp hc with hc | hc
      · exact iha ha hy hc
      · exact ihb hb hz hc
  | alt a b iha ihb =>
      obtain ⟨ha, hb⟩ := (Bool.and_eq_true ..).mp hp
      simp only [readings, List.mem_append, List.mem_map] at h
      rcases h with ⟨y, hy, rfl⟩ | ⟨y, hy, rfl⟩
      · exact iha ha hy hc
      · exact ihb hb hy hc
  | opt a ih =>
      rcases List.mem_append.mp h with h | h
      · exact ih hp h hc
      · obtain rfl := List.mem_singleton.mp h
        cases hc
  | group a ih =>
      obtain ⟨y, hy, rfl⟩ := List.mem_map.mp h
      exact ih hp hy hc
  | bare a ih => exact ih hp h hc

end Piece

/-- A pattern for whole tokens, written in the set. -/
def Pattern.Spells (set : CharSet) (p : Pattern) : Prop :=
  p.fromStart = true ∧ p.toEnd = true ∧ p.piece.within set = true

instance (set : CharSet) (p : Pattern) : Decidable (p.Spells set) :=
  inferInstanceAs (Decidable (_ ∧ _ ∧ _))

/-- A match from the start of the token is a reading of it; a match up to its end takes all of it. -/
theorem Pattern.exists_reading_of_match {p : Pattern} (hstart : p.fromStart = true) {token : Text}
    {m : Match} (h : p.match? token = some m) :
    ∃ x ∈ p.piece.readings token, m = ⟨x.taken, x.groups⟩ ∧
      (p.toEnd = true → x.taken = token) := by
  rw [match?, if_pos hstart, here?, Option.map_eq_some_iff] at h
  obtain ⟨x, hx, rfl⟩ := h
  have hmem : x ∈ p.piece.readings token := List.mem_of_find?_eq_some hx
  refine ⟨x, hmem, rfl, fun hend => ?_⟩
  have hrest : x.rest = [] := by simpa [hend] using List.find?_some hx
  have hsplit := Piece.taken_append_rest hmem
  rwa [hrest, List.append_nil] at hsplit

theorem Pattern.holds_of_match {set : CharSet} {p : Pattern} (hp : p.Spells set) {token : Text}
    {m : Match} (h : p.match? token = some m) {c : Char} (hc : c ∈ token) :
    set.holds c = true := by
  obtain ⟨hstart, hend, hwithin⟩ := hp
  obtain ⟨x, hx, -, htaken⟩ := exists_reading_of_match hstart h
  exact Piece.holds_of_mem_taken hwithin hx ((htaken hend).symm ▸ hc)

/-- A token some declarations are made for is spelled in the characters of the table. -/
theorem RuleTable.holds_of_declarations {set : CharSet} {table : RuleTable}
    (htable : ∀ rule ∈ table, rule.pattern.Spells set) {token : Text}
    (h : (table.apply token).declarations.isEmpty = false) {c : Char} (hc : c ∈ token) :
    set.holds c = true := by
  cases hclaim : table.claimants token with
  | nil =>
      rw [RuleTable.apply_eq_unmatched_of_claimants hclaim] at h
      cases h
  | cons rule others =>
      obtain ⟨m, hm, -⟩ := RuleTable.apply_eq_answer_of_claimants hclaim
      have hmem : rule ∈ table.claimants token := by simp [hclaim]
      exact Pattern.holds_of_match (htable rule (List.mem_filter.mp hmem).1) hm hc

namespace Rule

/-- The characters the built-in patterns are written in. -/
def alphabet : CharSet :=
  [.range 'a' 'z', .range '0' '9', .one '-', .one '/', .one '%', .one '~']

theorem builtin_spells : ∀ rule ∈ builtin, rule.pattern.Spells alphabet := by decide

theorem not_separates_of_declarations {token : Text}
    (h : (RuleTable.apply builtin token).declarations.isEmpty = false) :
    ∀ c ∈ token, Text.separates c = false :=
  fun _ hc =>
    Text.not_separates_of (p := alphabet.holds) (by decide)
      (RuleTable.holds_of_declarations builtin_spells h hc)

end Rule

end AttributeCss
