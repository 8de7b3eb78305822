/-
Places of a mark in a text.

A mark stands at `q` if the text goes on with it behind its first `q`
characters.  `throughLast?` cuts behind the last such place
(`throughLast?_eq_some_iff`).

A mark whose first character stands nowhere else in it cannot reach into
another mark.  So two texts that meet at one have no mark of their own across
the edge (`prefix_of_cons_prefix_append`, `throughLast?_append`).
-/
import Mathlib.Data.List.Infix
import AttributeCss.Text.Basic

namespace AttributeCss

namespace Text

variable {mark t : Text} {q : Nat}

/-! ## The last place of a mark -/

/-- The mark stands at `q` and at no later place. -/
def LastAt (mark t : Text) (q : Nat) : Prop :=
  mark <+: t.drop q ∧ ∀ q', mark <+: t.drop q' → q' ≤ q

theorem lastAt_drop {n : Nat} : LastAt mark (t.drop n) q ↔ LastAt mark t (n + q) := by
  simp only [LastAt, List.drop_drop]
  refine and_congr_right fun hq => ⟨fun h q' hq' => ?_, fun h q' hq' => ?_⟩
  · by_cases hn : n ≤ q'
    · obtain ⟨k, rfl⟩ := Nat.exists_eq_add_of_le hn
      exact Nat.add_le_add_left (h k hq') n
    · omega
  · exact Nat.le_of_add_le_add_left (h (n + q') hq')

theorem lastAt_cons_succ {c : Char} : LastAt mark (c :: t) (q + 1) ↔ LastAt mark t q := by
  rw [Nat.add_comm]
  exact (lastAt_drop (t := c :: t) (n := 1)).symm

theorem throughLast?_eq_none_iff (hmark : mark ≠ []) :
    throughLast? mark t = none ↔ ∀ q, ¬ mark <+: t.drop q := by
  induction t with
  | nil => simp [throughLast?, hmark]
  | cons c r ih =>
      rw [← Nat.and_forall_add_one]
      simp only [List.drop_zero, List.drop_succ_cons]
      rw [← ih, throughLast?]
      cases throughLast? mark r with
      | none => simp
      | some b => simp

theorem throughLast?_of_lastAt (hmark : mark ≠ []) (h : LastAt mark t q) :
    throughLast? mark t = some (t.take (q + mark.length)) := by
  induction t generalizing q with
  | nil => exact absurd (List.prefix_nil.mp (by simpa using h.1)) hmark
  | cons c r ih =>
      rw [throughLast?]
      cases q with
      | zero =>
          have hnone : throughLast? mark r = none :=
            (throughLast?_eq_none_iff hmark).mpr fun q hq => by
              have hle := h.2 (q + 1) hq
              omega
          have hprefix : mark <+: c :: r := h.1
          simp [hnone, hprefix, ← List.prefix_iff_eq_take.mp hprefix]
      | succ q => simp [ih (lastAt_cons_succ.mp h), Nat.add_right_comm q 1]

theorem exists_lastAt (hmark : mark ≠ []) (h : mark <+: t.drop q) : ∃ q, LastAt mark t q := by
  induction t generalizing q with
  | nil => exact absurd (List.prefix_nil.mp (by simpa using h)) hmark
  | cons c r ih =>
      by_cases hr : ∃ k, mark <+: r.drop k
      · obtain ⟨k, hk⟩ := hr
        obtain ⟨q, hq⟩ := ih hk
        exact ⟨q + 1, lastAt_cons_succ.mpr hq⟩
      · have hzero : ∀ k, mark <+: (c :: r).drop k → k = 0 := by
          rintro (_ | k) hk
          · rfl
          · exact absurd ⟨k, hk⟩ hr
        obtain rfl := hzero q h
        exact ⟨0, h, fun k hk => (hzero k hk).le⟩

theorem throughLast?_eq_some_iff (hmark : mark ≠ []) {b : Text} :
    throughLast? mark t = some b ↔ ∃ q, LastAt mark t q ∧ b = t.take (q + mark.length) := by
  constructor
  · intro h
    have hstands : ∃ q, mark <+: t.drop q := by
      by_contra hnone
      rw [(throughLast?_eq_none_iff hmark).mpr (not_exists.mp hnone)] at h
      cases h
    obtain ⟨k, hk⟩ := hstands
    obtain ⟨q, hq⟩ := exists_lastAt hmark hk
    exact ⟨q, hq, Option.some.inj (h.symm.trans (throughLast?_of_lastAt hmark hq))⟩
  · rintro ⟨q, hq, rfl⟩
    exact throughLast?_of_lastAt hmark hq

theorem drop_take_of_drop {source a b : Text} {p n : Nat} (h : a ++ b = source.drop p) :
    (source.take (p + a.length + n)).drop p = a ++ b.take n := by
  have hcount : p + a.length + n - p = a.length + n := by omega
  rw [List.drop_take, hcount, ← h, List.take_length_add_append]

/-! ## Marks do not reach over an edge -/

variable {c : Char} {m : Text}

theorem prefix_of_prefix_append (hc : c ∉ mark) {a b : Text} (h : mark <+: a ++ c :: b) :
    mark <+: a := by
  rcases List.prefix_or_prefix_of_prefix h (List.prefix_append a _) with h | ⟨u, rfl⟩
  · exact h
  · cases u with
    | nil => simp
    | cons d u =>
        rw [List.prefix_append_right_inj, List.cons_prefix_cons] at h
        exact absurd (by simp [h.1]) hc

/-- In front of a text that starts as the mark does, the mark ends before it. -/
theorem prefix_of_cons_prefix_append (hc : c ∉ m) {a b : Text} (ha : a ≠ [])
    (h : c :: m <+: a ++ c :: b) : c :: m <+: a := by
  obtain ⟨d, a, rfl⟩ := List.exists_cons_of_ne_nil ha
  rw [List.cons_append, List.cons_prefix_cons] at h
  exact List.cons_prefix_cons.mpr ⟨h.1, prefix_of_prefix_append hc h.2⟩

theorem throughLast?_append_eq_none {u after : Text} (hu : c ∉ u)
    (hafter : ¬ c :: m <:+: after) : throughLast? (c :: m) (u ++ after) = none := by
  induction u with
  | nil =>
      refine (throughLast?_eq_none_iff (List.cons_ne_nil c m)).mpr fun q hq => ?_
      exact hafter (hq.isInfix.trans (List.drop_suffix q after).isInfix)
  | cons d u ih =>
      obtain ⟨hd, hu⟩ := not_or.mp (List.mem_cons.not.mp hu)
      rw [List.cons_append, throughLast?, ih hu]
      simp [hd]

theorem throughLast?_append (hc : c ∉ m) (t : Text) {after : Text}
    (hafter : ¬ c :: m <:+: after) :
    throughLast? (c :: m) (t ++ (c :: m ++ after)) = some (t ++ c :: m) := by
  induction t with
  | nil =>
      have hnone := throughLast?_append_eq_none hc hafter
      simp [throughLast?, hnone]
  | cons d t ih =>
      rw [List.cons_append, throughLast?, ih]
      rfl

end Text

end AttributeCss
