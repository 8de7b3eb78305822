/-
Trimming, told by what is left.

A text is blanks, what trimming leaves of it, and blanks, and what is left
neither starts nor ends with a blank.  There is only one way to cut a text like
that (`trimmed_iff`), so blanks put around a text do not count, and what is
left is not trimmed any further.
-/
import AttributeCss.Proofs.Text.Runs
import AttributeCss.Text.Characters

namespace AttributeCss.Text

/-- The text neither starts nor ends with a blank. -/
structure Tight (t : Text) : Prop where
  starts : Stops isBlank t
  ends : ∀ c ∈ t.getLast?, isBlank c = false

/-- `n` is what is left of `t` without the blanks around it. -/
structure Trimmed (t n : Text) : Prop where
  tight : Tight n
  around : ∃ a b, allBlank a = true ∧ allBlank b = true ∧ t = a ++ n ++ b

/-! ## The end -/

theorem trimEnd_eq_nil {t : Text} (h : allBlank t = true) : trimEnd t = [] := by
  induction t with
  | nil => rfl
  | cons c r ih =>
      rw [allBlank, List.all_cons, Bool.and_eq_true] at h
      simp only [trimEnd, ih h.2, h.1, if_true]

theorem trimEnd_append_blank (t : Text) {b : Text} (hb : allBlank b = true) :
    trimEnd (t ++ b) = trimEnd t := by
  induction t with
  | nil => exact trimEnd_eq_nil hb
  | cons c r ih => simp only [List.cons_append, trimEnd, ih]

theorem exists_append_trimEnd (t : Text) : ∃ b, allBlank b = true ∧ t = trimEnd t ++ b := by
  induction t with
  | nil => exact ⟨[], rfl, rfl⟩
  | cons c r ih =>
      obtain ⟨b, hb, hr⟩ := ih
      rw [trimEnd]
      split
      · next hnil =>
          rw [hnil, List.nil_append] at hr
          subst hr
          split
          · next hc =>
              refine ⟨c :: r, ?_, rfl⟩
              rw [allBlank, List.all_cons, hc]
              exact hb
          · exact ⟨r, hb, rfl⟩
      · exact ⟨b, hb, by rw [List.cons_append, ← hr]⟩

theorem ends_trimEnd (t : Text) : ∀ c ∈ (trimEnd t).getLast?, isBlank c = false := by
  induction t with
  | nil => nofun
  | cons d r ih =>
      intro c hc
      rw [trimEnd] at hc
      split at hc
      · split at hc
        · cases hc
        · next hd =>
            obtain rfl := Option.some.inj hc
            exact Bool.eq_false_iff.mpr hd
      · next hne =>
          rw [List.getLast?_cons_of_ne_nil hne] at hc
          exact ih c hc

theorem trimEnd_of_ends {t : Text} (h : ∀ c ∈ t.getLast?, isBlank c = false) : trimEnd t = t := by
  obtain ⟨b, hb, ht⟩ := exists_append_trimEnd t
  -- a last blank that was taken off would be the last of the text
  have hnone : b = [] := by
    rw [← List.getLast?_eq_none_iff, Option.eq_none_iff_forall_ne_some]
    intro c hc
    have hblank : isBlank c = true := List.all_eq_true.mp hb c (List.mem_of_getLast? hc)
    have hlast : t.getLast? = some c := by rw [ht, List.getLast?_append, hc]; rfl
    exact absurd (h c hlast) (by simp [hblank])
  rw [hnone, List.append_nil] at ht
  exact ht.symm

/-! ## Both ends -/

theorem trim_surrounded {a b : Text} (ha : allBlank a = true) (hb : allBlank b = true) (t : Text) :
    trim (a ++ t ++ b) = trim t := by
  have hblank : ∀ {u : Text}, allBlank u = true → u.dropWhile isBlank = [] := by
    intro u hu
    rw [← List.append_nil u]
    exact List.dropWhile_append_of_pos (List.all_eq_true.mp hu)
  rw [trim, trim, List.append_assoc, List.dropWhile_append_of_pos (List.all_eq_true.mp ha),
    List.dropWhile_append]
  split
  · next hempty => rw [hblank hb, List.isEmpty_iff.mp hempty]
  · exact trimEnd_append_blank _ hb

theorem trim_of_tight {t : Text} (h : Tight t) : trim t = t := by
  rw [trim, dropWhile_of_stops h.starts, trimEnd_of_ends h.ends]

theorem tight_trim (t : Text) : Tight (trim t) where
  starts := by
    intro c hc
    obtain ⟨b, -, ht⟩ := exists_append_trimEnd (t.dropWhile isBlank)
    -- what is taken off at the end is not in front of what is left
    apply stops_dropWhile t c
    rw [ht, ← trim, List.head?_append, hc]
    rfl
  ends := ends_trimEnd _

theorem trim_trim (t : Text) : trim (trim t) = trim t :=
  trim_of_tight (tight_trim t)

theorem trimmed_trim (t : Text) : Trimmed t (trim t) where
  tight := tight_trim t
  around := by
    obtain ⟨b, hb, ht⟩ := exists_append_trimEnd (t.dropWhile isBlank)
    refine ⟨t.takeWhile isBlank, b, List.all_takeWhile, hb, ?_⟩
    rw [List.append_assoc, trim, ← ht, List.takeWhile_append_dropWhile]

theorem trimmed_iff {t n : Text} : Trimmed t n ↔ trim t = n := by
  constructor
  · rintro ⟨htight, a, b, ha, hb, rfl⟩
    rw [trim_surrounded ha hb, trim_of_tight htight]
  · rintro rfl
    exact trimmed_trim t

end AttributeCss.Text
