/-
A registry that is fresh after an update was not changed by it.

Noting a key makes the registry stale unless the key already has all the
facets it is seen with.  Read backwards: where nothing became stale, nothing
was written, so the update gave back the very registry it was given.
-/
import AttributeCss.Registry

namespace AttributeCss

namespace OrderedMap

variable {β : Type}

theorem put_eq_self {k : Text} {f : Option β → β} {v : β} (hv : f (some v) = v) :
    ∀ {l : List (Text × β)}, find? k l = some v → put k f l = l
  | [], h => absurd h (by simp [find?])
  | (k', v') :: l, h => by
      by_cases hk : k' = k
      · have hvv : v' = v := by simpa [find?, hk] using h
        simp [put, hk, hvv, hv]
      · have hl : find? k l = some v := by simpa [find?, hk] using h
        simp [put, hk, put_eq_self hv hl]

theorem alter_eq_self {m : OrderedMap β} {k : Text} {f : Option β → β} {v : β}
    (hget : m.get? k = some v) (hv : f (some v) = v) : m.alter k f = m :=
  ext (put_eq_self hv hget)

end OrderedMap

namespace Registry

theorem note_eq_self {r : Registry} {k : Text} {f : Facets} (h : (r.note k f).stale = false) :
    r.note k f = r := by
  simp only [note, Bool.or_eq_false_iff, decide_eq_false_iff_not, ne_eq, Decidable.not_not] at h
  obtain ⟨-, hget⟩ := h
  have hmerged : merged f (some (merged f (r.get? k))) = merged f (r.get? k) := by
    simp only [merged, Option.getD_some, Facets.union_assoc, Facets.union_self]
  have hseen : r.seen.alter k (merged f) = r.seen := OrderedMap.alter_eq_self hget hmerged
  have hsame : decide (r.get? k ≠ some (merged f (r.get? k))) = false :=
    decide_eq_false fun hne => hne hget
  show (⟨r.vocabulary, r.seen.alter k (merged f), r.stale || _⟩ : Registry) = r
  rw [hseen, hsame, Bool.or_false]

/-- What holds of one step holds of many, since staleness is never taken back on the way: the last
step is undone first. -/
theorem foldl_eq_self {α : Type} {step : Nat × Registry → α → Nat × Registry}
    (hstep : ∀ st a, (step st a).2.stale = false → (step st a).2 = st.2) (l : List α)
    (st : Nat × Registry) (h : (l.foldl step st).2.stale = false) :
    (l.foldl step st).2 = st.2 := by
  induction l generalizing st with
  | nil => rfl
  | cons a l ih =>
      have hrest : (l.foldl step (step st a)).2 = (step st a).2 := ih (step st a) h
      rw [List.foldl_cons] at h ⊢
      rw [hrest] at h ⊢
      exact hstep st a h

theorem collect_eq_self {r : Registry} {name value : Text} {f : Facets}
    (h : (r.collect name value f).2.stale = false) : (r.collect name value f).2 = r :=
  foldl_eq_self (fun _ _ hnote => note_eq_self hnote) (valuesOf value f) (0, r) h

end Registry

end AttributeCss
