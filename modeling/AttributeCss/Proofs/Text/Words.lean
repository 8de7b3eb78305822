/-
The words of a value, as the library and as a selector see them.

The library splits a value at space characters alone.  An attribute selector
for one of several values looks for words between any spaces of markup, tabs
and line breaks included.  The two agree on the words that hold no such space
(`mem_listedWords`).
-/
import AttributeCss.Text.Characters

namespace AttributeCss.Text

/-- What stands between the words of an attribute, to a selector: the spaces of markup and the form
feed. -/
def separates (c : Char) : Bool := isSpace c || c = '\x0c'

/-- The words of an attribute, to a selector. -/
def listedWords (t : Text) : List Text := (t.splitOnP separates).filter fun w => !w.isEmpty

/-- A class without the five characters that stand between words holds none of them. -/
theorem not_separates_of {p : Char → Bool}
    (hp : [' ', '\t', '\n', '\r', '\x0c'].any p = false) {c : Char} (hc : p c = true) :
    separates c = false := by
  cases hsep : separates c with
  | false => rfl
  | true =>
      simp only [separates, isSpace, Bool.or_eq_true, decide_eq_true_eq] at hsep
      rcases hsep with (((rfl | rfl) | rfl) | rfl) | rfl <;> simp [hc] at hp

/-! ## Pieces of a text -/

/-- A piece of a longer text is one of the shorter text, has one more character in front or is the
empty one in front of a mark. -/
theorem mem_splitOn_cons {x d : Char} {r w : Text} (h : w ∈ (d :: r).splitOn x) :
    w = [] ∨ w ∈ r.splitOn x ∨ d ≠ x ∧ ∃ u ∈ r.splitOn x, w = d :: u := by
  rw [List.splitOn_cons_eq_if_modifyHead] at h
  split at h
  · exact (List.mem_cons.mp h).imp_right Or.inl
  · next hne =>
      obtain ⟨a, as, ha⟩ := List.exists_cons_of_ne_nil (List.splitOn_ne_nil x r)
      rw [ha] at h ⊢
      rcases List.mem_cons.mp h with rfl | h
      · exact Or.inr (Or.inr ⟨by simpa using hne, a, List.mem_cons_self, rfl⟩)
      · exact Or.inr (Or.inl (List.mem_cons_of_mem _ h))

theorem mem_of_mem_splitOn {x : Char} {t w : Text} (h : w ∈ t.splitOn x) {c : Char} (hc : c ∈ w) :
    c ∈ t := by
  induction t generalizing w with
  | nil =>
      obtain rfl := List.mem_singleton.mp h
      cases hc
  | cons d r ih =>
      rcases mem_splitOn_cons h with rfl | hw | ⟨-, u, hu, rfl⟩
      · cases hc
      · exact List.mem_cons_of_mem _ (ih hw hc)
      · rcases List.mem_cons.mp hc with rfl | hc
        · exact List.mem_cons_self
        · exact List.mem_cons_of_mem _ (ih hu hc)

theorem notMem_of_mem_splitOn {x : Char} {t w : Text} (h : w ∈ t.splitOn x) : x ∉ w := by
  induction t generalizing w with
  | nil =>
      obtain rfl := List.mem_singleton.mp h
      exact List.not_mem_nil
  | cons d r ih =>
      rcases mem_splitOn_cons h with rfl | hw | ⟨hne, u, hu, rfl⟩
      · exact List.not_mem_nil
      · exact ih hw
      · rw [List.mem_cons, not_or]
        exact ⟨hne.symm, ih hu⟩

/-! ## Words at spaces -/

theorem words_eq (t : Text) : words t = (t.splitOnP (· == ' ')).filter fun w => !w.isEmpty := by
  rw [words, List.splitOn_eq_splitOnP]

theorem words_append_space (a b : Text) : words (a ++ ' ' :: b) = words a ++ words b := by
  rw [words, List.splitOn_append_cons_self, List.filter_append, words, words]

theorem words_of_no_space {t : Text} (h : ' ' ∉ t) (hne : t ≠ []) : words t = [t] := by
  rw [words, List.splitOn_eq_singleton h]
  simpa using hne

theorem ne_nil_of_mem_words {t w : Text} (h : w ∈ words t) : w ≠ [] := by
  rw [words, List.mem_filter] at h
  simpa using h.2

theorem space_notMem_of_mem_words {t w : Text} (h : w ∈ words t) : ' ' ∉ w :=
  notMem_of_mem_splitOn ((List.mem_filter.mp h).1)

/-! ## Words at more than spaces -/

/-- Splitting at more characters keeps the pieces that hold none of them.  The first piece is kept
first, or else a piece that begins further back in the text could not be followed to its start. -/
theorem splitOnP_of_imp {p q : Char → Bool} (hpq : ∀ c, p c = true → q c = true) (t : Text) :
    ∃ a as b bs, t.splitOnP p = a :: as ∧ t.splitOnP q = b :: bs ∧
      ((∀ c ∈ a, q c = false) → b = a) ∧ ∀ w ∈ as, (∀ c ∈ w, q c = false) → w ∈ bs := by
  induction t with
  | nil => exact ⟨[], [], [], [], rfl, rfl, fun _ => rfl, nofun⟩
  | cons c t ih =>
      obtain ⟨a, as, b, bs, ha, hb, hfirst, hothers⟩ := ih
      simp only [List.splitOnP_cons_eq_if_modifyHead, ha, hb]
      cases hp : p c with
      | true =>
          have hq : q c = true := hpq c hp
          refine ⟨[], a :: as, [], b :: bs, by simp, by simp [hq], fun _ => rfl, ?_⟩
          intro w hw hfree
          rcases List.mem_cons.mp hw with rfl | hw
          · exact List.mem_cons.mpr (Or.inl (hfirst hfree).symm)
          · exact List.mem_cons_of_mem _ (hothers w hw hfree)
      | false =>
          cases hq : q c with
          | true =>
              -- the first piece holds a character that only `q` splits at, and is lost
              refine ⟨c :: a, as, [], b :: bs, by simp, by simp, ?_, ?_⟩
              · intro hfree
                simp [hq] at hfree
              · intro w hw hfree
                exact List.mem_cons_of_mem _ (hothers w hw hfree)
          | false =>
              refine ⟨c :: a, as, c :: b, bs, by simp, by simp, ?_, hothers⟩
              intro hfree
              rw [hfirst fun d hd => hfree d (List.mem_cons_of_mem _ hd)]

theorem mem_listedWords {t w : Text} (h : w ∈ words t) (hw : ∀ c ∈ w, separates c = false) :
    w ∈ listedWords t := by
  have hne := ne_nil_of_mem_words h
  have hspace : ∀ c : Char, (c == ' ') = true → separates c = true := by
    intro c hc
    obtain rfl : c = ' ' := by simpa using hc
    decide
  obtain ⟨a, as, b, bs, ha, hb, hfirst, hothers⟩ := splitOnP_of_imp hspace t
  rw [words_eq, ha, List.mem_filter] at h
  rw [listedWords, hb, List.mem_filter]
  refine ⟨?_, by simpa using hne⟩
  rcases List.mem_cons.mp h.1 with rfl | hmem
  · exact List.mem_cons.mpr (Or.inl (hfirst hw).symm)
  · exact List.mem_cons_of_mem _ (hothers w hmem hw)

end AttributeCss.Text
