/-
Quoted values, and the quotes it takes to read them.

The reader of conditional expressions takes as much of a line as it can, three
times over.  What keeps it from going too far are the quotes that are left: a
quoted value has two (`exists_behind_of_quoted?`), so there must be two behind
the colon of an expression and four behind its question mark.

A value then ends where the rest can be read, if there are not quotes enough to
read it further on (`quoted?_append`), and an expression starts where its line
does and reaches to the last question mark that has values behind it
(`find?_of_mark`).
-/
import AttributeCss.Markup.Ternary
import AttributeCss.Proofs.Text.Runs

namespace AttributeCss.Markup.Ternary

/-! ## Quotes -/

theorem eq_of_isQuote {c : Char} (h : isQuote c = true) :
    c = Text.apostrophe ∨ c = Text.quoteMark := by
  simpa [isQuote] using h

theorem not_blank_of_isQuote {c : Char} (h : isQuote c = true) : Text.isBlank c = false := by
  rcases eq_of_isQuote h with rfl | rfl <;> decide

theorem ne_of_isQuote {c d : Char} (h : isQuote c = true) (hd : isQuote d = false) : c ≠ d := by
  rintro rfl
  simp [h] at hd

/-- The number of quotes in a text. -/
def quotes (t : Text) : Nat := t.countP isQuote

@[simp] theorem quotes_append (a b : Text) : quotes (a ++ b) = quotes a + quotes b :=
  List.countP_append

theorem quotes_cons_of_isQuote {c : Char} (h : isQuote c = true) (r : Text) :
    quotes (c :: r) = quotes r + 1 := List.countP_cons_of_pos h

theorem quotes_cons_of_not {c : Char} (h : isQuote c = false) (r : Text) :
    quotes (c :: r) = quotes r := List.countP_cons_of_neg (by simp [h])

theorem quotes_eq_zero {t : Text} : quotes t = 0 ↔ ∀ c ∈ t, isQuote c = false := by
  simp [quotes, List.countP_eq_zero]

theorem quotes_le_of_suffix {s t : Text} (h : s <:+ t) : quotes s ≤ quotes t :=
  h.sublist.countP_le

/-! ## Stretches -/

section Stretch

variable {β : Type} {next : Text → Option β} {s t u r : Text} {found : β}

/-- A stretch ends where the rest can be read, unless it could be read behind a longer one. -/
theorem stretch_append (hne : t ≠ []) (hline : '\n' ∉ t) (hnext : next u = some found)
    (hstop : stretch next u = none) : stretch next (t ++ u) = some (t, found) := by
  induction t with
  | nil => exact absurd rfl hne
  | cons c r ih =>
      have hc : c ≠ '\n' := fun h => hline (h ▸ List.mem_cons_self)
      by_cases hr : r = []
      · subst hr
        simp [stretch, hc, hstop, hnext]
      · have hrest := ih hr fun h => hline (List.mem_cons_of_mem _ h)
        simp [stretch, hc, hrest]

theorem eq_of_stretch (h : stretch next s = some (t, found)) :
    ∃ u, s = t ++ u ∧ t ≠ [] ∧ next u = some found := by
  induction s generalizing t with
  | nil => cases h
  | cons c r ih =>
      rw [stretch] at h
      split at h
      · cases h
      · split at h
        · next t' found' hr =>
            obtain ⟨rfl, rfl⟩ := Prod.mk.inj (Option.some.inj h)
            obtain ⟨u, rfl, -, hu⟩ := ih hr
            exact ⟨u, rfl, List.cons_ne_nil _ _, hu⟩
        · obtain ⟨found', hnext, heq⟩ := Option.map_eq_some_iff.mp h
          obtain ⟨rfl, rfl⟩ := Prod.mk.inj heq
          exact ⟨r, rfl, List.cons_ne_nil _ _, hnext⟩

theorem stretch_cons_eq_none {c : Char} (h : ∀ u, u <:+ r → next u = none) :
    stretch next (c :: r) = none := by
  rw [Option.eq_none_iff_forall_ne_some]
  rintro ⟨t, found⟩ hfound
  obtain ⟨u, heq, hne, hu⟩ := eq_of_stretch hfound
  obtain ⟨d, t', rfl⟩ := List.exists_cons_of_ne_nil hne
  obtain ⟨-, rfl⟩ := List.cons.inj heq
  rw [h u (List.suffix_append t' u)] at hu
  cases hu

end Stretch

/-! ## Runs of blanks -/

/-- A run of blanks; it may hold line breaks, and it may be empty. -/
structure Blanks where
  text : Text
  blank : text.all Text.isBlank = true

namespace Blanks

variable (b : Blanks) {c : Char} {r : Text}

theorem isBlank_of_mem (h : c ∈ b.text) : Text.isBlank c = true := List.all_eq_true.mp b.blank c h

theorem notMem_text (h : Text.isBlank c = false) : c ∉ b.text :=
  fun hc => by simp [b.isBlank_of_mem hc] at h

theorem not_quote (h : c ∈ b.text) : isQuote c = false := by
  rw [Bool.eq_false_iff]
  exact fun hq => b.notMem_text (not_blank_of_isQuote hq) h

@[simp] theorem quotes_text : quotes b.text = 0 :=
  quotes_eq_zero.mpr fun _ hc => b.not_quote hc

theorem dropWhile_append (h : Text.isBlank c = false) :
    (b.text ++ c :: r).dropWhile Text.isBlank = c :: r :=
  Text.dropWhile_append_stops (fun _ hc => b.isBlank_of_mem hc) (Text.stops_cons r h)

theorem behindMark?_append {m : Char} (h : Text.isBlank m = false) :
    behindMark? m (b.text ++ m :: r) = some r := by
  simp [behindMark?, b.dropWhile_append h]

end Blanks

/-! ## Quoted values -/

section Quoted

variable {β : Type} {next : Text → Option β} {s r : Text} {found : β}

/-- Reads a quote, such that `next` reads the rest. -/
def unquote? (next : Text → Option β) (s : Text) : Option β := (behindQuote? s).bind next

theorem quoted?_eq (next : Text → Option β) (s : Text) :
    quoted? next s = unquote? (stretch (unquote? next)) (s.dropWhile Text.isBlank) := rfl

theorem unquote?_cons {q : Char} (hq : isQuote q = true) (r : Text) :
    unquote? next (q :: r) = next r := by
  have hbehind : behindQuote? (q :: r) = some r := if_pos hq
  rw [unquote?, hbehind, Option.bind_some]

theorem unquote?_cons_of_not {c : Char} (hc : isQuote c = false) (r : Text) :
    unquote? next (c :: r) = none := by
  have hbehind : behindQuote? (c :: r) = none := if_neg (by simp [hc])
  rw [unquote?, hbehind, Option.bind_none]

theorem eq_of_unquote? (h : unquote? next s = some found) :
    ∃ q r, isQuote q = true ∧ s = q :: r ∧ next r = some found := by
  cases s with
  | nil => cases h
  | cons q r =>
      cases hq : isQuote q with
      | true =>
          rw [unquote?_cons hq] at h
          exact ⟨q, r, hq, rfl, h⟩
      | false =>
          rw [unquote?_cons_of_not hq] at h
          cases h

theorem exists_behind_of_quoted? {a : Text} (h : quoted? next s = some (a, found)) :
    ∃ v, v <:+ s ∧ quotes v + 2 ≤ quotes s ∧ next v = some found := by
  rw [quoted?_eq] at h
  obtain ⟨q, r, hq, hdrop, hstretch⟩ := eq_of_unquote? h
  obtain ⟨u, rfl, -, hu⟩ := eq_of_stretch hstretch
  obtain ⟨q', v, hq', rfl, hv⟩ := eq_of_unquote? hu
  have hs : q :: (a ++ q' :: v) <:+ s := hdrop ▸ List.dropWhile_suffix _
  refine ⟨v, ?_, ?_, hv⟩
  · have hlast : v <:+ q :: (a ++ q' :: v) := ⟨q :: a ++ [q'], by simp⟩
    exact hlast.trans hs
  · have hle := quotes_le_of_suffix hs
    rw [quotes_cons_of_isQuote hq, quotes_append, quotes_cons_of_isQuote hq'] at hle
    omega

/-- Behind blanks and a quote, a value reaches to a quote behind which the rest can be read, if
there is none further on. -/
theorem quoted?_append (b : Blanks) {q q' : Char} (hq : isQuote q = true)
    (hq' : isQuote q' = true) {t : Text} (hne : t ≠ []) (hline : '\n' ∉ t)
    (hnext : next r = some found) (hstop : stretch (unquote? next) (q' :: r) = none) :
    quoted? next (b.text ++ q :: (t ++ q' :: r)) = some (t, found) := by
  have hclosed : unquote? next (q' :: r) = some found := by rw [unquote?_cons hq', hnext]
  rw [quoted?_eq, b.dropWhile_append (not_blank_of_isQuote hq), unquote?_cons hq,
    stretch_append hne hline hclosed hstop]

/-- Between two quotes with nothing between them there is no value, if none can go on over the
second one. -/
theorem quoted?_of_empty (b : Blanks) {q q' : Char} (hq : isQuote q = true)
    (hstop : stretch (unquote? next) (q' :: r) = none) :
    quoted? next (b.text ++ q :: q' :: r) = none := by
  rw [quoted?_eq, b.dropWhile_append (not_blank_of_isQuote hq), unquote?_cons hq, hstop]

end Quoted

/-! ## The two values -/

section Values

variable {s r : Text}

theorem suffix_of_behindMark? {m : Char} (h : behindMark? m s = some r) : m :: r <:+ s := by
  unfold behindMark? at h
  split at h
  · next c r' hdrop =>
      split at h
      · next hc =>
          obtain rfl := Option.some.inj h
          rw [← hc, ← hdrop]
          exact List.dropWhile_suffix _
      · cases h
  · cases h

theorem exists_mark_of_second? {b : Text} (h : second? s = some b) :
    ∃ r, ':' :: r <:+ s ∧ quoted? (fun _ => some ()) r = some (b, ()) := by
  obtain ⟨r, hmark, hfound⟩ := Option.bind_eq_some_iff.mp h
  obtain ⟨⟨b', ⟨⟩⟩, hquoted, rfl⟩ := Option.map_eq_some_iff.mp hfound
  exact ⟨r, suffix_of_behindMark? hmark, hquoted⟩

theorem exists_mark_of_values? {p : Text × Text} (h : values? s = some p) :
    ∃ r, '?' :: r <:+ s ∧ quoted? second? r = some p := by
  obtain ⟨r, hmark, hquoted⟩ := Option.bind_eq_some_iff.mp h
  exact ⟨r, suffix_of_behindMark? hmark, hquoted⟩

theorem two_le_quotes {b : Text} (h : second? s = some b) : 2 ≤ quotes s := by
  obtain ⟨r, hr, hquoted⟩ := exists_mark_of_second? h
  obtain ⟨v, -, hv, -⟩ := exists_behind_of_quoted? hquoted
  have hle := quotes_le_of_suffix hr
  rw [quotes_cons_of_not (by decide)] at hle
  omega

theorem four_le_quotes {p : Text × Text} (h : quoted? second? s = some p) : 4 ≤ quotes s := by
  obtain ⟨v, -, hv, hsecond⟩ := exists_behind_of_quoted? h
  have hle := two_le_quotes hsecond
  omega

/-- The first value does not go on over a character with two quotes behind it: to end there it takes
one, and the second value the other two. -/
theorem stretch_second_eq_none {c : Char} (h : quotes r ≤ 2) :
    stretch (unquote? second?) (c :: r) = none := by
  refine stretch_cons_eq_none fun u hu => ?_
  rw [Option.eq_none_iff_forall_ne_some]
  intro b hb
  obtain ⟨q, v, hq, rfl, hv⟩ := eq_of_unquote? hb
  have hle := quotes_le_of_suffix hu
  rw [quotes_cons_of_isQuote hq] at hle
  have htwo := two_le_quotes hv
  omega

theorem stretch_last_eq_none (c : Char) : stretch (unquote? fun _ => some ()) [c] = none := by
  refine stretch_cons_eq_none fun u hu => ?_
  rw [List.suffix_nil.mp hu]
  rfl

end Values

/-! ## Expressions in a text -/

section Find

variable {s r : Text} {p : Text × Text}

theorem values?_eq_none (h : ∀ r, '?' :: r <:+ s → quoted? second? r = none) {u : Text}
    (hu : u <:+ s) : values? u = none := by
  rw [Option.eq_none_iff_forall_ne_some]
  intro p hp
  obtain ⟨r, hr, hquoted⟩ := exists_mark_of_values? hp
  rw [h r (hr.trans hu)] at hquoted
  cases hquoted

theorem find?_eq_none (h : ∀ r, '?' :: r <:+ s → quoted? second? r = none) : find? s = none := by
  have hfrom : ∀ (t : Text) (fresh : Bool), t <:+ s → findFrom fresh t = none := by
    intro t
    induction t with
    | nil => exact fun _ _ => rfl
    | cons c t ih =>
        intro fresh ht
        have hrest : t <:+ s := (List.suffix_cons c t).trans ht
        have hhere : here? (c :: t) = none := by
          rw [here?, stretch_cons_eq_none fun u hu => values?_eq_none h (hu.trans hrest)]
          rfl
        rw [findFrom, ih _ hrest, hhere]
        cases fresh <;> rfl
  exact hfrom s true (List.suffix_refl s)

/-- Values that can be read behind a question mark are found if the line they are looked for from
has something on it before the blanks in front of the mark, and if none can be read behind a
question mark further on. -/
theorem find?_of_mark {lead : Text} (hne : lead ≠ []) (hline : '\n' ∉ lead) (b : Blanks)
    (hvalues : quoted? second? r = some p)
    (hbehind : ∀ u, '?' :: u <:+ r → quoted? second? u = none) :
    find? (lead ++ (b.text ++ '?' :: r)) = some p := by
  -- the condition takes what blanks there are on its line; a line break ends it
  let onLine : Char → Bool := fun c => c ≠ '\n'
  let near := b.text.takeWhile onLine
  let far := b.text.dropWhile onLine
  have hsplit : lead ++ (b.text ++ '?' :: r) = (lead ++ near) ++ (far ++ '?' :: r) := by
    rw [List.append_assoc, ← List.append_assoc near, List.takeWhile_append_dropWhile]
  have hnear : '\n' ∉ lead ++ near := by
    rw [List.mem_append, not_or]
    exact ⟨hline, fun hmem => by simpa [onLine] using List.mem_takeWhile_imp hmem⟩
  have hread : values? (far ++ '?' :: r) = some p := by
    have hfar : far.all Text.isBlank = true := by
      rw [List.all_eq_true]
      exact fun c hc => b.isBlank_of_mem ((List.dropWhile_suffix onLine).subset hc)
    rw [values?, Blanks.behindMark?_append ⟨far, hfar⟩ (by decide), Option.bind_some, hvalues]
  have hend : stretch values? (far ++ '?' :: r) = none := by
    cases hfar : far with
    | nil => exact stretch_cons_eq_none fun u hu => values?_eq_none hbehind hu
    | cons c far' =>
        have hc : c = '\n' := by
          have hhead : ∀ d ∈ far.head?, onLine d = false := Text.stops_dropWhile b.text
          simpa [onLine] using hhead c (by rw [hfar]; rfl)
        rw [List.cons_append, stretch, if_pos hc]
  have hhere : here? (lead ++ (b.text ++ '?' :: r)) = some p := by
    rw [here?, hsplit, stretch_append (by simp [hne]) hnear hread hend]
    rfl
  obtain ⟨c, lead', rfl⟩ := List.exists_cons_of_ne_nil hne
  rw [find?, List.cons_append, findFrom, ← List.cons_append, hhere]
  rfl

end Find

end AttributeCss.Markup.Ternary
