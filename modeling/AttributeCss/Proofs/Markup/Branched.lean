/-
Conditional expressions as they are written, and the values found in them.

    condition ? 'value' : condition ? 'value' : 'value'

An expression is a chain of arms, each a condition and a value, and a last
value behind them (`written`).  What is found is decided from the end: the last
value, and in front of it the value of the last arm, whatever stands before
(`find?_arm`).  A value without characters is not one to be found: if the last
one is empty nothing is (`find?_of_last_empty`), and if the one before is, what
is found in its place starts at the arm before (`find?_of_arm_empty`).

    combined? (written (front ++ [a, b]) last)    all values found, by `combined?_written`
-/
import AttributeCss.Proofs.Markup.Quotes

namespace AttributeCss.Markup.Ternary

/-! ## Expressions as written -/

/-- A text between quotes; they need not be of one kind. -/
structure Literal where
  opening : Char
  text : Text
  closing : Char
  opening_quote : isQuote opening = true
  closing_quote : isQuote closing = true
  unquoted : quotes text = 0
  line : '\n' ∉ text

def Literal.write (l : Literal) : Text := l.opening :: (l.text ++ [l.closing])

def Literal.plain (text : Text) (unquoted : quotes text = 0) (line : '\n' ∉ text) : Literal :=
  ⟨Text.apostrophe, text, Text.apostrophe, rfl, rfl, unquoted, line⟩

/-- A condition with the value under it, up to where the other value starts. -/
structure Arm where
  /-- The condition; it may hold quotes and marks. -/
  condition : Text
  condition_ne : condition ≠ []
  condition_line : '\n' ∉ condition
  beforeMark : Blanks
  afterMark : Blanks
  value : Literal
  beforeColon : Blanks
  afterColon : Blanks

namespace Arm

/-- What stands behind the value of an arm. -/
def behindValue (a : Arm) : Text := a.beforeColon.text ++ ':' :: a.afterColon.text

/-- What stands behind the question mark of an arm. -/
def behindMark (a : Arm) : Text := a.afterMark.text ++ (a.value.write ++ a.behindValue)

def write (a : Arm) : Text := a.condition ++ (a.beforeMark.text ++ '?' :: a.behindMark)

/-- An arm with one space on either side of its marks. -/
def spaced (condition : Text) (condition_ne : condition ≠ []) (condition_line : '\n' ∉ condition)
    (value : Literal) : Arm :=
  let space : Blanks := ⟨[' '], by decide⟩
  ⟨condition, condition_ne, condition_line, space, space, value, space, space⟩

/-- The arm is written on one line. -/
def OneLine (a : Arm) : Prop := '\n' ∉ a.write

instance (a : Arm) : Decidable a.OneLine := inferInstanceAs (Decidable ('\n' ∉ a.write))

end Arm

/-- The text is free of what separates the parts of an expression. -/
def Bare (t : Text) : Prop := ∀ c ∈ t, isQuote c = false ∧ c ≠ '?' ∧ c ≠ ':'

/-- Neither condition nor value of the arm hold what separates them. -/
def Arm.Bare (a : Arm) : Prop := Ternary.Bare a.condition ∧ Ternary.Bare a.value.text

instance (t : Text) : Decidable (Bare t) := List.decidableBAll _ t

instance (a : Arm) : Decidable a.Bare :=
  inferInstanceAs (Decidable (Bare a.condition ∧ Bare a.value.text))

/-- A chain of arms with a last value, as written. -/
def written (arms : List Arm) (last : Literal) : Text := arms.flatMap Arm.write ++ last.write

theorem written_cons (a : Arm) (arms : List Arm) (last : Literal) :
    written (a :: arms) last = a.write ++ written arms last := by
  simp [written]

theorem Bare.quotes_eq {t : Text} (h : Bare t) : quotes t = 0 :=
  quotes_eq_zero.mpr fun c hc => (h c hc).1

theorem Bare.mark_notMem {t : Text} (h : Bare t) : '?' ∉ t := fun hc => (h _ hc).2.1 rfl

theorem Bare.colon_notMem {t : Text} (h : Bare t) : ':' ∉ t := fun hc => (h _ hc).2.2 rfl

namespace Literal

variable (l : Literal)

@[simp] theorem quotes_write : quotes l.write = 2 := by
  rw [write, quotes_cons_of_isQuote l.opening_quote, quotes_append, l.unquoted,
    quotes_cons_of_isQuote l.closing_quote]
  rfl

theorem write_append (r : Text) : l.write ++ r = l.opening :: (l.text ++ l.closing :: r) := by
  simp [write]

theorem notMem_write {c : Char} (hc : isQuote c = false) (h : c ∉ l.text) : c ∉ l.write := by
  simp only [write, List.mem_cons, List.mem_append, List.not_mem_nil, or_false, not_or]
  exact ⟨(ne_of_isQuote l.opening_quote hc).symm, h, (ne_of_isQuote l.closing_quote hc).symm⟩

end Literal

namespace Arm

variable (a : Arm)

@[simp] theorem quotes_behindValue : quotes a.behindValue = 0 := by
  rw [behindValue, quotes_append, quotes_cons_of_not (by decide)]
  simp

theorem behindMark_append (r : Text) :
    a.behindMark ++ r = a.afterMark.text ++ (a.value.write ++ (a.behindValue ++ r)) := by
  simp [behindMark]

theorem write_append (r : Text) :
    a.write ++ r = a.condition ++ (a.beforeMark.text ++ '?' :: (a.behindMark ++ r)) := by
  simp [write]

/-- The value of the arm does not go on over its second quote, with the last value behind. -/
theorem stretch_value_eq_none (last : Literal) :
    stretch (unquote? second?) (a.value.closing :: (a.behindValue ++ last.write)) = none :=
  stretch_second_eq_none (by simp)

end Arm

/-! ## The end of an expression -/

theorem second?_behindValue (a : Arm) {last : Literal} (hlast : last.text ≠ []) :
    second? (a.behindValue ++ last.write) = some last.text := by
  have hquoted : quoted? (fun _ => some ()) (a.afterColon.text ++ last.write) =
      some (last.text, ()) :=
    quoted?_append a.afterColon last.opening_quote last.closing_quote hlast last.line rfl
      (stretch_last_eq_none _)
  rw [Arm.behindValue, List.append_assoc, List.cons_append, second?,
    Blanks.behindMark?_append _ (by decide), Option.bind_some, hquoted]
  rfl

theorem quoted?_behindMark {a : Arm} {last : Literal} (hvalue : a.value.text ≠ [])
    (hlast : last.text ≠ []) :
    quoted? second? (a.behindMark ++ last.write) = some (a.value.text, last.text) := by
  rw [a.behindMark_append, a.value.write_append]
  exact quoted?_append a.afterMark a.value.opening_quote a.value.closing_quote hvalue a.value.line
    (second?_behindValue a hlast) (a.stretch_value_eq_none last)

theorem quoted?_of_value_empty {a : Arm} (hvalue : a.value.text = []) (last : Literal) :
    quoted? second? (a.behindMark ++ last.write) = none := by
  rw [a.behindMark_append, a.value.write_append, hvalue, List.nil_append]
  exact quoted?_of_empty a.afterMark a.value.opening_quote (a.stretch_value_eq_none last)

theorem quoted?_of_last_empty (b : Blanks) {last : Literal} (hlast : last.text = []) :
    quoted? (fun _ => some ()) (b.text ++ last.write) = none := by
  rw [Literal.write, hlast]
  exact quoted?_of_empty b last.opening_quote (stretch_last_eq_none _)

/-- The condition that follows keeps a value from being read behind a colon. -/
theorem quoted?_of_condition {β : Type} {next : Text → Option β} {x r : Text}
    (h : quotes x = 0) : quoted? next (x ++ '?' :: r) = none := by
  rw [quotes_eq_zero] at h
  rw [quoted?_eq]
  induction x with
  | nil => rfl
  | cons c x ih =>
      rw [List.cons_append, List.dropWhile_cons]
      split
      · exact ih fun d hd => h d (List.mem_cons_of_mem _ hd)
      · exact unquote?_cons_of_not (h c List.mem_cons_self) _

/-! ## Marks further on -/

theorem cons_suffix_of_notMem {c : Char} {x y r : Text} (hx : c ∉ x) (h : c :: r <:+ x ++ y) :
    c :: r <:+ y := by
  induction x with
  | nil => exact h
  | cons d x ih =>
      rw [List.mem_cons, not_or] at hx
      rcases List.suffix_cons_iff.mp h with heq | h
      · exact absurd (List.cons.inj heq).1 hx.1
      · exact ih hx.2 h

/-- Behind the question mark of the last arm there is no other with values behind it: four quotes
would have to follow, but the first of the four that are left is no question mark. -/
theorem quoted?_of_mark_behind {a : Arm} {last : Literal} {r : Text}
    (h : '?' :: r <:+ a.behindMark ++ last.write) : quoted? second? r = none := by
  rw [a.behindMark_append, a.value.write_append] at h
  have hmark := cons_suffix_of_notMem (a.afterMark.notMem_text (by decide)) h
  rcases List.suffix_cons_iff.mp hmark with heq | hbehind
  · have hopening : a.value.opening ≠ '?' := ne_of_isQuote a.value.opening_quote (by decide)
    exact absurd (List.cons.inj heq).1.symm hopening
  · have hle := quotes_le_of_suffix hbehind
    rw [quotes_cons_of_not (by decide), quotes_append, a.value.unquoted,
      quotes_cons_of_isQuote a.value.closing_quote, quotes_append, a.quotes_behindValue,
      last.quotes_write] at hle
    rw [Option.eq_none_iff_forall_ne_some]
    intro p hp
    have hfour := four_le_quotes hp
    omega

/-- Where the last arm has an empty value, no values are behind its question mark either. -/
theorem quoted?_of_mark_of_value_empty {a : Arm} (hvalue : a.value.text = []) (last : Literal)
    {x : Text} (hx : '?' ∉ x) {r : Text} (h : '?' :: r <:+ x ++ (a.write ++ last.write))
    (hcondition : '?' ∉ a.condition) : quoted? second? r = none := by
  rw [a.write_append] at h
  have hmark := cons_suffix_of_notMem (a.beforeMark.notMem_text (by decide))
    (cons_suffix_of_notMem hcondition (cons_suffix_of_notMem hx h))
  rcases List.suffix_cons_iff.mp hmark with heq | hbehind
  · rw [(List.cons.inj heq).2, quoted?_of_value_empty hvalue]
  · exact quoted?_of_mark_behind hbehind

theorem exists_arm_of_colon {arms : List Arm} (harms : ∀ a ∈ arms, a.Bare) {last : Literal}
    (hlast : ':' ∉ last.text) {r : Text} (h : ':' :: r <:+ written arms last) :
    ∃ front a back, arms = front ++ a :: back ∧ r = a.afterColon.text ++ written back last := by
  induction arms with
  | nil =>
      have hmem : ':' ∈ last.write := h.subset List.mem_cons_self
      exact absurd hmem (last.notMem_write (by decide) hlast)
  | cons a arms ih =>
      obtain ⟨hcondition, hvalue⟩ := harms a List.mem_cons_self
      have hfront : ':' ∉ a.condition ++ (a.beforeMark.text ++ '?' ::
          (a.afterMark.text ++ (a.value.write ++ a.beforeColon.text))) := by
        simp only [List.mem_append, List.mem_cons, not_or]
        exact ⟨hcondition.colon_notMem, a.beforeMark.notMem_text (by decide), by decide,
          a.afterMark.notMem_text (by decide),
          a.value.notMem_write (by decide) hvalue.colon_notMem,
          a.beforeColon.notMem_text (by decide)⟩
      have hcolon : ':' :: r <:+ ':' :: (a.afterColon.text ++ written arms last) := by
        refine cons_suffix_of_notMem hfront ?_
        simpa [written_cons, Arm.write, Arm.behindMark, Arm.behindValue] using h
      rcases List.suffix_cons_iff.mp hcolon with heq | hbehind
      · exact ⟨[], a, arms, rfl, (List.cons.inj heq).2⟩
      · have hrest := cons_suffix_of_notMem (a.afterColon.notMem_text (by decide)) hbehind
        obtain ⟨front, b, back, rfl, hr⟩ :=
          ih (fun b hb => harms b (List.mem_cons_of_mem _ hb)) hrest
        exact ⟨a :: front, b, back, rfl, hr⟩

/-! ## What is found -/

/-- **The values of the last arm are found.**  Whatever stands before the arm on its line, the value
under its condition and the last value are those of the expression, if neither is empty. -/
theorem find?_arm {lead : Text} (hlead : '\n' ∉ lead) {a : Arm} {last : Literal}
    (hvalue : a.value.text ≠ []) (hlast : last.text ≠ []) :
    find? (lead ++ (a.write ++ last.write)) = some (a.value.text, last.text) := by
  have hline : '\n' ∉ lead ++ a.condition := by simp [hlead, a.condition_line]
  rw [a.write_append, ← List.append_assoc]
  exact find?_of_mark (by simp [a.condition_ne]) hline a.beforeMark
    (quoted?_behindMark hvalue hlast) fun u hu => quoted?_of_mark_behind hu

/-- **Nothing is found if the last value is empty**, in a chain of any length: behind no colon a
value can be read. -/
theorem find?_of_last_empty {arms : List Arm} (harms : ∀ a ∈ arms, a.Bare) {last : Literal}
    (hlast : last.text = []) : find? (written arms last) = none := by
  refine find?_eq_none fun r hr => ?_
  rw [Option.eq_none_iff_forall_ne_some]
  intro p hp
  obtain ⟨v, hv, -, hsecond⟩ := exists_behind_of_quoted? hp
  obtain ⟨u, hu, hquoted⟩ := exists_mark_of_second? hsecond
  have hcolon : ':' :: u <:+ written arms last :=
    (hu.trans hv).trans ((List.suffix_cons _ _).trans hr)
  obtain ⟨front, a, back, rfl, rfl⟩ := exists_arm_of_colon harms (by simp [hlast]) hcolon
  cases back with
  | nil =>
      rw [show written [] last = last.write from rfl, quoted?_of_last_empty _ hlast] at hquoted
      cases hquoted
  | cons b back =>
      have hcondition := (harms b (by simp)).1
      have hfront : quotes (a.afterColon.text ++ (b.condition ++ b.beforeMark.text)) = 0 := by
        simp [hcondition.quotes_eq]
      rw [written_cons, b.write_append, ← List.append_assoc b.condition, ← List.append_assoc,
        quoted?_of_condition hfront] at hquoted
      cases hquoted

theorem find?_of_value_empty {a : Arm} (hcondition : Bare a.condition)
    (hvalue : a.value.text = []) (last : Literal) : find? (a.write ++ last.write) = none :=
  find?_eq_none fun _ hr => quoted?_of_mark_of_value_empty hvalue last List.not_mem_nil hr
    hcondition.mark_notMem

/-- What is found in place of an empty value: all from the value before it, quotes and marks
included, to the quote that opens the empty one. -/
def Arm.through (a b : Arm) : Text :=
  a.value.text ++ a.value.closing :: (a.behindValue ++ (b.condition ++
    (b.beforeMark.text ++ '?' :: (b.afterMark.text ++ [b.value.opening]))))

/-- **An empty value before the last one is passed over.**  What is found starts with the value of
the arm before. -/
theorem find?_of_arm_empty {lead : Text} (hlead : '\n' ∉ lead) {a b : Arm} (ha : a.OneLine)
    (hb : b.OneLine) (hvalue : Bare a.value.text) (hcondition : Bare b.condition)
    (hempty : b.value.text = []) {last : Literal} (hlast : last.text ≠ []) :
    find? (lead ++ (a.write ++ (b.write ++ last.write))) = some (a.through b, last.text) := by
  have hline : '\n' ∉ lead ++ a.condition := by simp [hlead, a.condition_line]
  have hthrough : '\n' ∉ a.through b := by
    simp only [Arm.OneLine, Arm.write, Arm.behindMark, Literal.write, List.mem_append,
      List.mem_cons, List.not_mem_nil, or_false, not_or] at ha hb
    simp [Arm.through, ha, hb]
  have hvalues : quoted? second? (a.behindMark ++ (b.write ++ last.write)) =
      some (a.through b, last.text) := by
    have hread := quoted?_append a.afterMark a.value.opening_quote b.value.closing_quote
      (by simp [Arm.through]) hthrough (second?_behindValue b hlast) (b.stretch_value_eq_none last)
    simpa [Arm.through, Arm.behindMark, Arm.write, Literal.write, hempty] using hread
  have hfront : '?' ∉ a.behindMark := by
    simp only [Arm.behindMark, Arm.behindValue, List.mem_append, List.mem_cons, not_or]
    exact ⟨a.afterMark.notMem_text (by decide),
      a.value.notMem_write (by decide) hvalue.mark_notMem,
      a.beforeColon.notMem_text (by decide), by decide, a.afterColon.notMem_text (by decide)⟩
  rw [a.write_append, ← List.append_assoc]
  exact find?_of_mark (by simp [a.condition_ne]) hline a.beforeMark hvalues fun u hu =>
    quoted?_of_mark_of_value_empty hempty last hfront hu hcondition.mark_notMem

/-! ## All values of an expression -/

theorem filter_quotes_of {t : Text} (h : quotes t = 0) : t.filter (fun c => !isQuote c) = t :=
  List.filter_eq_self.mpr fun c hc => by simp [quotes_eq_zero.mp h c hc]

theorem combined?_of_find? {expression a b : Text} (h : find? expression = some (a, b)) :
    combined? expression = some (a.filter (fun c => !isQuote c) ++
      ' ' :: b.filter fun c => !isQuote c) := by
  have hspace : isQuote ' ' = false := by decide
  simp [combined?, h, hspace]

theorem combined?_eq_none {expression : Text} (h : find? expression = none) :
    combined? expression = none := by
  rw [combined?, h]
  rfl

theorem combined?_arm {lead : Text} (hlead : '\n' ∉ lead) {a : Arm} {last : Literal}
    (hvalue : a.value.text ≠ []) (hlast : last.text ≠ []) :
    combined? (lead ++ (a.write ++ last.write)) = some (a.value.text ++ ' ' :: last.text) := by
  rw [combined?_of_find? (find?_arm hlead hvalue hlast), filter_quotes_of a.value.unquoted,
    filter_quotes_of last.unquoted]

/-- A single arm and a last value: both values, or nothing if one of them is empty. -/
theorem combined?_pair {a : Arm} (ha : a.Bare) (last : Literal) :
    combined? (a.write ++ last.write) =
      if a.value.text = [] ∨ last.text = [] then none
      else some (a.value.text ++ ' ' :: last.text) := by
  split
  · next hempty =>
      apply combined?_eq_none
      rcases hempty with hvalue | hlast
      · exact find?_of_value_empty ha.1 hvalue last
      · have hnone : find? (written [a] last) = none :=
          find?_of_last_empty (by simpa using ha) hlast
        rwa [written_cons] at hnone
  · next hnone =>
      obtain ⟨hvalue, hlast⟩ := not_or.mp hnone
      exact combined?_arm List.not_mem_nil hvalue hlast

/-- What stands for an empty value: all from the value before it, less the quotes. -/
def Arm.span (a b : Arm) : Text :=
  a.value.text ++ (a.behindValue ++ (b.condition ++
    (b.beforeMark.text ++ '?' :: b.afterMark.text)))

theorem Arm.filter_through {a b : Arm} (h : Ternary.Bare b.condition) :
    (a.through b).filter (fun c => !isQuote c) = a.span b := by
  have hmark : isQuote '?' = false := by decide
  have hspan : quotes (a.span b) = 0 := by
    simp [span, a.value.unquoted, h.quotes_eq, quotes_cons_of_not hmark]
  rw [← filter_quotes_of hspan]
  simp [through, span, hmark, a.value.closing_quote, b.value.opening_quote]

/-- **The values of a chain are those of its end**: of the last arm and the last value.  What stands
before the last arm counts only for an empty value of that arm. -/
theorem combined?_written {front : List Arm} {a b : Arm}
    (harms : ∀ arm ∈ front ++ [a, b], arm.Bare ∧ arm.OneLine) (last : Literal) :
    combined? (written (front ++ [a, b]) last) =
      if last.text = [] then none
      else some ((if b.value.text = [] then a.span b else b.value.text) ++ ' ' :: last.text) := by
  obtain ⟨haBare, haLine⟩ := harms a (by simp)
  obtain ⟨hbBare, hbLine⟩ := harms b (by simp)
  have hfront : '\n' ∉ front.flatMap Arm.write := by
    rw [List.mem_flatMap]
    rintro ⟨arm, harm, hmem⟩
    exact (harms arm (List.mem_append_left _ harm)).2 hmem
  have hwritten : written (front ++ [a, b]) last =
      front.flatMap Arm.write ++ (a.write ++ (b.write ++ last.write)) := by
    simp [written]
  split
  · next hlast =>
      exact combined?_eq_none (find?_of_last_empty (fun arm harm => (harms arm harm).1) hlast)
  · next hlast =>
      rw [hwritten]
      split
      · next hempty =>
          rw [combined?_of_find? (find?_of_arm_empty hfront haLine hbLine haBare.2 hbBare.1 hempty
            hlast), Arm.filter_through hbBare.1, filter_quotes_of last.unquoted]
      · next hvalue =>
          have hlead : '\n' ∉ front.flatMap Arm.write ++ a.write := by
            rw [List.mem_append, not_or]
            exact ⟨hfront, haLine⟩
          rw [← List.append_assoc]
          exact combined?_arm hlead hvalue hlast

end AttributeCss.Markup.Ternary
