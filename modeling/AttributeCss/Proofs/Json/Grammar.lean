/-
The grammar of JSON texts.

A document can be written in many ways: with spaces around every word, and with
each character of a string as itself, behind a backslash or by its code units.

    s.WrittenAs t     t is a string between its quotation marks
    v.WrittenAs t     t is a document, without spaces around it
    v.PaddedAs t      t is a document, with spaces around it

The grammar says what a JSON text is without saying how it is read.  All that it
writes is read (`read?_of_paddedAs`): the text is cut into the words of the
document, which the machine puts together again.
-/
import AttributeCss.Proofs.Json.Appended
import AttributeCss.Proofs.Json.Words

namespace AttributeCss.Json

/-- Spaces that may stand between words. -/
def Gap (t : Text) : Prop := ∀ c ∈ t, Text.isSpace c = true

theorem gap_nil : Gap [] := fun _ hc => absurd hc List.not_mem_nil

/-! ## Numbers -/

/-- The whole part of a number: a zero, or digits that do not start with one. -/
def IsWhole (t : Text) : Prop := t = ['0'] ∨ (Text.isNumeral t = true ∧ t.head? ≠ some '0')

/-- The fraction of a number, if it has one. -/
def IsFraction (t : Text) : Prop := t = [] ∨ ∃ digits, Text.isNumeral digits = true ∧
  t = '.' :: digits

/-- The exponent of a number, if it has one. -/
def IsExponent (t : Text) : Prop := t = [] ∨ ∃ letter sign digits, letter ∈ ['e', 'E'] ∧
  sign ∈ ([[], ['+'], ['-']] : List Text) ∧ Text.isNumeral digits = true ∧
  t = letter :: (sign ++ digits)

def IsNumber (t : Text) : Prop := ∃ sign whole fraction exponent,
  sign ∈ ([[], ['-']] : List Text) ∧ IsWhole whole ∧ IsFraction fraction ∧ IsExponent exponent ∧
  t = sign ++ (whole ++ (fraction ++ exponent))

theorem isDigit_of_isNumeral {t : Text} (h : Text.isNumeral t = true) :
    t ≠ [] ∧ ∀ c ∈ t, c.isDigit = true := by
  obtain ⟨hne, hall⟩ := (Bool.and_eq_true ..).mp h
  exact ⟨by simpa using hne, List.all_eq_true.mp hall⟩

theorem readDigits?_of_isNumeral {t rest : Text} (h : Text.isNumeral t = true)
    (hrest : Text.Stops Char.isDigit rest) : readDigits? (t ++ rest) = some (t, rest) := by
  obtain ⟨hne, hall⟩ := isDigit_of_isNumeral h
  exact readDigits?_eq_some_iff.mpr ⟨rfl, hne, hall, hrest⟩

theorem readWhole?_of_isWhole {t rest : Text} (h : IsWhole t)
    (hrest : Text.Stops Char.isDigit rest) : readWhole? (t ++ rest) = some (t, rest) := by
  rcases h with rfl | ⟨hdigits, hhead⟩
  · rfl
  · obtain ⟨c, r, rfl⟩ := List.exists_cons_of_ne_nil (isDigit_of_isNumeral hdigits).1
    have hc : c ≠ '0' := fun hzero => hhead (congrArg some hzero)
    rw [List.cons_append, readWhole?_cons_of_ne hc, ← List.cons_append]
    exact readDigits?_of_isNumeral hdigits hrest

theorem stops_isExponent {p : Char → Bool} (hp : p 'e' = false ∧ p 'E' = false) {t : Text}
    (h : IsExponent t) : Text.Stops p t := by
  rcases h with rfl | ⟨letter, sign, digits, hletter, -, -, rfl⟩
  · exact Text.stops_nil
  · refine Text.stops_cons _ ?_
    simp only [List.mem_cons, List.not_mem_nil, or_false] at hletter
    rcases hletter with rfl | rfl
    · exact hp.1
    · exact hp.2

theorem stops_isFraction {t rest : Text} (h : IsFraction t)
    (hrest : Text.Stops Char.isDigit rest) : Text.Stops Char.isDigit (t ++ rest) := by
  rcases h with rfl | ⟨digits, -, rfl⟩
  · exact hrest
  · exact Text.stops_cons _ (by decide)

theorem readFraction?_of_isFraction {t rest : Text} (h : IsFraction t)
    (hdigit : Text.Stops Char.isDigit rest) (hpoint : Text.Stops (· == '.') rest) :
    readFraction? (t ++ rest) = some (t, rest) := by
  rcases h with rfl | ⟨digits, hdigits, rfl⟩
  · exact readFraction?_of_stops hpoint
  · show (readDigits? (digits ++ rest)).map _ = _
    rw [readDigits?_of_isNumeral hdigits hdigit]
    rfl

theorem readSign_of_mem {sign digits : Text} (hsign : sign ∈ ([[], ['+'], ['-']] : List Text))
    (hdigits : Text.isNumeral digits = true) : readSign (sign ++ digits) = (sign, digits) := by
  simp only [List.mem_cons, List.not_mem_nil, or_false] at hsign
  rcases hsign with rfl | rfl | rfl
  · obtain ⟨hne, hall⟩ := isDigit_of_isNumeral hdigits
    obtain ⟨c, r, rfl⟩ := List.exists_cons_of_ne_nil hne
    have hc : c ≠ '+' ∧ c ≠ '-' := by
      constructor <;> rintro rfl <;> exact absurd (hall _ List.mem_cons_self) (by decide)
    simp [readSign, hc]
  · rfl
  · rfl

theorem readExponent?_of_isExponent {t : Text} (h : IsExponent t) :
    readExponent? t = some (t, []) := by
  rcases h with rfl | ⟨letter, sign, digits, hletter, hsign, hdigits, rfl⟩
  · rfl
  · have hread := readDigits?_of_isNumeral hdigits Text.stops_nil
    rw [List.append_nil] at hread
    have hmark : (letter = 'e' || letter = 'E') = true := by simpa using hletter
    simp only [readExponent?, hmark, if_true, readSign_of_mem hsign hdigits, hread,
      Option.map_some, List.cons_append]

theorem readMinus_of_mem {sign rest : Text} (hsign : sign ∈ ([[], ['-']] : List Text))
    (hrest : rest.head? ≠ some '-') : readMinus (sign ++ rest) = (sign, rest) := by
  simp only [List.mem_cons, List.not_mem_nil, or_false] at hsign
  rcases hsign with rfl | rfl
  · unfold readMinus
    split
    · next r hr =>
        obtain rfl : rest = '-' :: r := hr
        exact absurd rfl hrest
    · rfl
  · rfl

theorem readNumber?_of_isNumber {t : Text} (h : IsNumber t) : readNumber? t = some (t, []) := by
  obtain ⟨sign, whole, fraction, exponent, hsign, hwhole, hfraction, hexponent, rfl⟩ := h
  have hdigit := stops_isExponent (p := Char.isDigit) (by decide) hexponent
  have hhead : (whole ++ (fraction ++ exponent)).head? ≠ some '-' := by
    rcases hwhole with rfl | ⟨hdigits, -⟩
    · simp
    · obtain ⟨hne, hall⟩ := isDigit_of_isNumeral hdigits
      obtain ⟨c, r, rfl⟩ := List.exists_cons_of_ne_nil hne
      intro hminus
      obtain rfl := Option.some.inj hminus
      exact absurd (hall '-' List.mem_cons_self) (by decide)
  simp only [readNumber?, readMinus_of_mem hsign hhead,
    readWhole?_of_isWhole hwhole (stops_isFraction hfraction hdigit),
    readFraction?_of_isFraction hfraction hdigit (stops_isExponent (by decide) hexponent),
    readExponent?_of_isExponent hexponent, bind, Option.bind_some, pure, List.append_assoc]

theorem isNumeral_of_readDigits? {s t rest : Text} (h : readDigits? s = some (t, rest)) :
    Text.isNumeral t = true := by
  obtain ⟨-, hne, hall, -⟩ := readDigits?_eq_some_iff.mp h
  refine (Bool.and_eq_true ..).mpr ⟨by simpa using hne, List.all_eq_true.mpr hall⟩

theorem isWhole_of_readWhole? {s t rest : Text} (h : readWhole? s = some (t, rest)) :
    IsWhole t := by
  cases s with
  | nil => cases h
  | cons c r =>
      by_cases hc : c = '0'
      · subst hc
        obtain ⟨rfl, -⟩ := Prod.mk.inj (Option.some.inj h)
        exact Or.inl rfl
      · rw [readWhole?_cons_of_ne hc] at h
        obtain ⟨hsplit, hne, -, -⟩ := readDigits?_eq_some_iff.mp h
        refine Or.inr ⟨isNumeral_of_readDigits? h, fun hhead => hc ?_⟩
        obtain ⟨d, ds, rfl⟩ := List.exists_cons_of_ne_nil hne
        obtain ⟨rfl, -⟩ := List.cons.inj hsplit
        exact Option.some.inj hhead

theorem isFraction_of_readFraction? {s t rest : Text} (h : readFraction? s = some (t, rest)) :
    IsFraction t := by
  unfold readFraction? at h
  split at h
  · obtain ⟨⟨digits, _⟩, hdigits, heq⟩ := Option.map_eq_some_iff.mp h
    obtain ⟨rfl, -⟩ := Prod.mk.inj heq
    exact Or.inr ⟨digits, isNumeral_of_readDigits? hdigits, rfl⟩
  · obtain ⟨rfl, -⟩ := Prod.mk.inj (Option.some.inj h)
    exact Or.inl rfl

theorem readSign_mem (s : Text) : (readSign s).1 ∈ ([[], ['+'], ['-']] : List Text) := by
  unfold readSign
  split <;> simp

theorem isExponent_of_readExponent? {s t rest : Text} (h : readExponent? s = some (t, rest)) :
    IsExponent t := by
  unfold readExponent? at h
  split at h
  · next c r =>
      split at h
      · next hletter =>
          obtain ⟨⟨digits, _⟩, hdigits, heq⟩ := Option.map_eq_some_iff.mp h
          obtain ⟨rfl, -⟩ := Prod.mk.inj heq
          exact Or.inr ⟨c, (readSign r).1, digits, by simpa using hletter, readSign_mem r,
            isNumeral_of_readDigits? hdigits, rfl⟩
      · obtain ⟨rfl, -⟩ := Prod.mk.inj (Option.some.inj h)
        exact Or.inl rfl
  · obtain ⟨rfl, -⟩ := Prod.mk.inj (Option.some.inj h)
    exact Or.inl rfl

theorem isNumber_of_readNumber? {s t rest : Text} (h : readNumber? s = some (t, rest)) :
    IsNumber t := by
  simp only [readNumber?, bind, Option.bind_eq_some_iff, pure, Option.some.injEq,
    Prod.mk.injEq] at h
  obtain ⟨⟨whole, _⟩, hwhole, ⟨fraction, _⟩, hfraction, ⟨exponent, _⟩, hexponent, rfl, -⟩ := h
  refine ⟨(readMinus s).1, whole, fraction, exponent, ?_, isWhole_of_readWhole? hwhole,
    isFraction_of_readFraction? hfraction, isExponent_of_readExponent? hexponent, by simp⟩
  unfold readMinus
  split <;> simp

/-! ## Strings -/

/-- A hex digit of either case, with its value. -/
def IsHexDigit (n : Nat) (c : Char) : Prop :=
  n < 16 ∧ (c = Nat.digitChar n ∨ c = (Nat.digitChar n).toUpper)

/-- The letters behind a backslash, with the characters they stand for. -/
def escapeLetters : List (Char × Char) :=
  [(Text.quoteMark, Text.quoteMark), (Text.backslash, Text.backslash), ('/', '/'), ('b', '\x08'),
    ('f', '\x0c'), ('n', '\n'), ('r', '\r'), ('t', '\t')]

/-- The ways to write a unit of a string. -/
inductive StringUnit.WrittenAs : StringUnit → Text → Prop
  | plain {c : Char} : c ≠ Text.quoteMark → c ≠ Text.backslash → 32 ≤ c.toNat →
      WrittenAs (.char c) [c]
  | letter {e c : Char} : (e, c) ∈ escapeLetters → WrittenAs (.char c) [Text.backslash, e]
  | code {n₁ n₂ n₃ n₄ : Nat} {a b c d : Char} : IsHexDigit n₁ a → IsHexDigit n₂ b →
      IsHexDigit n₃ c → IsHexDigit n₄ d →
      WrittenAs (.code (((n₁ * 16 + n₂) * 16 + n₃) * 16 + n₄)) [Text.backslash, 'u', a, b, c, d]

/-- The ways to write a string between its quotation marks. -/
inductive Literal.WrittenAs : Literal → Text → Prop
  | nil : WrittenAs [] []
  | cons {u : StringUnit} {s : Literal} {w t : Text} : u.WrittenAs w → WrittenAs s t →
      WrittenAs (u :: s) (w ++ t)

theorem hexValue?_digitChar : ∀ n < 16, hexValue? (Nat.digitChar n) = some n := by decide

theorem hexValue?_of_isHexDigit {n : Nat} {c : Char} (h : IsHexDigit n c) :
    hexValue? c = some n := by
  have hupper : ∀ n < 16, hexValue? (Nat.digitChar n).toUpper = some n := by decide
  obtain ⟨hn, rfl | rfl⟩ := h
  · exact hexValue?_digitChar n hn
  · exact hupper n hn

theorem readString?_of_writtenAs_unit {u : StringUnit} {w : Text} (h : u.WrittenAs w)
    (rest : Text) : readString? (w ++ rest) = consUnit u (readString? rest) := by
  cases h with
  | plain hquote hback hcontrol =>
      exact readString?_plain hquote hback (Nat.not_lt.mpr hcontrol) rest
  | @letter e c hletter =>
      have hshort : ∀ p ∈ escapeLetters, shortEscape? p.1 = some p.2 := by decide
      exact readString?_short (hshort (e, c) hletter) rest
  | code ha hb hc hd =>
      refine readString?_code ?_ rest
      simp only [hexCode?, hexValue?_of_isHexDigit ha, hexValue?_of_isHexDigit hb,
        hexValue?_of_isHexDigit hc, hexValue?_of_isHexDigit hd, bind, Option.bind_some, pure]

theorem readString?_of_writtenAs {s : Literal} {t : Text} (h : s.WrittenAs t) (rest : Text) :
    readString? (t ++ Text.quoteMark :: rest) = some (s, rest) := by
  induction h with
  | nil => exact readString?_quote rest
  | cons hunit _ ih =>
      rw [List.append_assoc, readString?_of_writtenAs_unit hunit, ih]
      rfl

/-! ## Documents -/

mutual

/-- The ways to write a document, without spaces around it. -/
inductive Value.WrittenAs : Value → Text → Prop
  | null : Value.WrittenAs .null "null"
  | yes : Value.WrittenAs (.bool true) "true"
  | no : Value.WrittenAs (.bool false) "false"
  | number {n : Text} : IsNumber n → Value.WrittenAs (.number n) n
  | string {s : Literal} {t : Text} : s.WrittenAs t →
      Value.WrittenAs (.string s) (Text.quoteMark :: (t ++ [Text.quoteMark]))
  | array {items : List Value} {t : Text} : ItemsWrittenAs items t →
      Value.WrittenAs (.array items) ('[' :: (t ++ [']']))
  | object {members : List (Literal × Value)} {t : Text} : MembersWrittenAs members t →
      Value.WrittenAs (.object members) ('\x7b' :: (t ++ ['\x7d']))

/-- The ways to write a document, with spaces around it. -/
inductive Value.PaddedAs : Value → Text → Prop
  | mk {v : Value} {before t behind : Text} : Gap before → Value.WrittenAs v t → Gap behind →
      Value.PaddedAs v (before ++ (t ++ behind))

/-- The ways to write the items of an array. -/
inductive ItemsWrittenAs : List Value → Text → Prop
  | none {gap : Text} : Gap gap → ItemsWrittenAs [] gap
  | last {v : Value} {t : Text} : Value.PaddedAs v t → ItemsWrittenAs [v] t
  | more {v w : Value} {r : List Value} {t u : Text} : Value.PaddedAs v t →
      ItemsWrittenAs (w :: r) u → ItemsWrittenAs (v :: w :: r) (t ++ ',' :: u)

/-- The ways to write the members of an object. -/
inductive MembersWrittenAs : List (Literal × Value) → Text → Prop
  | none {gap : Text} : Gap gap → MembersWrittenAs [] gap
  | last {m : Literal × Value} {t : Text} : MemberWrittenAs m t → MembersWrittenAs [m] t
  | more {m m' : Literal × Value} {r : List (Literal × Value)} {t u : Text} :
      MemberWrittenAs m t → MembersWrittenAs (m' :: r) u →
      MembersWrittenAs (m :: m' :: r) (t ++ ',' :: u)

/-- The ways to write a member of an object. -/
inductive MemberWrittenAs : Literal × Value → Text → Prop
  | mk {k : Literal} {v : Value} {before key behind t : Text} : Gap before → k.WrittenAs key →
      Gap behind → Value.PaddedAs v t →
      MemberWrittenAs (k, v)
        (before ++ Text.quoteMark :: (key ++ Text.quoteMark :: (behind ++ ':' :: t)))

end

/-! ## What is written is cut into its words -/

theorem tokens?_nil : tokens? [] = some [] := by
  rw [tokens?]

theorem tokens?_mark {c : Char} {t : Token} (h : markOf? c = some t) (r : Text) :
    tokens? (c :: r) = (tokens? r).map (t :: ·) := by
  have hspace : Text.isSpace c = false := by
    rw [Bool.eq_false_iff]
    intro hc
    simp only [Text.isSpace, Bool.or_eq_true, decide_eq_true_eq] at hc
    rcases hc with ((rfl | rfl) | rfl) | rfl <;> cases h
  exact tokens?_token hspace (by rw [readToken?, h])

theorem tokens?_word {c : Char} {r : Text} {t : Token} (hspace : Text.isSpace c = false)
    (h : readToken? (c :: r) = some (t, [])) : tokens? (c :: r) = some [t] := by
  rw [tokens?_token hspace h, tokens?_nil]
  rfl

theorem head_of_readNumber? {c : Char} {r n rest : Text}
    (h : readNumber? (c :: r) = some (n, rest)) : c = '-' ∨ c.isDigit = true := by
  by_cases hminus : c = '-'
  · exact Or.inl hminus
  · simp only [readNumber?, bind, Option.bind_eq_some_iff] at h
    obtain ⟨⟨whole, afterWhole⟩, hwhole, -⟩ := h
    have hsign : (readMinus (c :: r)).2 = c :: r := by simp [readMinus, hminus]
    rw [hsign] at hwhole
    by_cases hzero : c = '0'
    · subst hzero
      exact Or.inr (by decide)
    · rw [readWhole?_cons_of_ne hzero] at hwhole
      obtain ⟨hsplit, hne, hall, -⟩ := readDigits?_eq_some_iff.mp hwhole
      obtain ⟨d, ds, rfl⟩ := List.exists_cons_of_ne_nil hne
      obtain ⟨rfl, -⟩ := List.cons.inj hsplit
      exact Or.inr (hall c List.mem_cons_self)

theorem not_isAlpha_of_isDigit {c : Char} (h : c.isDigit = true) : c.isAlpha = false := by
  have hlast : c.toNat ≤ 57 := (Char.isDigit_iff_toNat.mp h).2
  rw [Bool.eq_false_iff]
  intro halpha
  rcases (Bool.or_eq_true ..).mp halpha with hletter | hletter
  · have hbounds : 'A'.val ≤ c.val ∧ c.val ≤ 'Z'.val := of_decide_eq_true hletter
    have hfirst : 65 ≤ c.toNat := UInt32.le_iff_toNat_le.mp hbounds.1
    omega
  · have hbound : 'a'.val ≤ c.val := of_decide_eq_true ((Bool.and_eq_true ..).mp hletter).1
    have hfirst : 97 ≤ c.toNat := UInt32.le_iff_toNat_le.mp hbound
    omega

theorem tokens?_number {n : Text} (h : readNumber? n = some (n, [])) :
    tokens? n = some [.number n] := by
  cases n with
  | nil => cases h
  | cons c r =>
      have hclass : Text.isSpace c = false ∧ markOf? c = none ∧ c ≠ Text.quoteMark ∧
          c.isAlpha = false := by
        rcases head_of_readNumber? h with rfl | hdigit
        · decide
        · have hne : ∀ d : Char, d.isDigit = false → c ≠ d := by
            rintro d hd rfl
            simp [hdigit] at hd
          refine ⟨?_, ?_, hne _ (by decide), not_isAlpha_of_isDigit hdigit⟩
          · simp [Text.isSpace, hne ' ' (by decide), hne '\t' (by decide), hne '\n' (by decide),
              hne '\r' (by decide)]
          · simp [markOf?, hne '[' (by decide), hne ']' (by decide), hne '\x7b' (by decide),
              hne '\x7d' (by decide), hne ',' (by decide), hne ':' (by decide)]
      obtain ⟨hspace, hmark, hquote, halpha⟩ := hclass
      have hread : readToken? (c :: r) = some (.number (c :: r), []) := by
        simp [readToken?, hmark, hquote, halpha, h]
      exact tokens?_word hspace hread

theorem tokens?_gap_append {gap : Text} (hgap : Gap gap) (t : Text) :
    tokens? (gap ++ t) = tokens? t := by
  induction gap with
  | nil => rfl
  | cons c gap ih =>
      obtain ⟨hc, hgap⟩ := List.forall_mem_cons.mp hgap
      rw [List.cons_append, tokens?_space hc, ih hgap]

theorem tokens?_gap {gap : Text} (hgap : Gap gap) : tokens? gap = some [] := by
  have hread := tokens?_gap_append hgap []
  rwa [List.append_nil, tokens?_nil] at hread

theorem gap_of_tokens?_nil {t : Text} (h : tokens? t = some []) : Gap t := by
  fun_induction tokens? t with
  | case1 => exact gap_nil
  | case2 c r hc ih => exact List.forall_mem_cons.mpr ⟨hc, ih h⟩
  | case3 => cases h
  | case4 => simp at h

theorem stops_gap {gap : Text} (hgap : Gap gap) : Text.Stops continuesNumber gap := by
  intro c hc
  have hspace := hgap c (List.mem_of_head? hc)
  simp only [Text.isSpace, Bool.or_eq_true, decide_eq_true_eq] at hspace
  rcases hspace with ((rfl | rfl) | rfl) | rfl <;> decide

theorem tokens?_quoted {s : Literal} {t : Text} (h : s.WrittenAs t) (rest : Text) :
    tokens? (Text.quoteMark :: (t ++ Text.quoteMark :: rest)) =
      (tokens? rest).map (.string s :: ·) := by
  refine tokens?_token (by decide) ?_
  show (readString? _).map _ = _
  rw [readString?_of_writtenAs h]
  rfl

theorem tokens?_padded {t before behind : Text} {ts : List Token} (h : tokens? t = some ts)
    (hbefore : Gap before) (hbehind : Gap behind) :
    tokens? (before ++ (t ++ behind)) = some ts := by
  rw [tokens?_gap_append hbefore, tokens?_append h fun _ _ => stops_gap hbehind,
    tokens?_gap hbehind, Option.map_some, List.append_nil]

theorem tokens?_append_mark {t : Text} {ts : List Token} (h : tokens? t = some ts) {c : Char}
    (hc : continuesNumber c = false) {mark : Token} (hmark : markOf? c = some mark) (rest : Text) :
    tokens? (t ++ c :: rest) = (tokens? rest).map fun us => ts ++ mark :: us := by
  rw [tokens?_append h fun _ _ => Text.stops_cons rest hc, tokens?_mark hmark, Option.map_map]
  rfl

mutual

theorem tokens?_of_writtenAs : ∀ {v : Value} {t : Text}, v.WrittenAs t →
    tokens? t = some v.words
  | .null, _, .null => tokens?_word (by decide) rfl
  | .bool _, _, .yes => tokens?_word (by decide) rfl
  | .bool _, _, .no => tokens?_word (by decide) rfl
  | .number _, _, .number hn => tokens?_number (readNumber?_of_isNumber hn)
  | .string _, _, .string hs => by
      rw [tokens?_quoted hs, tokens?_nil]
      rfl
  | .array items, _, .array hitems => by
      have hwords := tokens?_of_itemsWrittenAs hitems
      rw [tokens?_mark (by rfl), tokens?_append_mark hwords (by decide) (by rfl), tokens?_nil]
      rfl
  | .object members, _, .object hmembers => by
      have hwords := tokens?_of_membersWrittenAs hmembers
      rw [tokens?_mark (by rfl), tokens?_append_mark hwords (by decide) (by rfl), tokens?_nil]
      rfl

theorem tokens?_of_itemsWrittenAs : ∀ {items : List Value} {t : Text}, ItemsWrittenAs items t →
    tokens? t = some (itemsWords items)
  | [], _, .none hgap => tokens?_gap hgap
  | [_], _, .last (.mk hbefore hv hbehind) =>
      tokens?_padded (tokens?_of_writtenAs hv) hbefore hbehind
  | _ :: w :: r, _, .more (.mk hbefore hv hbehind) hr => by
      have hpadded := tokens?_padded (tokens?_of_writtenAs hv) hbefore hbehind
      rw [tokens?_append_mark hpadded (by decide) (by rfl), tokens?_of_itemsWrittenAs hr]
      rfl

theorem tokens?_of_membersWrittenAs : ∀ {members : List (Literal × Value)} {t : Text},
    MembersWrittenAs members t → tokens? t = some (membersWords members)
  | [], _, .none hgap => tokens?_gap hgap
  | [_], _, .last hm => tokens?_of_memberWrittenAs hm
  | _ :: m :: r, _, .more hm hr => by
      rw [tokens?_append_mark (tokens?_of_memberWrittenAs hm) (by decide) (by rfl),
        tokens?_of_membersWrittenAs hr]
      rfl

theorem tokens?_of_memberWrittenAs : ∀ {m : Literal × Value} {t : Text}, MemberWrittenAs m t →
    tokens? t = some (memberWords m)
  | (_, _), _, .mk hbefore hkey hbehind (.mk hbefore' hv hbehind') => by
      have hpadded := tokens?_padded (tokens?_of_writtenAs hv) hbefore' hbehind'
      rw [tokens?_gap_append hbefore, tokens?_quoted hkey, tokens?_gap_append hbehind,
        tokens?_mark (by rfl), hpadded]
      rfl

end

/-- **All that the grammar writes is read.** -/
theorem Value.read?_of_paddedAs {v : Value} {t : Text} (h : v.PaddedAs t) : read? t = some v := by
  obtain ⟨hbefore, hv, hbehind⟩ := h
  rw [read?, tokens?_padded (tokens?_of_writtenAs hv) hbefore hbehind]
  exact ofTokens?_words v

end AttributeCss.Json
