/-
The words of a JSON text.

A text is cut into brackets, marks, literals, numbers and strings; spaces
between them say nothing.  What cannot be cut up is no JSON text.
-/
import AttributeCss.Json.Value
import AttributeCss.Text.Characters

namespace AttributeCss.Json

/-- A word of a JSON text. -/
inductive Token where
  | arrayOpen
  | arrayClose
  | objectOpen
  | objectClose
  | comma
  | colon
  | null
  | bool (b : Bool)
  | number (written : Text)
  | string (s : Literal)
deriving DecidableEq, Repr

/-- The value of a hex digit of either case. -/
def hexValue? (c : Char) : Option Nat :=
  if c.isDigit then some (c.toNat - '0'.toNat)
  else if 'a' ≤ c && c ≤ 'f' then some (c.toNat - 'a'.toNat + 10)
  else if 'A' ≤ c && c ≤ 'F' then some (c.toNat - 'A'.toNat + 10)
  else none

/-- The number of four hex digits. -/
def hexCode? (a b c d : Char) : Option Nat := do
  let a ← hexValue? a
  let b ← hexValue? b
  let c ← hexValue? c
  let d ← hexValue? d
  return ((a * 16 + b) * 16 + c) * 16 + d

/-- The character a letter behind a backslash stands for. -/
def shortEscape? (c : Char) : Option Char :=
  if c = Text.quoteMark || c = Text.backslash || c = '/' then some c
  else if c = 'b' then some '\x08'
  else if c = 'f' then some '\x0c'
  else if c = 'n' then some '\n'
  else if c = 'r' then some '\r'
  else if c = 't' then some '\t'
  else none

/-- Puts a unit before the string that was read. -/
def consUnit (u : StringUnit) (read : Option (Literal × Text)) : Option (Literal × Text) :=
  read.map fun (s, rest) => (u :: s, rest)

/-- Reads a string behind its opening quotation mark, up to and over the closing one. -/
def readString? : Text → Option (Literal × Text)
  | [] => none
  | c :: r =>
      if c = Text.quoteMark then some ([], r)
      else if c = Text.backslash then
        match r with
        | 'u' :: a :: b :: c :: d :: r =>
            match hexCode? a b c d with
            | some n => consUnit (.code n) (readString? r)
            | none => none
        | e :: r =>
            match shortEscape? e with
            | some c => consUnit (.char c) (readString? r)
            | none => none
        | [] => none
      else if c.toNat < 32 then none
      else consUnit (.char c) (readString? r)

def readDigits? (s : Text) : Option (Text × Text) :=
  let digits := s.takeWhile Char.isDigit
  if digits.isEmpty then none else some (digits, s.dropWhile Char.isDigit)

/-- Reads the whole part of a number: a zero, or digits that start with none. -/
def readWhole? (s : Text) : Option (Text × Text) :=
  match s with
  | '0' :: r => some (['0'], r)
  | s => readDigits? s

/-- Reads the fraction of a number, if it has one. -/
def readFraction? (s : Text) : Option (Text × Text) :=
  match s with
  | '.' :: r => (readDigits? r).map fun (digits, rest) => ('.' :: digits, rest)
  | s => some ([], s)

/-- Reads the sign of an exponent, if it has one. -/
def readSign (s : Text) : Text × Text :=
  match s with
  | '+' :: r => (['+'], r)
  | '-' :: r => (['-'], r)
  | s => ([], s)

/-- Reads the exponent of a number, if it has one. -/
def readExponent? (s : Text) : Option (Text × Text) :=
  match s with
  | c :: r =>
      if c = 'e' || c = 'E' then
        let (sign, r) := readSign r
        (readDigits? r).map fun (digits, rest) => (c :: sign ++ digits, rest)
      else some ([], c :: r)
  | [] => some ([], [])

/-- Reads the minus sign of a number, if it has one. -/
def readMinus (s : Text) : Text × Text :=
  match s with
  | '-' :: r => (['-'], r)
  | s => ([], s)

def readNumber? (s : Text) : Option (Text × Text) := do
  let (whole, afterWhole) ← readWhole? (readMinus s).2
  let (fraction, afterFraction) ← readFraction? afterWhole
  let (exponent, rest) ← readExponent? afterFraction
  return ((readMinus s).1 ++ whole ++ fraction ++ exponent, rest)

/-- The word a character is by itself. -/
def markOf? (c : Char) : Option Token :=
  if c = '[' then some .arrayOpen
  else if c = ']' then some .arrayClose
  else if c = '\x7b' then some .objectOpen
  else if c = '\x7d' then some .objectClose
  else if c = ',' then some .comma
  else if c = ':' then some .colon
  else none

/-- Reads one of the literal names. -/
def readName? (s : Text) : Option (Token × Text) :=
  match Text.behind? "null" s with
  | some r => some (.null, r)
  | none =>
      match Text.behind? "true" s with
      | some r => some (.bool true, r)
      | none => (Text.behind? "false" s).map fun r => (.bool false, r)

/-- Reads the word a text starts with. -/
def readToken? (s : Text) : Option (Token × Text) :=
  match s with
  | [] => none
  | c :: r =>
      match markOf? c with
      | some t => some (t, r)
      | none =>
          if c = Text.quoteMark then (readString? r).map fun (s, rest) => (.string s, rest)
          else if c.isAlpha then readName? s
          else (readNumber? s).map fun (n, rest) => (.number n, rest)

/-! ## A word takes something of the text -/

theorem length_of_consUnit {u : StringUnit} {read : Option (Literal × Text)} {l : Literal}
    {rest : Text} {n : Nat} (h : consUnit u read = some (l, rest))
    (ih : ∀ {l' : Literal}, read = some (l', rest) → rest.length < n) : rest.length < n := by
  simp only [consUnit, Option.map_eq_some_iff, Prod.mk.injEq] at h
  obtain ⟨⟨l', rest'⟩, h', -, rfl⟩ := h
  exact ih h'

theorem length_of_readString? {s : Text} {l : Literal} {rest : Text}
    (h : readString? s = some (l, rest)) : rest.length < s.length := by
  fun_induction readString? s generalizing l with
  | case1 => simp at h
  | case2 => simp_all
  | case3 _ _ _ _ _ _ _ _ ih | case5 _ _ _ _ _ _ ih | case9 _ _ _ _ _ ih =>
    have := length_of_consUnit h fun hr => ih hr
    simp only [List.length_cons]
    omega
  | case4 | case6 | case7 | case8 => simp at h

theorem eq_of_readDigits? {s a b : Text} (h : readDigits? s = some (a, b)) :
    s = a ++ b ∧ a ≠ [] := by
  unfold readDigits? at h
  simp only at h
  split at h
  · simp at h
  · next he =>
    simp only [Option.some.injEq, Prod.mk.injEq] at h
    obtain ⟨rfl, rfl⟩ := h
    exact ⟨List.takeWhile_append_dropWhile.symm, by simpa using he⟩

theorem eq_of_readWhole? {s a b : Text} (h : readWhole? s = some (a, b)) :
    s = a ++ b ∧ a ≠ [] := by
  unfold readWhole? at h
  split at h
  · simp only [Option.some.injEq, Prod.mk.injEq] at h
    obtain ⟨rfl, rfl⟩ := h
    simp
  · exact eq_of_readDigits? h

theorem eq_of_readFraction? {s a b : Text} (h : readFraction? s = some (a, b)) : s = a ++ b := by
  unfold readFraction? at h
  split at h
  · simp only [Option.map_eq_some_iff, Prod.mk.injEq] at h
    obtain ⟨⟨x, y⟩, hxy, rfl, rfl⟩ := h
    simp [(eq_of_readDigits? hxy).1]
  · simp only [Option.some.injEq, Prod.mk.injEq] at h
    obtain ⟨rfl, rfl⟩ := h
    rfl

theorem readSign_append (s : Text) : (readSign s).1 ++ (readSign s).2 = s := by
  unfold readSign
  split <;> rfl

theorem eq_of_readExponent? {s a b : Text} (h : readExponent? s = some (a, b)) : s = a ++ b := by
  unfold readExponent? at h
  split at h
  · next c r =>
    split at h
    · simp only [Option.map_eq_some_iff, Prod.mk.injEq] at h
      obtain ⟨⟨x, y⟩, hxy, rfl, rfl⟩ := h
      have h1 := readSign_append r
      rw [(eq_of_readDigits? hxy).1] at h1
      simp [h1]
    · simp only [Option.some.injEq, Prod.mk.injEq] at h
      obtain ⟨rfl, rfl⟩ := h
      rfl
  · simp only [Option.some.injEq, Prod.mk.injEq] at h
    obtain ⟨rfl, rfl⟩ := h
    rfl

theorem readMinus_append (s : Text) : (readMinus s).1 ++ (readMinus s).2 = s := by
  unfold readMinus
  split <;> rfl

theorem eq_of_readNumber? {s a b : Text} (h : readNumber? s = some (a, b)) :
    s = a ++ b ∧ a ≠ [] := by
  simp only [readNumber?, bind, Option.bind_eq_some_iff, pure, Option.some.injEq,
    Prod.mk.injEq] at h
  obtain ⟨⟨w, s1⟩, hw, ⟨f, s2⟩, hf, ⟨e, s3⟩, he, rfl, rfl⟩ := h
  obtain ⟨hw1, hw2⟩ := eq_of_readWhole? hw
  have hf1 := eq_of_readFraction? hf
  have he1 := eq_of_readExponent? he
  dsimp only at hf1 he1
  have hm := readMinus_append s
  rw [hw1, hf1, he1] at hm
  refine ⟨by simp [hm], ?_⟩
  simp [hw2]

theorem length_of_readName? {s rest : Text} {t : Token} (h : readName? s = some (t, rest)) :
    rest.length < s.length := by
  unfold readName? at h
  split at h
  · next r hr =>
    simp only [Option.some.injEq, Prod.mk.injEq] at h
    obtain ⟨-, rfl⟩ := h
    rw [Text.eq_of_behind? hr, List.length_append]
    simp
  · split at h
    · next r hr =>
      simp only [Option.some.injEq, Prod.mk.injEq] at h
      obtain ⟨-, rfl⟩ := h
      rw [Text.eq_of_behind? hr, List.length_append]
      simp
    · simp only [Option.map_eq_some_iff, Prod.mk.injEq] at h
      obtain ⟨r, hr, -, rfl⟩ := h
      rw [Text.eq_of_behind? hr, List.length_append]
      simp

theorem length_of_readToken? {s rest : Text} {t : Token} (h : readToken? s = some (t, rest)) :
    rest.length < s.length := by
  unfold readToken? at h
  split at h
  · simp at h
  · next c r =>
    split at h
    · simp only [Option.some.injEq, Prod.mk.injEq] at h
      obtain ⟨-, rfl⟩ := h
      simp
    · split at h
      · simp only [Option.map_eq_some_iff, Prod.mk.injEq] at h
        obtain ⟨⟨l, u⟩, hl, -, rfl⟩ := h
        have := length_of_readString? hl
        simp only [List.length_cons]
        omega
      · split at h
        · exact length_of_readName? h
        · simp only [Option.map_eq_some_iff, Prod.mk.injEq] at h
          obtain ⟨⟨n, u⟩, hn, -, rfl⟩ := h
          obtain ⟨h1, h2⟩ := eq_of_readNumber? hn
          rw [h1, List.length_append]
          have := List.length_pos_iff.2 h2
          dsimp only
          omega

def tokens? (s : Text) : Option (List Token) :=
  match s with
  | [] => some []
  | c :: r =>
      if Text.isSpace c then tokens? r
      else
        match h : readToken? (c :: r) with
        | none => none
        | some (t, rest) =>
            have : rest.length < r.length + 1 := length_of_readToken? h
            (tokens? rest).map (t :: ·)
termination_by s.length

end AttributeCss.Json
