/-
Text as the library handles it, and the few cuts every other module makes.

Text is a list of characters: a reader is then a recursion on a list, and
what it returns of its input is a statement about `++`.  Three kinds of cut
occur: at the first or last occurrence of a character, into all the pieces
between occurrences, and behind a fixed lead.

Files and variables hold bytes: a text is stored in UTF-8, and bytes that are
not UTF-8 stand for no text.  Naturals are read and written with the core
library's digit functions, and a number of hundredths is written as the
shortest decimal with its value.
-/
namespace AttributeCss

abbrev Text := List Char

/-- A string literal may stand where text is expected. -/
instance : Coe String Text := ⟨String.toList⟩

namespace Text

def quoteMark : Char := '\x22'

def apostrophe : Char := '\x27'

def backslash : Char := '\x5c'

/-- Cuts at the first `c`, which belongs to neither part. -/
def cutFirst (c : Char) : Text → Option (Text × Text)
  | [] => none
  | d :: r =>
      if d = c then some ([], r)
      else (cutFirst c r).map fun (before, after) => (d :: before, after)

/-- Cuts at the last `c`, which belongs to neither part. -/
def cutLast (c : Char) : Text → Option (Text × Text)
  | [] => none
  | d :: r =>
      match cutLast c r with
      | some (before, after) => some (d :: before, after)
      | none => if d = c then some ([], r) else none

/-- The text behind `lead`, if the text starts with it. -/
def behind? (lead : Text) (t : Text) : Option Text :=
  lead.isPrefixOf? t

/-- Cuts before the first place where `mark` stands; the second part starts with `mark`. -/
def cutBefore (mark : Text) : Text → Option (Text × Text)
  | [] => if mark.isEmpty then some ([], []) else none
  | c :: r =>
      if mark.isPrefixOf (c :: r) then some ([], c :: r)
      else (cutBefore mark r).map fun (before, rest) => (c :: before, rest)

/-- The text up to and including the last `mark` in it. -/
def throughLast? (mark : Text) : Text → Option Text
  | [] => if mark.isEmpty then some [] else none
  | c :: r =>
      match throughLast? mark r with
      | some t => some (c :: t)
      | none => if mark.isPrefixOf (c :: r) then some mark else none

/-- The non-empty pieces of a text between space characters. -/
def words (t : Text) : List Text :=
  (t.splitOn ' ').filter fun w => !w.isEmpty

def isLetter (c : Char) : Bool := c.isAlpha

/-- The number of bytes the text takes in UTF-8. -/
def byteWidth : Text → Nat
  | [] => 0
  | c :: r => c.utf8Size + byteWidth r

/-! ## Nothing is lost in a cut -/

theorem eq_of_cutFirst {c : Char} {t a b : Text} (h : cutFirst c t = some (a, b)) :
    t = a ++ c :: b ∧ c ∉ a := by
  induction t generalizing a b with
  | nil => simp [cutFirst] at h
  | cons d r ih =>
    by_cases hd : d = c
    · simp [cutFirst, hd] at h
      obtain ⟨rfl, rfl⟩ := h
      simp [hd]
    · simp only [cutFirst, hd, if_false, Option.map_eq_some_iff] at h
      obtain ⟨⟨x, y⟩, hxy, heq⟩ := h
      simp only [Prod.mk.injEq] at heq
      obtain ⟨rfl, rfl⟩ := heq
      obtain ⟨h1, h2⟩ := ih hxy
      refine ⟨by simp [h1], ?_⟩
      simp [h2, Ne.symm hd]

theorem cutFirst_append {c : Char} {a : Text} (b : Text) (h : c ∉ a) :
    cutFirst c (a ++ c :: b) = some (a, b) := by
  induction a with
  | nil => simp [cutFirst]
  | cons d r ih =>
    simp only [List.mem_cons, not_or] at h
    simp [cutFirst, Ne.symm h.1, ih h.2]

theorem cutFirst_eq_none {c : Char} {t : Text} : cutFirst c t = none ↔ c ∉ t := by
  induction t with
  | nil => simp [cutFirst]
  | cons d r ih =>
    by_cases hd : d = c
    · simp [cutFirst, hd]
    · simp [cutFirst, hd, ih, Ne.symm hd]

theorem eq_of_cutLast {c : Char} {t a b : Text} (h : cutLast c t = some (a, b)) :
    t = a ++ c :: b := by
  induction t generalizing a with
  | nil => simp [cutLast] at h
  | cons d r ih =>
    rw [cutLast] at h
    split at h
    · next before after hr =>
      simp only [Option.some.injEq, Prod.mk.injEq] at h
      obtain ⟨rfl, rfl⟩ := h
      rw [ih hr, List.cons_append]
    · split at h
      · next hd =>
        simp only [Option.some.injEq, Prod.mk.injEq] at h
        obtain ⟨rfl, rfl⟩ := h
        rw [hd, List.nil_append]
      · simp at h

theorem cutLast_eq_none {c : Char} {t : Text} : cutLast c t = none ↔ c ∉ t := by
  induction t with
  | nil => simp [cutLast]
  | cons d r ih =>
    cases hr : cutLast c r with
    | none => simp [cutLast, hr, ih.1 hr, eq_comm]
    | some p =>
      have hmem : c ∈ r := Decidable.not_not.1 (mt ih.2 (by simp [hr]))
      simp [cutLast, hr, hmem]

theorem cutLast_append {c : Char} (a : Text) {b : Text} (h : c ∉ b) :
    cutLast c (a ++ c :: b) = some (a, b) := by
  induction a with
  | nil => simp [cutLast, cutLast_eq_none.2 h]
  | cons d r ih => simp [cutLast, ih]

theorem eq_of_cutBefore {mark t a b : Text} (h : cutBefore mark t = some (a, b)) :
    t = a ++ b ∧ mark <+: b := by
  induction t generalizing a b with
  | nil =>
    simp only [cutBefore] at h
    split at h
    · next he =>
      simp only [Option.some.injEq, Prod.mk.injEq] at h
      obtain ⟨rfl, rfl⟩ := h
      have : mark = [] := List.isEmpty_iff.1 he
      simp [this]
    · simp at h
  | cons c r ih =>
    simp only [cutBefore] at h
    split at h
    · next hp =>
      simp only [Option.some.injEq, Prod.mk.injEq] at h
      obtain ⟨rfl, rfl⟩ := h
      exact ⟨rfl, by simpa using hp⟩
    · simp only [Option.map_eq_some_iff] at h
      obtain ⟨⟨x, y⟩, hxy, heq⟩ := h
      simp only [Prod.mk.injEq] at heq
      obtain ⟨rfl, rfl⟩ := heq
      obtain ⟨h1, h2⟩ := ih hxy
      exact ⟨by simp [h1], h2⟩

theorem behind?_nil (t : Text) : behind? [] t = some t := by
  cases t <;> rfl

theorem behind?_cons (c d : Char) (lead r : Text) :
    behind? (c :: lead) (d :: r) = if c == d then behind? lead r else none := rfl

theorem eq_of_behind? {lead t r : Text} (h : behind? lead t = some r) : t = lead ++ r := by
  induction lead generalizing t with
  | nil =>
    rw [behind?_nil] at h
    exact Option.some.inj h
  | cons c l ih =>
    cases t with
    | nil => cases h
    | cons d u =>
      rw [behind?_cons] at h
      split at h
      · next hc =>
        have hcd : c = d := by simpa using hc
        simp [hcd, ih h]
      · cases h

theorem behind?_eq_none {lead t : Text} (h : ¬ lead <+: t) : behind? lead t = none :=
  Option.eq_none_iff_forall_ne_some.2 fun r hr => h ⟨r, (eq_of_behind? hr).symm⟩

@[simp] theorem behind?_append (lead r : Text) : behind? lead (lead ++ r) = some r := by
  induction lead with
  | nil => exact behind?_nil r
  | cons c l ih => rw [List.cons_append, behind?_cons, beq_self_eq_true, if_pos rfl, ih]

@[simp] theorem byteWidth_append (a b : Text) : byteWidth (a ++ b) = byteWidth a + byteWidth b := by
  induction a with
  | nil => exact (Nat.zero_add _).symm
  | cons c r ih => rw [List.cons_append, byteWidth, byteWidth, ih, Nat.add_assoc]

/-! ## Bytes -/

def toBytes (t : Text) : ByteArray := (String.ofList t).toUTF8

/-- The text of bytes, if they are one. -/
def ofBytes? (b : ByteArray) : Option Text := b.utf8Decode?.map Array.toList

theorem toBytes_eq (t : Text) : toBytes t = t.utf8Encode := rfl

@[simp] theorem ofBytes?_toBytes (t : Text) : ofBytes? (toBytes t) = some t := by
  simp [ofBytes?, toBytes_eq]

theorem toBytes_of_ofBytes? {b : ByteArray} {t : Text} (h : ofBytes? b = some t) :
    toBytes t = b := by
  obtain ⟨chars, hchars, rfl⟩ := Option.map_eq_some_iff.mp h
  have hsome : b.utf8Decode?.isSome = true := by rw [hchars]; rfl
  have hget : b.utf8Decode?.get hsome = chars := by simp [hchars]
  rw [toBytes_eq, ← hget, ByteArray.utf8Encode_get_utf8Decode?]

/-! ## Numbers -/

/-- Every character is a digit, and there is one. -/
def isNumeral (t : Text) : Bool := !t.isEmpty && t.all Char.isDigit

/-- The number a run of digits denotes. -/
def numeralValue (t : Text) : Nat := Nat.ofDigitChars 10 t 0

def numeral (n : Nat) : Text := Nat.toDigits 10 n

/-- The shortest decimal for `n` hundredths: no zero ends its fraction, and a whole number has none. -/
def hundredths (n : Nat) : Text :=
  let whole := numeral (n / 100)
  let part := n % 100
  if part = 0 then whole
  else if part % 10 = 0 then whole ++ '.' :: numeral (part / 10)
  else whole ++ '.' :: Nat.digitChar (part / 10) :: [Nat.digitChar (part % 10)]

@[simp] theorem numeralValue_numeral (n : Nat) : numeralValue (numeral n) = n :=
  Nat.ofDigitChars_ten_toDigits

theorem isNumeral_numeral (n : Nat) : isNumeral (numeral n) = true := by
  have h : numeral n ≠ [] := Nat.toDigits_ne_nil
  simp only [isNumeral, Bool.and_eq_true, Bool.not_eq_true', List.all_eq_true]
  refine ⟨by simpa using h, fun c hc => ?_⟩
  exact Nat.isDigit_of_mem_toDigits (by decide) (by decide) hc

end Text

end AttributeCss
