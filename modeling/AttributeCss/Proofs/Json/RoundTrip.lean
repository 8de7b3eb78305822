/-
A written document is read back.

What is written is a text of the grammar (`Value.writtenAs_write`), and is read as
all of these are.  What comes back is the document, but for one thing: a control
character that has no letter was written by its number, and comes back as that
number (`Value.reread`).  The text of a string is the same either way.
-/
import AttributeCss.Json.Writer
import AttributeCss.Proofs.Json.Grammar
import AttributeCss.Proofs.Json.Spelled

namespace AttributeCss.Json

/-! ## Strings -/

/-- A control character that is written by its number. -/
def isNumbered (c : Char) : Bool :=
  c.toNat < 32 && !(['\x08', '\x0c', '\n', '\r', '\t'] : List Char).contains c

/-- The unit of a string that comes back for one that was written. -/
def StringUnit.reread : StringUnit → StringUnit
  | char c => if isNumbered c then code c.toNat else char c
  | code n => code n

theorem writtenAs_writeCode {n : Nat} (h : n < 65536) :
    (StringUnit.code n).WrittenAs (writeCode n) := by
  have hdigit : ∀ m, IsHexDigit (m % 16) (Nat.digitChar (m % 16)) :=
    fun m => ⟨Nat.mod_lt m (by decide), Or.inl rfl⟩
  have hcode := StringUnit.WrittenAs.code (hdigit (n / 4096)) (hdigit (n / 256))
    (hdigit (n / 16)) (hdigit n)
  have hnumber : ((n / 4096 % 16 * 16 + n / 256 % 16) * 16 + n / 16 % 16) * 16 + n % 16 = n := by
    omega
  rwa [hnumber] at hcode

theorem writtenAs_writeChar (c : Char) : (StringUnit.char c).reread.WrittenAs (writeChar c) := by
  by_cases hquote : c = Text.quoteMark ∨ c = Text.backslash
  · rcases hquote with rfl | rfl <;> exact .letter (by decide)
  · by_cases hletter : c ∈ ['\x08', '\x0c', '\n', '\r', '\t']
    · simp only [List.mem_cons, List.not_mem_nil, or_false] at hletter
      rcases hletter with rfl | rfl | rfl | rfl | rfl <;> exact .letter (by decide)
    · have hmarks : (c = Text.quoteMark || c = Text.backslash) = false := by simpa using hquote
      have hletters := hletter
      simp only [List.mem_cons, List.not_mem_nil, or_false, not_or] at hletters
      obtain ⟨hb, hf, hn, hr, ht⟩ := hletters
      simp only [writeChar, hmarks, hb, hf, hn, hr, ht, Bool.false_eq_true, if_false]
      by_cases hcontrol : c.toNat < 32
      · have hnumbered : isNumbered c = true := by simpa [isNumbered, hcontrol] using hletter
        rw [if_pos hcontrol, StringUnit.reread, if_pos hnumbered]
        exact writtenAs_writeCode (by omega)
      · have hplain : isNumbered c = false := by simp [isNumbered, hcontrol]
        obtain ⟨hne, hneback⟩ := not_or.mp hquote
        rw [if_neg hcontrol, StringUnit.reread, if_neg (by simp [hplain])]
        exact .plain hne hneback (Nat.not_lt.mp hcontrol)

namespace Literal

/-- All numbers in the string are those of code units. -/
def Sized (s : Literal) : Prop := ∀ n, .code n ∈ s → n < 65536

theorem sized_ofText (t : Text) : (ofText t).Sized := by
  intro n hn
  obtain ⟨c, -, hc⟩ := List.mem_map.mp hn
  cases hc

/-- The string that comes back for one that was written. -/
def reread (s : Literal) : Literal := s.map StringUnit.reread

theorem writtenAs_write {s : Literal} (hs : s.Sized) :
    s.reread.WrittenAs (s.flatMap StringUnit.write) := by
  induction s with
  | nil => exact .nil
  | cons x s ih =>
      have hrest := ih fun n hn => hs n (List.mem_cons_of_mem _ hn)
      rw [List.flatMap_cons]
      cases x with
      | char c => exact .cons (writtenAs_writeChar c) hrest
      | code n => exact .cons (writtenAs_writeCode (hs n List.mem_cons_self)) hrest

theorem spells_reread (t : Text) : (reread (ofText t)).Spells t := by
  induction t with
  | nil => exact .nil
  | cons c t ih =>
      show Spells ((StringUnit.char c).reread :: reread (ofText t)) _
      rw [StringUnit.reread]
      split
      · next hnumbered =>
          have hsmall : c.toNat < 0x10000 := by
            simp only [isNumbered, Bool.and_eq_true, decide_eq_true_eq] at hnumbered
            omega
          have hcode := Spells.code (c := c) ih
          rwa [codeUnits, if_pos hsmall] at hcode
      · exact .char ih

theorem text?_reread (t : Text) : text? (reread (ofText t)) = some t :=
  text?_of_spells (spells_reread t)

end Literal

/-! ## Documents that can be written -/

/-- All numbers of the document are written as numbers are. -/
inductive Value.Writable : Value → Prop
  | null : Writable .null
  | bool (b : Bool) : Writable (.bool b)
  | number {n : Text} : readNumber? n = some (n, []) → Writable (.number n)
  | string {s : Literal} : s.Sized → Writable (.string s)
  | array {items : List Value} : (∀ v ∈ items, Writable v) → Writable (.array items)
  | object {members : List (Literal × Value)} : (∀ m ∈ members, m.1.Sized) →
      (∀ m ∈ members, Writable m.2) → Writable (.object members)

theorem Value.writable_ofText (t : Text) : (Value.ofText t).Writable :=
  .string (Literal.sized_ofText t)

theorem eq_zero_of_numeral_head? {n : Nat} (h : (Text.numeral n).head? = some '0') : n = 0 := by
  induction n using Nat.strongRecOn with
  | ind n ih =>
      rcases Nat.lt_or_ge n 10 with hsmall | hlarge
      · rw [Text.numeral, Nat.toDigits_of_lt_base hsmall] at h
        exact Nat.digitChar_eq_zero.mp (Option.some.inj h)
      · -- the first digit is that of a tenth of the number
        have hhead : (Text.numeral (n / 10)).head? = some '0' := by
          rw [Text.numeral, Nat.toDigits_of_base_le (by decide) hlarge, List.head?_append] at h
          rcases Option.or_eq_some_iff.mp h with h | ⟨hnone, -⟩
          · exact h
          · exact absurd (List.head?_eq_none_iff.mp hnone) Nat.toDigits_ne_nil
        have htenth := ih (n / 10) (by omega) hhead
        omega

theorem readNumber?_of_isNumeral {n : Text} (hn : Text.isNumeral n = true)
    (hzero : n.head? = some '0' → n = ['0']) : readNumber? n = some (n, []) := by
  obtain ⟨hne, hdigits⟩ := (Bool.and_eq_true ..).mp hn
  obtain ⟨c, r, rfl⟩ := List.exists_cons_of_ne_nil (l := n) (by simpa using hne)
  have hall : ∀ d ∈ c :: r, d.isDigit = true := List.all_eq_true.mp hdigits
  have hminus : c ≠ '-' := by
    rintro rfl
    exact absurd (hall '-' List.mem_cons_self) (by decide)
  have hwhole : readWhole? (c :: r) = some (c :: r, []) := by
    by_cases hc : c = '0'
    · subst hc
      rw [hzero rfl]
      rfl
    · rw [readWhole?_cons_of_ne hc]
      exact readDigits?_eq_some_iff.mpr
        ⟨(List.append_nil _).symm, List.cons_ne_nil c r, hall, nofun⟩
  simp [readNumber?, readMinus, hminus, hwhole, readFraction?, readExponent?]

theorem Value.writable_ofNat (n : Nat) : (Value.ofNat n).Writable := by
  refine .number (readNumber?_of_isNumeral (Text.isNumeral_numeral n) fun hzero => ?_)
  rw [eq_zero_of_numeral_head? hzero]
  rfl

mutual

/-- The document that comes back for one that was written. -/
def Value.reread : Value → Value
  | .null => .null
  | .bool b => .bool b
  | .number n => .number n
  | .string s => .string s.reread
  | .array items => .array (rereadItems items)
  | .object members => .object (rereadMembers members)

def rereadItems : List Value → List Value
  | [] => []
  | v :: r => v.reread :: rereadItems r

def rereadMembers : List (Literal × Value) → List (Literal × Value)
  | [] => []
  | m :: r => rereadMember m :: rereadMembers r

def rereadMember : Literal × Value → Literal × Value
  | (k, v) => (k.reread, v.reread)

end

/-! ## What is written is a text of the grammar -/

theorem Value.PaddedAs.of_writtenAs {v : Value} {t : Text} (h : v.WrittenAs t) : v.PaddedAs t := by
  have hpadded := Value.PaddedAs.mk gap_nil h gap_nil
  rwa [List.nil_append, List.append_nil] at hpadded

theorem memberWrittenAs_write {k : Literal} (hk : k.Sized) {v : Value} {t : Text}
    (hv : v.WrittenAs t) : MemberWrittenAs (k.reread, v) (k.write ++ ':' :: t) := by
  have hmember := MemberWrittenAs.mk gap_nil (Literal.writtenAs_write hk) gap_nil (.of_writtenAs hv)
  simpa [Literal.write] using hmember

mutual

theorem Value.writtenAs_write : ∀ {v : Value}, v.Writable → v.reread.WrittenAs v.write
  | .null, _ => .null
  | .bool true, _ => .yes
  | .bool false, _ => .no
  | .number _, .number hn => .number (isNumber_of_readNumber? hn)
  | .string _, .string hs => .string (Literal.writtenAs_write hs)
  | .array _, .array hitems => .array (itemsWrittenAs_write hitems)
  | .object _, .object hkeys hvalues => .object (membersWrittenAs_write hkeys hvalues)

theorem itemsWrittenAs_write : ∀ {items : List Value}, (∀ v ∈ items, v.Writable) →
    ItemsWrittenAs (rereadItems items) (writeItems items)
  | [], _ => .none gap_nil
  | [v], h => .last (.of_writtenAs (Value.writtenAs_write (h v List.mem_cons_self)))
  | v :: w :: r, h => by
      have hv := Value.writtenAs_write (h v List.mem_cons_self)
      exact .more (.of_writtenAs hv)
        (itemsWrittenAs_write fun x hx => h x (List.mem_cons_of_mem v hx))

theorem membersWrittenAs_write : ∀ {members : List (Literal × Value)},
    (∀ m ∈ members, m.1.Sized) → (∀ m ∈ members, m.2.Writable) →
    MembersWrittenAs (rereadMembers members) (writeMembers members)
  | [], _, _ => .none gap_nil
  | [(k, v)], hkeys, hvalues => by
      have hv := Value.writtenAs_write (hvalues (k, v) List.mem_cons_self)
      exact .last (memberWrittenAs_write (hkeys (k, v) List.mem_cons_self) hv)
  | (k, v) :: m :: r, hkeys, hvalues => by
      have hv := Value.writtenAs_write (hvalues (k, v) List.mem_cons_self)
      exact .more (memberWrittenAs_write (hkeys (k, v) List.mem_cons_self) hv)
        (membersWrittenAs_write (fun x hx => hkeys x (List.mem_cons_of_mem (k, v) hx))
          fun x hx => hvalues x (List.mem_cons_of_mem (k, v) hx))

end

/-- **A written document is read back.** -/
theorem Value.read?_write {v : Value} (hv : v.Writable) : read? v.write = some v.reread :=
  read?_of_paddedAs (.of_writtenAs (writtenAs_write hv))

end AttributeCss.Json
