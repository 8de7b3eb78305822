/-
The text of a string.

A string holds its characters as themselves or as code units by number, and a
character above U+FFFF is two of these.  `s.Spells t` is said without reading:
it goes over the characters of the text, each in one of the two ways.  The string
is then read as that text (`text?_of_spells`).
-/
import AttributeCss.Json.Value

namespace AttributeCss.Json.Literal

/-- The code units of a character: itself, or two halves above U+FFFF. -/
def codeUnits (c : Char) : List Nat :=
  if c.toNat < 0x10000 then [c.toNat]
  else [0xD800 + (c.toNat - 0x10000) / 0x400, 0xDC00 + (c.toNat - 0x10000) % 0x400]

/-- The string stands for the text: it holds each character as itself or by its code units. -/
inductive Spells : Literal → Text → Prop
  | nil : Spells [] []
  | char {c : Char} {s : Literal} {t : Text} : Spells s t → Spells (.char c :: s) (c :: t)
  | code {c : Char} {s : Literal} {t : Text} : Spells s t →
      Spells ((codeUnits c).map StringUnit.code ++ s) (c :: t)

theorem spells_ofText (t : Text) : (ofText t).Spells t := by
  induction t with
  | nil => exact .nil
  | cons _ _ ih => exact .char ih

theorem text?_code {c : Char} (h : c.toNat < 0x10000) (s : Literal) :
    text? (.code c.toNat :: s) = (text? s).map (c :: ·) := by
  have hvalid : c.toNat < 0xD800 ∨ 0xDFFF < c.toNat ∧ c.toNat < 0x110000 := c.valid
  have hlead : isLead c.toNat = false := by
    simp only [isLead, Bool.and_eq_false_iff, decide_eq_false_iff_not]
    omega
  have htrail : isTrail c.toNat = false := by
    simp only [isTrail, Bool.and_eq_false_iff, decide_eq_false_iff_not]
    omega
  cases s with
  | nil => simp [text?, hlead, htrail]
  | cons x s => cases x <;> simp [text?, hlead, htrail]

theorem text?_halves {c : Char} (h : ¬ c.toNat < 0x10000) (s : Literal) :
    text? (.code (0xD800 + (c.toNat - 0x10000) / 0x400) ::
      .code (0xDC00 + (c.toNat - 0x10000) % 0x400) :: s) = (text? s).map (c :: ·) := by
  have hvalid : c.toNat < 0xD800 ∨ 0xDFFF < c.toNat ∧ c.toNat < 0x110000 := c.valid
  have hlead : isLead (0xD800 + (c.toNat - 0x10000) / 0x400) = true := by
    simp only [isLead, Bool.and_eq_true, decide_eq_true_eq]
    omega
  have htrail : isTrail (0xDC00 + (c.toNat - 0x10000) % 0x400) = true := by
    simp only [isTrail, Bool.and_eq_true, decide_eq_true_eq]
    omega
  have hnumber : 0x10000 + (0xD800 + (c.toNat - 0x10000) / 0x400 - 0xD800) * 0x400 +
      (0xDC00 + (c.toNat - 0x10000) % 0x400 - 0xDC00) = c.toNat := by omega
  rw [text?, if_pos hlead, if_pos htrail, paired, hnumber, Char.ofNat_toNat]

theorem text?_codeUnits (c : Char) (s : Literal) :
    text? ((codeUnits c).map StringUnit.code ++ s) = (text? s).map (c :: ·) := by
  rw [codeUnits]
  split
  · next h => exact text?_code h s
  · next h => exact text?_halves h s

theorem text?_of_spells {s : Literal} {t : Text} (h : s.Spells t) : s.text? = some t := by
  induction h with
  | nil => rfl
  | char _ ih =>
      rw [text?, ih]
      rfl
  | code _ ih =>
      rw [text?_codeUnits, ih]
      rfl

end AttributeCss.Json.Literal
