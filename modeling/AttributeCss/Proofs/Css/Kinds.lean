/-
Colour tokens by kind.

A token is tried as a name of the palette, then as a word, then as hex digits,
and what it turns out to be decides what its value looks like:

    deep       rgba(44,150,255,1)    the channels of the palette's colour
    inherit    inherit               a word is taken for a CSS keyword
    2c96ff     rgba(44,150,255,1)    the digits are the channels, two by two
    2c9        #2c9
    deep2      rgba(0,132,255,1)     none of these: the primary colour

The order matters where the classes overlap.  A word may be spelled in hex
digits alone, as `facade` is and `fff`; it is a word all the same, and gets
neither channels nor a hash.

Reading the digits of a colour is the inverse of writing them (`Rgb.hex`).
-/
import AttributeCss.Css.Declarations

namespace AttributeCss.Css

/-! ## Hex digits -/

/-- The sixteen digits of hex colours. -/
def hexDigits : Text := "0123456789abcdef"

/-- The two hex digits of a channel. -/
def hexPair (n : Nat) : Text := [Nat.digitChar (n / 16), Nat.digitChar (n % 16)]

theorem isHexDigit_digitChar : ∀ n < 16, isHexDigit (Nat.digitChar n) = true := by decide

theorem hexDigitValue_digitChar : ∀ n < 16, hexDigitValue (Nat.digitChar n) = n := by decide

theorem digitChar_hexDigitValue {c : Char} (h : isHexDigit c = true) :
    hexDigitValue c < 16 ∧ Nat.digitChar (hexDigitValue c) = c := by
  cases hdigit : c.isDigit with
  | true =>
      obtain ⟨hfirst, hlast⟩ : 48 ≤ c.toNat ∧ c.toNat ≤ 57 := Char.isDigit_iff_toNat.mp hdigit
      have hvalue : hexDigitValue c = c.toNat - 48 := if_pos hdigit
      have hsmall : c.toNat - 48 < 10 := by omega
      refine ⟨by omega, Char.toNat_inj.mp ?_⟩
      rw [hvalue, Nat.toNat_digitChar_of_lt_ten hsmall]
      omega
  | false =>
      have hletter : 'a' ≤ c ∧ c ≤ 'f' := by simpa [isHexDigit, hdigit] using h
      obtain ⟨hfirst, hlast⟩ : 97 ≤ c.toNat ∧ c.toNat ≤ 102 := hletter
      have hvalue : hexDigitValue c = c.toNat - 97 + 10 := if_neg (by simp [hdigit])
      have hdigits : ∀ m < 6, (Nat.digitChar (m + 10)).toNat = m + 97 := by decide
      refine ⟨by omega, Char.toNat_inj.mp ?_⟩
      rw [hvalue, hdigits _ (by omega)]
      omega

theorem mem_hexDigits {c : Char} : c ∈ hexDigits ↔ isHexDigit c = true := by
  constructor
  · have hall : hexDigits.all isHexDigit = true := by decide
    exact List.all_eq_true.mp hall c
  · intro h
    obtain ⟨hsmall, hdigit⟩ := digitChar_hexDigitValue h
    have hall : ∀ n < 16, Nat.digitChar n ∈ hexDigits := by decide
    exact hdigit ▸ hall _ hsmall

theorem hexPair_of_digits {a b : Char} (ha : isHexDigit a = true) (hb : isHexDigit b = true) :
    hexPair (16 * hexDigitValue a + hexDigitValue b) = [a, b] := by
  obtain ⟨-, hfirst⟩ := digitChar_hexDigitValue ha
  obtain ⟨hsmall, hsecond⟩ := digitChar_hexDigitValue hb
  have hquotient : (16 * hexDigitValue a + hexDigitValue b) / 16 = hexDigitValue a := by omega
  have hremainder : (16 * hexDigitValue a + hexDigitValue b) % 16 = hexDigitValue b := by omega
  rw [hexPair, hquotient, hremainder, hfirst, hsecond]

namespace Rgb

/-! ## Channels -/

/-- Every channel of the colour is below 256. -/
structure InRange (c : Rgb) : Prop where
  r : c.r < 256
  g : c.g < 256
  b : c.b < 256

/-- The six hex digits of a colour. -/
def hex (c : Rgb) : Text := hexPair c.r ++ hexPair c.g ++ hexPair c.b

/-- The colour at a tint depth, or unchanged if none is given. -/
def shaded (depth : Option Nat) (c : Rgb) : Rgb :=
  match depth with
  | none => c
  | some d => c.tint d

theorem tintChannel_lt (depth : Nat) {channel : Nat} (h : channel < 256) :
    tintChannel depth channel < 256 := by
  have hwhite : (255 - channel) * (100 - min depth 100) ≤ (255 - channel) * 100 :=
    Nat.mul_le_mul_left _ (Nat.sub_le _ _)
  unfold tintChannel
  omega

theorem InRange.shaded {c : Rgb} (h : c.InRange) (depth : Option Nat) :
    (c.shaded depth).InRange := by
  cases depth with
  | none => exact h
  | some d => exact ⟨tintChannel_lt d h.r, tintChannel_lt d h.g, tintChannel_lt d h.b⟩

theorem digits_hexPair {n : Nat} (h : n < 256) : isHexDigit (Nat.digitChar (n / 16)) = true ∧
    isHexDigit (Nat.digitChar (n % 16)) = true ∧
    16 * hexDigitValue (Nat.digitChar (n / 16)) + hexDigitValue (Nat.digitChar (n % 16)) = n := by
  have hquotient : n / 16 < 16 := by omega
  have hremainder : n % 16 < 16 := by omega
  refine ⟨isHexDigit_digitChar _ hquotient, isHexDigit_digitChar _ hremainder, ?_⟩
  rw [hexDigitValue_digitChar _ hquotient, hexDigitValue_digitChar _ hremainder]
  omega

theorem ofHex?_hex {c : Rgb} (h : c.InRange) : ofHex? ('#' :: c.hex) = some c := by
  obtain ⟨hr, hr', hred⟩ := digits_hexPair h.r
  obtain ⟨hg, hg', hgreen⟩ := digits_hexPair h.g
  obtain ⟨hb, hb', hblue⟩ := digits_hexPair h.b
  simp only [hex, hexPair, List.cons_append, List.nil_append, ofHex?, List.all_cons, List.all_nil,
    hr, hr', hg, hg', hb, hb', Bool.and_self, if_true, hred, hgreen, hblue]

theorem eq_of_ofHex? {t : Text} {c : Rgb} (h : ofHex? t = some c) :
    c.InRange ∧ t = '#' :: c.hex := by
  unfold ofHex? at h
  split at h
  · next a b d e f g =>
      split at h
      · next hall =>
          simp only [List.all_cons, List.all_nil, Bool.and_true, Bool.and_eq_true] at hall
          obtain ⟨ha, hb, hd, he, hf, hg⟩ := hall
          obtain rfl := Option.some.inj h
          have hchannel {x y : Char} (hx : isHexDigit x = true) (hy : isHexDigit y = true) :
              16 * hexDigitValue x + hexDigitValue y < 256 := by
            have hhigh := (digitChar_hexDigitValue hx).1
            have hlow := (digitChar_hexDigitValue hy).1
            omega
          refine ⟨⟨hchannel ha hb, hchannel hd he, hchannel hf hg⟩, ?_⟩
          rw [hex, hexPair_of_digits ha hb, hexPair_of_digits hd he, hexPair_of_digits hf hg]
          rfl
      · cases h
  · cases h

end Rgb

/-! ## Kinds -/

/-- A word: ASCII letters, at least one. -/
def IsWord (t : Text) : Prop := t ≠ [] ∧ ∀ c ∈ t, c.isAlpha = true

/-- A text of a number of hex digits. -/
def IsHex (n : Nat) (t : Text) : Prop := t.length = n ∧ ∀ c ∈ t, c ∈ hexDigits

instance (t : Text) : Decidable (IsWord t) :=
  decidable_of_iff ((!t.isEmpty && t.all Char.isAlpha) = true) (by simp [IsWord])

instance (n : Nat) (t : Text) : Decidable (IsHex n t) :=
  decidable_of_iff ((t.length == n && t.all hexDigits.contains) = true) (by simp [IsHex])

variable {t : Text}

theorem isHex_iff {n : Nat} : IsHex n t ↔ t.length = n ∧ t.all isHexDigit = true := by
  simp only [IsHex, mem_hexDigits, List.all_eq_true]

theorem exists_hex_of_isHex (h : IsHex 6 t) : ∃ c : Rgb, c.InRange ∧ t = c.hex := by
  obtain ⟨hlength, hdigits⟩ := isHex_iff.mp h
  obtain ⟨a, b, d, e, f, g, rfl⟩ : ∃ a b d e f g, t = [a, b, d, e, f, g] := by
    match t, hlength with
    | [a, b, d, e, f, g], _ => exact ⟨a, b, d, e, f, g, rfl⟩
  have hread : ∃ c, Rgb.ofHex? ('#' :: [a, b, d, e, f, g]) = some c := ⟨_, if_pos hdigits⟩
  obtain ⟨c, hc⟩ := hread
  obtain ⟨hrange, heq⟩ := Rgb.eq_of_ofHex? hc
  exact ⟨c, hrange, (List.cons.inj heq).2⟩

theorem resolveColor_of_mem {color : Text} (h : (t, color) ∈ palette) : resolveColor t = color := by
  have hlookup : ∀ p ∈ palette, palette.lookup p.1 = some p.2 := by decide
  simp only [resolveColor, hlookup _ h]

theorem exists_hex_of_mem {color : Text} (h : (t, color) ∈ palette) :
    ∃ c : Rgb, c.InRange ∧ color = '#' :: c.hex := by
  have hread : ∀ p ∈ palette, (Rgb.ofHex? p.2).isSome = true := by decide
  obtain ⟨c, hc⟩ := Option.isSome_iff_exists.mp (hread _ h)
  exact ⟨c, Rgb.eq_of_ofHex? hc⟩

/-! ## Values -/

theorem colorValue_of_hex {c : Rgb} (hc : c.InRange) (h : resolveColor t = '#' :: c.hex)
    (depth opacity : Option Nat) :
    colorValue t depth opacity = (c.shaded depth).write (opacity.getD 100) := by
  simp only [colorValue, h, Rgb.ofHex?_hex hc]
  cases depth <;> rfl

/-- A token that stands for no such colour has what it stands for as its value. -/
theorem colorValue_of_not_hex {color : Text} (h : resolveColor t = color)
    (hcolor : Rgb.ofHex? color = none) (depth opacity : Option Nat) :
    colorValue t depth opacity = color := by
  simp only [colorValue, h, hcolor]

theorem ofHex?_of_length (h : t.length ≠ 7) : Rgb.ofHex? t = none := by
  refine Option.eq_none_iff_forall_ne_some.mpr fun c hc => h ?_
  obtain ⟨-, rfl⟩ := Rgb.eq_of_ofHex? hc
  rfl

theorem ofHex?_of_isWord (h : IsWord t) : Rgb.ofHex? t = none := by
  refine Option.eq_none_iff_forall_ne_some.mpr fun c hc => ?_
  obtain ⟨-, rfl⟩ := Rgb.eq_of_ofHex? hc
  exact absurd (h.2 '#' List.mem_cons_self) (by decide)

section NotNamed

variable (hnamed : t ∉ palette.map Prod.fst)

include hnamed

theorem lookup_eq_none : palette.lookup t = none := by
  rw [List.lookup_eq_none_iff]
  intro p hp
  rw [bne_iff_ne]
  rintro rfl
  exact hnamed (List.mem_map_of_mem hp)

theorem colorValue_of_isWord (h : IsWord t) (depth opacity : Option Nat) :
    colorValue t depth opacity = t := by
  have hword : (!t.isEmpty && t.all Char.isAlpha) = true := by simpa [IsWord] using h
  have hresolved : resolveColor t = t := by
    simp only [resolveColor, lookup_eq_none hnamed, if_pos hword]
  exact colorValue_of_not_hex hresolved (ofHex?_of_isWord h) depth opacity

variable (hword : ¬ IsWord t)

include hword

theorem resolveColor_of_not_isWord : resolveColor t =
    if IsHex 6 t ∨ IsHex 3 t then '#' :: t else fallbackColor := by
  have hnoWord : ¬ (!t.isEmpty && t.all Char.isAlpha) = true := by simpa [IsWord] using hword
  simp only [resolveColor, lookup_eq_none hnamed, if_neg hnoWord]
  congr 1
  simp only [isHex_iff, Bool.and_eq_true, Bool.or_eq_true, decide_eq_true_eq, eq_iff_iff]
  rw [← or_and_right, or_comm]

theorem exists_colorValue_of_isHex (hsix : IsHex 6 t) : ∃ c : Rgb, c.InRange ∧ t = c.hex ∧
    ∀ depth opacity, colorValue t depth opacity = (c.shaded depth).write (opacity.getD 100) := by
  have hresolved := resolveColor_of_not_isWord hnamed hword
  rw [if_pos (Or.inl hsix)] at hresolved
  obtain ⟨c, hc, rfl⟩ := exists_hex_of_isHex hsix
  exact ⟨c, hc, rfl, colorValue_of_hex hc hresolved⟩

theorem colorValue_of_isHex_three (hthree : IsHex 3 t) (depth opacity : Option Nat) :
    colorValue t depth opacity = '#' :: t := by
  have hresolved := resolveColor_of_not_isWord hnamed hword
  rw [if_pos (Or.inr hthree)] at hresolved
  exact colorValue_of_not_hex hresolved (ofHex?_of_length (by simp [hthree.1])) depth opacity

theorem colorValue_of_not_isHex (hsix : ¬ IsHex 6 t) (hthree : ¬ IsHex 3 t)
    (depth opacity : Option Nat) :
    colorValue t depth opacity = colorValue "primary" depth opacity := by
  have hresolved := resolveColor_of_not_isWord hnamed hword
  rw [if_neg (not_or.mpr ⟨hsix, hthree⟩)] at hresolved
  have hprimary : resolveColor "primary" = fallbackColor := by decide
  simp only [colorValue, hresolved, hprimary]

end NotNamed

/-- **Colour tokens resolve by kind.**  A name of the palette has the channels of its colour, at the
tint depth given.  Of the other tokens a word is its own value; and of those that are no word, six
hex digits are a colour of their own, three get a hash, and all the rest have the value of the
primary colour. -/
theorem colorValue_by_kind (t : Text) (depth opacity : Option Nat) :
    let value := colorValue t depth opacity
    let rgba (c : Rgb) : Text := "rgba(" ++ Text.numeral c.r ++ ',' :: Text.numeral c.g ++
      ',' :: Text.numeral c.b ++ ',' :: Text.hundredths (min (opacity.getD 100) 100) ++ [')']
    (∀ color, (t, color) ∈ palette → ∃ c : Rgb, c.InRange ∧ color = '#' :: c.hex ∧
      (c.shaded depth).InRange ∧ value = rgba (c.shaded depth)) ∧
    (t ∉ palette.map Prod.fst →
      (IsWord t → value = t) ∧
      (¬ IsWord t →
        (IsHex 6 t → ∃ c : Rgb, c.InRange ∧ t = c.hex ∧
          (c.shaded depth).InRange ∧ value = rgba (c.shaded depth)) ∧
        (IsHex 3 t → value = '#' :: t) ∧
        (¬ IsHex 6 t → ¬ IsHex 3 t → value = colorValue "primary" depth opacity))) := by
  intro value rgba
  refine ⟨fun color hcolor => ?_, fun hnamed => ⟨fun hword => ?_, fun hword => ?_⟩⟩
  · obtain ⟨c, hc, rfl⟩ := exists_hex_of_mem hcolor
    have hresolved := resolveColor_of_mem hcolor
    exact ⟨c, hc, rfl, hc.shaded depth, colorValue_of_hex hc hresolved depth opacity⟩
  · exact colorValue_of_isWord hnamed hword depth opacity
  · refine ⟨fun hsix => ?_, fun hthree => ?_, fun hsix hthree => ?_⟩
    · obtain ⟨c, hc, hdigits, hvalue⟩ := exists_colorValue_of_isHex hnamed hword hsix
      exact ⟨c, hc, hdigits, hc.shaded depth, hvalue depth opacity⟩
    · exact colorValue_of_isHex_three hnamed hword hthree depth opacity
    · exact colorValue_of_not_isHex hnamed hword hsix hthree depth opacity

/-- Six digits with a letter among them at half depth, a word of three, and a name of the palette
with a digit behind it. -/
theorem colorValue_by_kind_overlapping :
    IsHex 6 "2c96ff" ∧ ¬ IsWord "2c96ff" ∧
      (∃ c : Rgb, "2c96ff".toList = c.hex ∧ colorValue "2c96ff" (some 50) (some 250) =
        (c.shaded (some 50)).write 100) ∧
      IsHex 3 "fff" ∧ IsWord "fff" ∧ colorValue "fff" none none = "fff" ∧
      colorValue "deep2" none none = colorValue "primary" none none := by
  have hdigits := (colorValue_by_kind "2c96ff" (some 50) (some 250)).2 (by decide)
  have hword := (colorValue_by_kind "fff" none none).2 (by decide)
  have hrest := ((colorValue_by_kind "deep2" none none).2 (by decide)).2 (by decide)
  obtain ⟨c, -, hc, -, hvalue⟩ := (hdigits.2 (by decide)).1 (by decide)
  exact ⟨by decide, by decide, ⟨c, hc, hvalue⟩, by decide, by decide, hword.1 (by decide),
    hrest.2.2 (by decide) (by decide)⟩

/-- Six hex digits that are all letters make a word: their value is no colour with channels. -/
theorem not_rgba_of_letters :
    "abcdef".toList ∉ palette.map Prod.fst ∧ IsHex 6 "abcdef" ∧
      ¬ "rgba(".toList <+: colorValue "abcdef" none none := by
  decide

end AttributeCss.Css
