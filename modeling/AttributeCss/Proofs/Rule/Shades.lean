/-
Colours behind `fc`, `bg` and `bor-c`.

A shade is a colour, perhaps with a depth behind a dash and an opacity behind a
slash.  The colour rule and the border rule read it with different pieces: the
one takes digits that may be missing, the other leaves a group out.  A colour
may end in digits itself, but no dash and no slash can stand in it, so both
split a shade in the same places (`readsFirst_colorPiece`,
`readsFirst_borderPiece`), and `colors_read_alike` says that the value is the
same everywhere.
-/
import AttributeCss.Proofs.Rule.Forms

namespace AttributeCss.Rule

open Css Piece

/-! ## Shades -/

/-- The number the digits denote, at most 100. -/
def Digits.hundredths (n : Digits) : Nat := min 100 (Nat.ofDigitChars 10 n.text 0)

/-- The digits behind a character, if there are any. -/
def behind (c : Char) : Option Digits → Text
  | none => []
  | some n => c :: n.text

/-- A colour of digits and lower-case letters, with or without depth and opacity. -/
structure Shade where
  color : Text
  depth : Option Digits
  opacity : Option Digits
  ne_nil : color ≠ []
  lower : ∀ c ∈ color, c.isDigit = true ∨ c.isLower = true

def Shade.text (s : Shade) : Text := s.color ++ (behind '-' s.depth ++ behind '/' s.opacity)

def Shade.value (s : Shade) : Text :=
  colorValue s.color (s.depth.map Digits.hundredths) (s.opacity.map Digits.hundredths)

/-- The digits, or no text if there are none. -/
def written (n : Option Digits) : Text := (n.map Digits.text).getD []

theorem hundredthsOf_text (n : Digits) : hundredthsOf n.text = some n.hundredths := by
  have hne : n.text.isEmpty = false := List.isEmpty_eq_false_iff.mpr n.ne_nil
  have hsign : n.text.head? ≠ some '+' := fun h => by
    cases n.isDigit_of_mem (List.mem_of_mem_head? h)
  have hbody : hundredthsOf n.text =
      if Text.isNumeral n.text && Text.numeralValue n.text < Nat.pow 2 32 then
        some (min (Text.numeralValue n.text) 100)
      else some 100 := by
    unfold hundredthsOf
    rw [hne]
    split
    · next h => cases h
    · split
      · next r heq => exact absurd (congrArg List.head? heq) hsign
      · rfl
  rw [hbody, n.numeral, Digits.hundredths, Text.numeralValue]
  by_cases hsmall : Nat.ofDigitChars 10 n.text 0 < Nat.pow 2 32
  · simp [hsmall, Nat.min_comm]
  · -- a number of more than 32 bits counts as 100, which is its least with 100
    have hlarge : min 100 (Nat.ofDigitChars 10 n.text 0) = 100 := by
      have hbound : 100 ≤ Nat.pow 2 32 := by decide
      omega
    simp [hsmall, hlarge]

theorem hundredthsOf_written (n : Option Digits) :
    hundredthsOf (written n) = n.map Digits.hundredths := by
  cases n with
  | none => rfl
  | some n => exact hundredthsOf_text n

/-! ## How shades are read -/

/-- Behind a depth or an opacity no class of characters goes on that its mark is not in. -/
theorem stops_behind {p : Char → Bool} {c : Char} (hc : p c = false) (n : Option Digits)
    {rest : Text} (hrest : Text.Stops p rest) : Text.Stops p (behind c n ++ rest) := by
  cases n with
  | none => exact hrest
  | some n => exact Text.stops_cons _ hc

/-- A piece for digits that may be missing: it takes them if they are there. -/
def TakesDigits (d : Piece) (slot : Option Digits → Option Text) : Prop :=
  ∀ (n : Option Digits) {rest : Text}, Text.Stops Char.isDigit rest →
    d.ReadsFirst (written n) [slot n] rest

theorem takesDigits_run :
    TakesDigits (group (run CharSet.digits 0 none)) fun n => some (written n) := by
  intro n rest h
  cases n with
  | none =>
      have hstops : Text.Stops CharSet.digits.holds rest :=
        Text.stops_of_imp (fun c hc => holds_digits_iff.mp hc) h
      have hnothing : (run CharSet.digits 0 none).ReadsFirst [] [] rest :=
        readsFirst_run nofun hstops le_rfl nofun
      exact hnothing.group
  | some n => exact (readsFirst_digits n (Nat.zero_le 1) h).group

theorem takesDigits_number : TakesDigits (opt number) fun n => n.map Digits.text := by
  intro n rest h
  cases n with
  | none =>
      have hstops : Text.Stops CharSet.digits.holds rest :=
        Text.stops_of_imp (fun c hc => holds_digits_iff.mp hc) h
      have hnone : number.readings rest = [] := by
        simp [number, readings, runOf, Text.takeWhile_of_stops hstops]
      exact readsFirst_opt_absent hnone
  | some n => exact (readsFirst_digits n le_rfl h).group.opt

/-- The mark in front of digits is taken with them; where they are missing it must not stand. -/
theorem readsFirst_behind {d q : Piece} {slot : Option Digits → Option Text}
    (hd : TakesDigits d slot) {c : Char} (n : Option Digits) {u rest : Text}
    {gs : List (Option Text)} (hq : q.ReadsFirst u gs rest)
    (hc : (u ++ rest).head? ≠ some c) (hdigits : Text.Stops Char.isDigit (u ++ rest)) :
    (seq (maybe c) (seq d q)).ReadsFirst (behind c n ++ u) (slot n :: gs) rest := by
  have hrest := (hd n hdigits).seq hq
  cases n with
  | none => exact (readsFirst_opt_absent (readings_char_of_head? hc)).seq hrest
  | some n => exact (readsFirst_char c _).opt.seq hrest

/-- Whatever pieces are used for depth and opacity, a shade is split where its marks stand. -/
theorem readsFirst_shade (s : Shade) {set : CharSet} {d e : Piece}
    {slot : Option Digits → Option Text} {g : Option Text}
    (hset : ∀ c : Char, c.isDigit = true ∨ c.isLower = true → set.holds c = true)
    (hmarks : set.holds '-' = false ∧ set.holds '/' = false) (hd : TakesDigits d slot)
    (he : e.ReadsFirst (behind '/' s.opacity) [g] []) :
    (sequence [group (run set 1 none), maybe '-', d, e]).ReadsFirst s.text
      [some s.color, slot s.depth, g] [] := by
  have hopacity {p : Char → Bool} (hp : p '/' = false) :
      Text.Stops p (behind '/' s.opacity ++ []) := stops_behind hp s.opacity nofun
  have hdash : (behind '/' s.opacity ++ []).head? ≠ some '-' := fun h => by
    cases hopacity (p := (· == '-')) rfl '-' h
  have hdepth := readsFirst_behind hd s.depth he hdash (hopacity rfl)
  have hstops : Text.Stops set.holds ((behind '-' s.depth ++ behind '/' s.opacity) ++ []) := by
    rw [List.append_assoc]
    exact stops_behind hmarks.1 s.depth (hopacity hmarks.2)
  have hcolor : (run set 1 none).ReadsFirst s.color [] _ :=
    readsFirst_run (fun c hc => hset c (s.lower c hc)) hstops
      (List.length_pos_of_ne_nil s.ne_nil) nofun
  exact hcolor.group.seq hdepth

/-! ## Colours and borders -/

def colors : Rule :=
  ⟨"color", whole [group (alt (word "fc") (word "bg")), char '-',
    group (run [.range '0' '9', .range 'a' 'z'] 1 none), maybe '-',
    group (run CharSet.digits 0 none), maybe '/', group (run CharSet.digits 0 none)], declareColor⟩

def borders : Rule :=
  ⟨"border", whole [word "bor-", letterOf "wcsr", sides "ltrb", char '-',
    group (run [.range 'a' 'z', .range '0' '9'] 1 none), maybe '-', opt number,
    opt (bare (sequence [char '/', number]))], declareBorder⟩

theorem colors_mem : colors ∈ builtin := List.mem_of_getElem? (i := 4) rfl

theorem borders_mem : borders ∈ builtin := List.mem_of_getElem? (i := 11) rfl

theorem readsFirst_opacity_run (n : Option Digits) :
    (seq (maybe '/') (group (run CharSet.digits 0 none))).ReadsFirst (behind '/' n)
      [some (written n)] [] := by
  have hread := takesDigits_run n Text.stops_nil
  cases n with
  | none => exact (readsFirst_opt_absent rfl).seq hread
  | some n => exact (readsFirst_char '/' _).opt.seq hread

theorem readsFirst_opacity_number (n : Option Digits) :
    (opt (bare (sequence [char '/', number]))).ReadsFirst (behind '/' n)
      [n.map Digits.text] [] := by
  cases n with
  | none => exact readsFirst_opt_absent rfl
  | some n =>
      have hread := (readsFirst_digits n le_rfl Text.stops_nil).group
      exact ((readsFirst_char '/' _).seq hread).bare.opt

theorem match?_color (s : Shade) {name : Text}
    (hname : ∀ rest, (group (alt (word "fc") (word "bg"))).ReadsFirst name [some name] rest) :
    colors.pattern.match? (name ++ '-' :: s.text) =
      some ⟨name ++ '-' :: s.text,
        [some name, some s.color, some (written s.depth), some (written s.opacity)]⟩ := by
  have hset : ∀ c : Char, c.isDigit = true ∨ c.isLower = true →
      (CharSet.digits ++ CharSet.lower).holds c = true :=
    fun c hc => holds_append.mpr (hc.imp holds_digits_iff.mpr holds_lower_iff.mpr)
  have hshade :=
    readsFirst_shade s hset ⟨rfl, rfl⟩ takesDigits_run (readsFirst_opacity_run s.opacity)
  have hread := (hname _).seq ((readsFirst_char '-' _).seq hshade)
  exact Pattern.match?_of_readsFirst rfl hread

/-- The border rule names the kind of border and the sides in front of the shade. -/
theorem match?_border (s : Shade) (on : Sides) :
    borders.pattern.match? ("bor-" ++ 'c' :: (on.letters ++ '-' :: s.text)) =
      some ⟨"bor-" ++ 'c' :: (on.letters ++ '-' :: s.text),
        [some ['c'], some on.letters, some s.color, s.depth.map Digits.text,
          s.opacity.map Digits.text]⟩ := by
  have hset : ∀ c : Char, c.isDigit = true ∨ c.isLower = true →
      (CharSet.lower ++ CharSet.digits).holds c = true :=
    fun c hc => holds_append.mpr (hc.symm.imp holds_lower_iff.mpr holds_digits_iff.mpr)
  have hletters : ∀ side : Side, (CharSet.ofChars "ltrb").holds side.letter = true := by
    rintro ⟨⟩ <;> rfl
  have hshade :=
    readsFirst_shade s hset ⟨rfl, rfl⟩ takesDigits_number (readsFirst_opacity_number s.opacity)
  have hkind (rest : Text) : (letterOf "wcsr").ReadsFirst ['c'] [some ['c']] rest :=
    readsFirst_letter rfl rest
  have hread := (readsFirst_word "bor-" _).seq ((hkind _).seq
    ((readsFirst_sides hletters on (Text.stops_cons _ rfl)).seq
      ((readsFirst_char '-' _).seq hshade)))
  exact Pattern.match?_of_readsFirst rfl hread

theorem declares_color (s : Shade) :
    Declares "color" ("fc-" ++ s.text) [("color", s.value)] ∧
      Declares "color" ("bg-" ++ s.text) [("background-color", s.value)] := by
  have hvalue (token name : Text) : colorOf ⟨token,
      [some name, some s.color, some (written s.depth), some (written s.opacity)]⟩ 2 3 4 =
        s.value := by
    simp [colorOf, Match.group, hundredthsOf_written, Shade.value]
  constructor
  · have hname (rest : Text) :
        (group (alt (word "fc") (word "bg"))).ReadsFirst "fc" [some "fc".toList] rest :=
      (readsFirst_word "fc" rest).first.group
    exact declares_of_match colors_mem (match?_color s hname)
      (congrArg (fun v => some (Declarations.single "color" v)) (hvalue _ _))
  · have hname (rest : Text) :
        (group (alt (word "fc") (word "bg"))).ReadsFirst "bg" [some "bg".toList] rest :=
      (ReadsFirst.second rfl (readsFirst_word "bg" rest)).group
    exact declares_of_match colors_mem (match?_color s hname)
      (congrArg (fun v => some (Declarations.single "background-color" v)) (hvalue _ _))

theorem declares_border (s : Shade) (on : Sides) :
    Declares "border" ("bor-" ++ 'c' :: (on.letters ++ '-' :: s.text))
      (on.declared "border" "-color" s.value) := by
  have hvalue (token : Text) : colorOf ⟨token, [some ['c'], some on.letters, some s.color,
      s.depth.map Digits.text, s.opacity.map Digits.text]⟩ 3 4 5 = s.value := by
    have hwritten (n : Option Digits) :
        hundredthsOf ((n.map Digits.text).getD []) = n.map Digits.hundredths :=
      hundredthsOf_written n
    simp [colorOf, Match.group, hwritten, Shade.value]
  obtain ⟨d, hd, hpairs⟩ := perSide_letters on "border" "-color" s.value
  rw [← hpairs]
  refine declares_of_match borders_mem (match?_border s on) ?_
  rw [← hd, ← hvalue]
  rfl

/-- **Colours are read alike.**  A shade has one value, whether it stands behind `fc`, `bg` or the
`bor-c` of any sides: that of its colour with the depth and the opacity it gives, both cut at 100,
however many digits they have.  The sides of a border get it once each. -/
theorem colors_read_alike (s : Shade) (on : Sides) :
    Declares "color" ("fc-" ++ s.text) [("color", s.value)] ∧
    Declares "color" ("bg-" ++ s.text) [("background-color", s.value)] ∧
    Declares "border" ("bor-c" ++ on.letters ++ '-' :: s.text)
      (on.declared "border" "-color" s.value) := by
  obtain ⟨htext, hbackground⟩ := declares_color s
  exact ⟨htext, hbackground, declares_border s on⟩

example : Declares "border" "bor-cltl-2c96ff-080/40"
    [("border-left-color", "rgba(86,171,255,0.4)"), ("border-top-color", "rgba(86,171,255,0.4)")] :=
  ⟨_, rfl, rfl⟩

end AttributeCss.Rule
