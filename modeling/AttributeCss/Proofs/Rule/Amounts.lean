/-
Rules that take amounts: spacing, size and offset.

An amount is a run of digits, perhaps behind a minus sign and perhaps a
percentage.  The minus sign is the character that divides a token as well, so
`m--10` is a margin of minus ten.  Each rule has its forms, put together from
parts (`Spacing`, `Size`, `Offset`); `numbers_kept` says that a rule claims the
texts of its forms and no other token, and that sign, digits and unit of the
amount are in what it declares.
-/
import AttributeCss.Proofs.Rule.Forms

namespace AttributeCss.Rule

open Css Piece

/-! ## Amounts -/

/-- A number as tokens write it: digits, perhaps behind a minus sign, perhaps before a percent
sign. -/
structure Amount where
  negative : Bool
  digits : Digits
  percent : Bool

namespace Amount

def size (n : Amount) : Text := n.digits.text ++ if n.percent then ['%'] else []

def text (n : Amount) : Text := (if n.negative then ['-'] else []) ++ n.size

/-- The length an amount stands for: a percentage as it is written, else a number of pixels. -/
def length (n : Amount) : Text := if n.percent then n.text else n.text ++ "px"

theorem head?_size_ne_dash (n : Amount) : n.size.head? ≠ some '-' := by
  intro h
  rw [size, List.head?_append_of_ne_nil _ n.digits.ne_nil] at h
  cases n.digits.isDigit_of_mem (List.mem_of_mem_head? h)

theorem isPercentage_of_head?_ne {t : Text} (h : t.head? ≠ some '-') :
    isPercentage t = (decide (t.getLast? = some '%') && Text.isNumeral t.dropLast) := by
  unfold isPercentage
  split
  · exact absurd rfl h
  · rfl

theorem isPercentage_text (n : Amount) : isPercentage n.text = n.percent := by
  have hsize : isPercentage n.text =
      (decide (n.size.getLast? = some '%') && Text.isNumeral n.size.dropLast) := by
    rw [text]
    cases n.negative with
    | true => rfl
    | false => exact isPercentage_of_head?_ne n.head?_size_ne_dash
  rw [hsize, size]
  cases n.percent with
  | true => simp [n.digits.numeral]
  | false =>
      have hlast : n.digits.text.getLast? ≠ some '%' := fun h => by
        cases n.digits.isDigit_of_mem (List.mem_of_getLast? h)
      simp [hlast]

theorem length_text (n : Amount) : Css.length n.text = n.length := by
  rw [Css.length, isPercentage_text, length]

end Amount

theorem exists_size_of_fits {t : Text}
    (h : (sequence [run CharSet.digits 1 none, maybe '%']).Fits t) (negative : Bool) :
    ∃ n : Amount, n.negative = negative ∧ t = n.size := by
  cases h with
  | seq hdigits hunit =>
      obtain ⟨digits, rfl⟩ := exists_digits_of_fits hdigits
      obtain ⟨percent, rfl⟩ := fits_maybe hunit
      exact ⟨⟨negative, digits, percent⟩, rfl, rfl⟩

theorem exists_amount_of_fits {t : Text} (h : signedMeasure.Fits t) : ∃ n : Amount, t = n.text := by
  cases h with
  | group h =>
      cases h with
      | seq hsign hsize =>
          obtain ⟨negative, rfl⟩ := fits_maybe hsign
          obtain ⟨n, rfl, rfl⟩ := exists_size_of_fits hsize negative
          exact ⟨n, rfl⟩

theorem exists_unsigned_of_fits {t : Text} (h : measure.Fits t) :
    ∃ n : Amount, n.negative = false ∧ t = n.text := by
  cases h with
  | group h =>
      obtain ⟨n, hn, rfl⟩ := exists_size_of_fits h false
      exact ⟨n, hn, by simp [Amount.text, hn]⟩

theorem readsFirst_size (n : Amount) :
    (sequence [run CharSet.digits 1 none, maybe '%']).ReadsFirst n.size [] [] := by
  have hstops : Text.Stops Char.isDigit ((if n.percent then ['%'] else []) ++ []) := by
    cases n.percent with
    | true => exact Text.stops_cons [] rfl
    | false => nofun
  exact (readsFirst_digits n.digits le_rfl hstops).seq (readsFirst_maybe '%' nofun)

theorem readsFirst_amount (n : Amount) : signedMeasure.ReadsFirst n.text [some n.text] [] := by
  have hsign : n.negative = false → (n.size ++ []).head? ≠ some '-' := fun _ => by
    simpa using n.head?_size_ne_dash
  exact ((readsFirst_maybe '-' hsign).seq (readsFirst_size n)).group

theorem readsFirst_unsigned {n : Amount} (hn : n.negative = false) :
    measure.ReadsFirst n.text [some n.text] [] := by
  have htext : n.text = n.size := by simp [Amount.text, hn]
  exact htext ▸ (readsFirst_size n).group

/-! ## Spacing -/

/-- What spacing is about. -/
inductive Box where
  | margin
  | padding
deriving DecidableEq, Repr

def Box.letter : Box → Char
  | margin => 'm'
  | padding => 'p'

def Box.property : Box → Text
  | margin => "margin"
  | padding => "padding"

/-- Margin or padding of some sides, or all around. -/
structure Spacing where
  box : Box
  sides : Sides
  amount : Amount

/-- The token: the box, the sides, a dash and the amount. -/
def Spacing.text (f : Spacing) : Text := f.box.letter :: (f.sides.letters ++ '-' :: f.amount.text)

/-- The declarations: the amount for each side. -/
def Spacing.pairs (f : Spacing) : List (Text × Text) :=
  f.sides.declared f.box.property [] f.amount.length

/-! ## Sizes -/

/-- How a size is bounded. -/
inductive Bound where
  | exact
  | most
  | least
deriving DecidableEq, Repr

def Bound.mark : Bound → Text
  | exact => []
  | most => "m"
  | least => "mi"

/-- The bound in the names of properties. -/
def Bound.name : Bound → Text
  | exact => []
  | most => "max-"
  | least => "min-"

/-- A dimension of a box. -/
inductive Dimension where
  | width
  | height
deriving DecidableEq, Repr

def Dimension.letter : Dimension → Char
  | width => 'w'
  | height => 'h'

def Dimension.property : Dimension → Text
  | width => "width"
  | height => "height"

/-- A dimension, bounded or not; a size has no sign. -/
structure Size where
  bound : Bound
  dimension : Dimension
  amount : Amount
  unsigned : amount.negative = false

/-- The token: the bound, the dimension, a dash and the amount. -/
def Size.text (f : Size) : Text := f.bound.mark ++ f.dimension.letter :: '-' :: f.amount.text

def Size.pairs (f : Size) : List (Text × Text) :=
  [(f.bound.name ++ f.dimension.property, f.amount.length)]

/-! ## Offsets -/

/-- The offset of one side. -/
structure Offset where
  side : Side
  amount : Amount

/-- The token: the side, a dash and the amount. -/
def Offset.text (f : Offset) : Text := f.side.letter :: '-' :: f.amount.text

def Offset.pairs (f : Offset) : List (Text × Text) := [(f.side.name, f.amount.length)]

/-! ## Spacing tokens -/

def spacing : Rule :=
  ⟨"spacing", whole [letterOf "mp", sides "tblr", char '-', signedMeasure], declareSpacing⟩

theorem Spacing.exists_of_fits {token : Text} (h : spacing.pattern.piece.Fits token) :
    ∃ f : Spacing, token = f.text := by
  cases h with
  | seq hbox h =>
      cases h with
      | seq hsides h =>
          cases h with
          | seq hdash hamount =>
              obtain ⟨c, hc, rfl⟩ := exists_letter_of_fits hbox
              obtain ⟨sides, rfl⟩ := exists_sides_of_fits (List.all_eq_true.mp rfl) hsides
              obtain ⟨amount, rfl⟩ := exists_amount_of_fits hamount
              cases hdash
              have hcases : c = 'm' ∨ c = 'p' := by simpa using hc
              rcases hcases with rfl | rfl
              · exact ⟨⟨.margin, sides, amount⟩, rfl⟩
              · exact ⟨⟨.padding, sides, amount⟩, rfl⟩

theorem Spacing.match?_text (f : Spacing) : spacing.pattern.match? f.text =
    some ⟨f.text, [some [f.box.letter], some f.sides.letters, some f.amount.text]⟩ := by
  have hbox : (CharSet.ofChars "mp").holds f.box.letter = true := by cases f.box <;> rfl
  have hletters : ∀ side : Side, (CharSet.ofChars "tblr").holds side.letter = true := by
    rintro ⟨⟩ <;> rfl
  have hread := (readsFirst_letter hbox _).seq
    ((readsFirst_sides hletters f.sides (Text.stops_cons _ rfl)).seq
      ((readsFirst_char '-' _).seq (readsFirst_amount f.amount)))
  exact Pattern.match?_of_readsFirst rfl hread

theorem declareSpacing_letter (token : Text) (box : Box) (letters amount : Text) :
    declareSpacing ⟨token, [some [box.letter], some letters, some amount]⟩ =
      perSide box.property [] letters (Css.length amount) := by
  cases box <;> rfl

theorem speaks_spacing : Speaks "spacing" Spacing.text Spacing.pairs := by
  have hrule : spacing ∈ builtin := List.mem_of_getElem? (i := 0) rfl
  refine speaks_of_forms hrule (fun _ => Spacing.exists_of_fits) fun f => ?_
  obtain ⟨d, hd, hpairs⟩ := perSide_letters f.sides f.box.property [] (Css.length f.amount.text)
  have hdeclare := (declareSpacing_letter f.text f.box f.sides.letters f.amount.text).trans hd
  exact ⟨_, d, f.match?_text, hdeclare, by rw [hpairs, Amount.length_text, Spacing.pairs]⟩

/-! ## Size tokens -/

def size : Rule :=
  ⟨"size", whole [opt (group (alt (word "m") (word "mi"))), letterOf "wh", char '-', measure],
    declareSize⟩

theorem Bound.exists_of_fits {t : Text}
    (h : (opt (group (alt (word "m") (word "mi")))).Fits t) : ∃ bound : Bound, t = bound.mark := by
  cases h with
  | absent => exact ⟨.exact, rfl⟩
  | present h =>
      cases h with
      | group h =>
          cases h with
          | first h => exact ⟨.most, eq_of_fits_word h⟩
          | second h => exact ⟨.least, eq_of_fits_word h⟩

theorem Size.exists_of_fits {token : Text} (h : size.pattern.piece.Fits token) :
    ∃ f : Size, token = f.text := by
  cases h with
  | seq hbound h =>
      cases h with
      | seq hdimension h =>
          cases h with
          | seq hdash hamount =>
              obtain ⟨bound, rfl⟩ := Bound.exists_of_fits hbound
              obtain ⟨c, hc, rfl⟩ := exists_letter_of_fits hdimension
              obtain ⟨amount, hunsigned, rfl⟩ := exists_unsigned_of_fits hamount
              cases hdash
              have hcases : c = 'w' ∨ c = 'h' := by simpa using hc
              rcases hcases with rfl | rfl
              · exact ⟨⟨bound, .width, amount, hunsigned⟩, rfl⟩
              · exact ⟨⟨bound, .height, amount, hunsigned⟩, rfl⟩

/-- What the group of the bound holds. -/
def Bound.group (bound : Bound) : Option Text :=
  match bound with
  | exact => none
  | most | least => some bound.mark

/-- The letter of the dimension tells which bound is meant: behind the `m` of `mi` there is none. -/
theorem readsFirst_bounded {q : Piece} {dimension : Dimension} {u rest : Text}
    {gs : List (Option Text)}
    (h : (seq (letterOf "wh") q).ReadsFirst (dimension.letter :: u) gs rest) (bound : Bound) :
    (seq (opt (group (alt (word "m") (word "mi")))) (seq (letterOf "wh") q)).ReadsFirst
      (bound.mark ++ dimension.letter :: u) (bound.group :: gs) rest := by
  cases bound with
  | exact =>
      have hnone : (group (alt (word "m") (word "mi"))).readings
          (dimension.letter :: u ++ rest) = [] := by
        cases dimension <;> rfl
      exact (readsFirst_opt_absent hnone).seq h
  | most => exact (readsFirst_word "m" _).first.group.opt.seq h
  | least =>
      let tail := dimension.letter :: u ++ rest
      have hreadings : (opt (group (alt (word "m") (word "mi")))).readings ("mi" ++ tail) =
          [⟨"m", [some "m".toList], 'i' :: tail⟩] ++ ⟨"mi", [some "mi".toList], tail⟩ ::
            [⟨[], [none], "mi" ++ tail⟩] := rfl
      refine ReadsFirst.seq_of_dead_ends hreadings ?_ h
      intro x hx
      obtain rfl := List.mem_singleton.mp hx
      rfl

theorem Size.match?_text (f : Size) : size.pattern.match? f.text =
    some ⟨f.text, [f.bound.group, some [f.dimension.letter], some f.amount.text]⟩ := by
  have hdimension : (CharSet.ofChars "wh").holds f.dimension.letter = true := by
    cases f.dimension <;> rfl
  have hread := readsFirst_bounded ((readsFirst_letter hdimension _).seq
    ((readsFirst_char '-' _).seq (readsFirst_unsigned f.unsigned))) f.bound
  exact Pattern.match?_of_readsFirst rfl hread

theorem speaks_size : Speaks "size" Size.text Size.pairs := by
  have hrule : size ∈ builtin := List.mem_of_getElem? (i := 1) rfl
  refine speaks_of_forms hrule (fun _ => Size.exists_of_fits) fun f => ?_
  refine ⟨_, Declarations.single (f.bound.name ++ f.dimension.property) (Css.length f.amount.text),
    f.match?_text, ?_, by rw [Amount.length_text]; rfl⟩
  cases f.dimension <;> cases f.bound <;> rfl

/-! ## Offset tokens -/

def offset : Rule :=
  ⟨"offset", whole [letterOf "lrtb", char '-', signedMeasure], declareOffset⟩

theorem Offset.exists_of_fits {token : Text} (h : offset.pattern.piece.Fits token) :
    ∃ f : Offset, token = f.text := by
  cases h with
  | seq hside h =>
      cases h with
      | seq hdash hamount =>
          obtain ⟨c, hc, rfl⟩ := exists_letter_of_fits hside
          obtain ⟨amount, rfl⟩ := exists_amount_of_fits hamount
          cases hdash
          have hside : ∀ c ∈ "lrtb".toList, (sideOf? c).isSome = true := List.all_eq_true.mp rfl
          obtain ⟨side, rfl⟩ := exists_side (hside c hc)
          exact ⟨⟨side, amount⟩, rfl⟩

theorem Offset.match?_text (f : Offset) : offset.pattern.match? f.text =
    some ⟨f.text, [some [f.side.letter], some f.amount.text]⟩ := by
  have hside : (CharSet.ofChars "lrtb").holds f.side.letter = true := by cases f.side <;> rfl
  have hread := (readsFirst_letter hside _).seq
    ((readsFirst_char '-' _).seq (readsFirst_amount f.amount))
  exact Pattern.match?_of_readsFirst rfl hread

theorem declareOffset_letter (token : Text) (side : Side) (amount : Text) :
    declareOffset ⟨token, [some [side.letter], some amount]⟩ =
      some (Declarations.single side.name (Css.length amount)) := by
  cases side <;> rfl

theorem speaks_offset : Speaks "offset" Offset.text Offset.pairs := by
  have hrule : offset ∈ builtin := List.mem_of_getElem? (i := 10) rfl
  refine speaks_of_forms hrule (fun _ => Offset.exists_of_fits) fun f => ?_
  refine ⟨_, _, f.match?_text, declareOffset_letter f.text f.side f.amount.text, ?_⟩
  rw [Amount.length_text]
  rfl

/-- **Numbers are kept.**  Spacing, size and offset claim the texts of their forms and no other
token.  What they declare has the sign, the digits and the unit of the amount as written; only a
number without a unit gets one.  Each side is declared once. -/
theorem numbers_kept :
    ((∀ token, Claims "spacing" token ↔ ∃ f : Spacing, token = f.text) ∧
      ∀ f : Spacing, Declares "spacing" f.text f.pairs) ∧
    ((∀ token, Claims "size" token ↔ ∃ f : Size, token = f.text) ∧
      ∀ f : Size, Declares "size" f.text f.pairs) ∧
    ((∀ token, Claims "offset" token ↔ ∃ f : Offset, token = f.text) ∧
      ∀ f : Offset, Declares "offset" f.text f.pairs) :=
  ⟨speaks_spacing, speaks_size, speaks_offset⟩

example : Declares "spacing" "mtbt--10%" [("margin-top", "-10%"), ("margin-bottom", "-10%")] :=
  ⟨_, rfl, rfl⟩

end AttributeCss.Rule
