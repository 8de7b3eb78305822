/-
Declarations of a rule: properties with their values.

Properties keep the order in which they were first given; giving one again
replaces its value where it stands.

Two kinds of value are computed from a token.  A length is a percentage as it
stands, or a number of pixels.  A colour token is a palette name, a CSS
keyword or a hex colour without its hash; anything else is the palette's
primary colour.  Colours of six hex digits are written with their channels, so
that tint and opacity apply; keywords and short hex colours are written as
they are.
-/
import AttributeCss.OrderedMap

namespace AttributeCss.Css

/-- Properties with their values, in the order in which they were first given. -/
abbrev Declarations := OrderedMap Text

namespace Declarations

def single (property value : Text) : Declarations := OrderedMap.empty.insert property value

/-- The declarations as they stand in a rule, each marked as important. -/
def write (d : Declarations) : Text :=
  d.toList.flatMap fun (property, value) => property ++ ':' :: value ++ "!important;".toList

end Declarations

/-! ## Lengths -/

/-- A percentage: an optional minus sign, digits, and a percent sign. -/
def isPercentage (token : Text) : Bool :=
  let body := match token with
    | '-' :: r => r
    | t => t
  body.getLast? = some '%' && Text.isNumeral body.dropLast

/-- The CSS length of a token: a percentage as written, else a number of pixels. -/
def length (token : Text) : Text :=
  if isPercentage token then token else token ++ "px"

/-! ## Colours: a palette, hex digits, tint and opacity -/

def fallbackColor : Text := "#0084ff"

def palette : List (Text × Text) :=
  [("primary", "#0084ff"), ("danger", "#f9463f"), ("warning", "#fa8c16"), ("info", "#abb2c2"),
   ("success", "#24b47e"), ("red", "#ff3333"), ("purple", "#ff33a9"), ("orange", "#ff8833"),
   ("blue", "#3377ff"), ("deep", "#2c96ff"), ("weak", "#b9fdfb"), ("gray", "#8c939d"),
   ("white", "#ffffff"), ("black", "#000000")]

/-- A digit of a hex colour; capital letters do not count. -/
def isHexDigit (c : Char) : Bool := c.isDigit || ('a' ≤ c && c ≤ 'f')

def hexDigitValue (c : Char) : Nat :=
  if c.isDigit then c.toNat - '0'.toNat else c.toNat - 'a'.toNat + 10

/-- The CSS colour of a token: palette name, keyword, three or six hex digits, or the fallback. -/
def resolveColor (token : Text) : Text :=
  match palette.lookup token with
  | some color => color
  | none =>
      if !token.isEmpty && token.all Char.isAlpha then token
      else if (token.length = 3 || token.length = 6) && token.all isHexDigit then '#' :: token
      else fallbackColor

/-- A colour by its channels, each below 256. -/
structure Rgb where
  r : Nat
  g : Nat
  b : Nat
deriving DecidableEq, Repr

namespace Rgb

/-- The channels of a colour of a hash and six hex digits. -/
def ofHex? : Text → Option Rgb
  | ['#', a, b, c, d, e, f] =>
      if [a, b, c, d, e, f].all isHexDigit then
        some ⟨16 * hexDigitValue a + hexDigitValue b, 16 * hexDigitValue c + hexDigitValue d,
          16 * hexDigitValue e + hexDigitValue f⟩
      else none
  | _ => none

/-- A channel of which `depth` hundredths are kept and the rest is white, cut to a whole number. -/
def tintChannel (depth channel : Nat) : Nat :=
  (100 * channel + (255 - channel) * (100 - min depth 100)) / 100

/-- The colour mixed with white: at depth 100 it is unchanged, at depth 0 it is white. -/
def tint (depth : Nat) (color : Rgb) : Rgb :=
  ⟨tintChannel depth color.r, tintChannel depth color.g, tintChannel depth color.b⟩

/-- The colour with an opacity in hundredths. -/
def write (opacity : Nat) (color : Rgb) : Text :=
  "rgba(" ++ Text.numeral color.r ++ ',' :: Text.numeral color.g ++ ',' :: Text.numeral color.b
    ++ ',' :: Text.hundredths (min opacity 100) ++ [')']

end Rgb

/-- The CSS value of a colour token with optional tint depth and opacity in hundredths. -/
def colorValue (token : Text) (depth opacity : Option Nat) : Text :=
  let color := resolveColor token
  match Rgb.ofHex? color with
  | none => color
  | some rgb => (match depth with
      | none => rgb
      | some d => rgb.tint d).write (opacity.getD 100)

/-- A number of hundredths as written in a token; no text is no number, and what is unreadable,
too large for 32 bits or above 100 is 100. -/
def hundredthsOf (written : Text) : Option Nat :=
  if written.isEmpty then none
  else
    let digits := match written with
      | '+' :: r => r
      | t => t
    if Text.isNumeral digits && Text.numeralValue digits < Nat.pow 2 32 then
      some (min (Text.numeralValue digits) 100)
    else some 100

end AttributeCss.Css
