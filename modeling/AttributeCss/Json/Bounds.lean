/-
Documents that can be held as plain data.

A document may be well written and still say things that plain data cannot
hold: strings that stand for no text, numbers beyond the range of doubles,
and nesting without end.

A number is held as a double in two steps.  Its leading digits make a
natural of 64 bits, what follows them a power of ten; each of the two is
rounded to a double, and the number is their product.  So numbers just
below the largest double may already be out of range.
-/
import AttributeCss.Json.Record

namespace AttributeCss.Json

/-- Half a step above the largest double: from here on numbers round to infinity. -/
def doubleBound : Nat := Nat.pow 2 1024 - Nat.pow 2 970

/-- The largest power of ten below the bound, as an exponent. -/
def largestPower : Nat := 308

/-- The double nearest to a natural below the bound; of two nearest, the one with the even
significand. -/
def nearestDouble (n : Nat) : Nat :=
  let step := Nat.pow 2 (n.log2 + 1 - 53)
  let below := n / step
  let rest := n % step
  let above := step < 2 * rest || (step = 2 * rest && below % 2 = 1)
  (if above then below + 1 else below) * step

/-- The digits of a number that go on `n` without leaving 64 bits: the number they make, and the
digits left over. -/
def gather (n : Nat) : Text → Nat × Text
  | [] => (n, [])
  | c :: r =>
      let more := n * 10 + Text.numeralValue [c]
      if more < Nat.pow 2 64 then gather more r else (n, c :: r)

/-- The value of an exponent as written, its letter included. -/
def exponentValue (written : Text) : Int :=
  match written.tail with
  | '-' :: digits => -(Text.numeralValue digits : Int)
  | '+' :: digits => Text.numeralValue digits
  | digits => Text.numeralValue digits

/-- A natural of 64 bits, times ten to the power `scale`, is held as a finite double. -/
def scaledInRange (significand : Nat) (scale : Int) : Bool :=
  significand = 0 || scale < 0 ||
    (scale ≤ largestPower &&
      nearestDouble significand * nearestDouble (Nat.pow 10 scale.toNat) < doubleBound)

/-- A number in its parts is held as a finite double.  Digits of the whole part that are left over
count as zeros, digits of the fraction that are left over do not count. -/
def partsInRange (whole fraction exponent : Text) : Bool :=
  let (significand, zeros) := gather 0 whole
  let (significand, dropped) := gather significand fraction
  scaledInRange significand
    (exponentValue exponent + zeros.length + dropped.length - fraction.length)

/-- A number as written is held as a finite double. -/
def numberInRange (written : Text) : Bool :=
  ((do
    let (whole, rest) ← readWhole? (readMinus written).2
    let (fraction, rest) ← readFraction? rest
    let (exponent, _) ← readExponent? rest
    return partsInRange whole fraction.tail exponent) : Option Bool).getD false

mutual

/-- The document is plain data with at most `depth` levels of arrays and objects. -/
def Value.isPlain (depth : Nat) : Value → Bool
  | .null => true
  | .bool _ => true
  | .number n => numberInRange n
  | .string s => s.text?.isSome
  | .array items =>
      match depth with
      | 0 => false
      | d + 1 => itemsPlain d items
  | .object members =>
      match depth with
      | 0 => false
      | d + 1 => membersPlain d members

def itemsPlain (depth : Nat) : List Value → Bool
  | [] => true
  | v :: r => v.isPlain depth && itemsPlain depth r

def membersPlain (depth : Nat) : List (Literal × Value) → Bool
  | [] => true
  | m :: r => memberPlain depth m && membersPlain depth r

def memberPlain (depth : Nat) : Literal × Value → Bool
  | (k, v) => k.text?.isSome && v.isPlain depth

end

end AttributeCss.Json
