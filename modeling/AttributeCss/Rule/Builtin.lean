/-
The built-in rules.

Seventeen rules turn tokens such as `m-10`, `bg-primary-80/40` and
`flex-jc-center` into declarations.  Each has its pattern as data and a
declaration function; families that differ in a word share the function.
-/
import AttributeCss.Css.Declarations
import AttributeCss.Rule.Table

namespace AttributeCss.Rule

open Css Piece

/-! ## Patterns -/

def whole (pieces : List Piece) : Pattern := { piece := Piece.sequence pieces }

/-- A remembered run of digits. -/
def number : Piece := group (run CharSet.digits 1 none)

/-- A remembered run of lower-case letters. -/
def keyword : Piece := group (run CharSet.lower 1 none)

def maybe (c : Char) : Piece := opt (char c)

/-- Up to four remembered letters of a set. -/
def sides (letters : Text) : Piece := group (run (CharSet.ofChars letters) 0 (some 4))

/-- A remembered letter of a set. -/
def letterOf (letters : Text) : Piece := group (oneOf (CharSet.ofChars letters))

/-- A remembered length without sign. -/
def measure : Piece := group (sequence [run CharSet.digits 1 none, maybe '%'])

/-- A remembered length with an optional minus sign. -/
def signedMeasure : Piece := group (sequence [maybe '-', run CharSet.digits 1 none, maybe '%'])

/-! ## Sides -/

def sideOf? : Char → Option Text
  | 'l' => some "left"
  | 'r' => some "right"
  | 't' => some "top"
  | 'b' => some "bottom"
  | _ => none

/-- One declaration per side letter, or one for the bare property if there are no letters. -/
def perSide (property suffix letters value : Text) : Option Declarations :=
  if letters.isEmpty then some (Declarations.single (property ++ suffix) value)
  else
    (letters.mapM sideOf?).map fun sides =>
      OrderedMap.ofPairs (sides.map fun side => (property ++ '-' :: side ++ suffix, value))

/-! ## Declarations of each rule -/

/-- The property with the first group as its value. -/
def declareKeyword (property : Text) (m : Match) : Option Declarations :=
  some (Declarations.single property (m.group 1))

def declareSpacing (m : Match) : Option Declarations :=
  match m.group 1 with
  | ['m'] => perSide "margin" [] (m.group 2) (length (m.group 3))
  | ['p'] => perSide "padding" [] (m.group 2) (length (m.group 3))
  | _ => none

def sizeBound : Text → Text
  | ['m'] => "max-"
  | ['m', 'i'] => "min-"
  | _ => []

/-- Width or height, bounded or not. -/
def declareSize (m : Match) : Option Declarations :=
  match m.group 2 with
  | ['w'] => some (Declarations.single (sizeBound (m.group 1) ++ "width") (length (m.group 3)))
  | ['h'] => some (Declarations.single (sizeBound (m.group 1) ++ "height") (length (m.group 3)))
  | _ => none

def declareFontSize (m : Match) : Option Declarations :=
  some (Declarations.single "font-size" (m.group 1 ++ "px"))

/-- The short names of display values. -/
def displayValues : List (Text × Text) :=
  [("ib", "inline-block"), ("b", "block"), ("flex", "flex"), ("iflex", "inline-flex"),
   ("i", "inline"), ("none", "none")]

/-- The display value, by its short name or as written. -/
def declareDisplay (m : Match) : Option Declarations :=
  some (Declarations.single "display" ((displayValues.lookup (m.group 1)).getD (m.group 1)))

/-- The colour value of three groups: token, tint depth and opacity. -/
def colorOf (m : Match) (token depth opacity : Nat) : Text :=
  colorValue (m.group token) (hundredthsOf (m.group depth)) (hundredthsOf (m.group opacity))

def declareColor (m : Match) : Option Declarations :=
  match m.group 1 with
  | ['f', 'c'] => some (Declarations.single "color" (colorOf m 2 3 4))
  | ['b', 'g'] => some (Declarations.single "background-color" (colorOf m 2 3 4))
  | _ => none

def declareTextAlign (m : Match) : Option Declarations :=
  match m.group 1 with
  | ['l'] => some (Declarations.single "text-align" "left")
  | ['r'] => some (Declarations.single "text-align" "right")
  | ['c'] => some (Declarations.single "text-align" "center")
  | _ => none

def flexProperties : List (Text × Text) :=
  [("ai", "align-items"), ("jc", "justify-content"), ("d", "flex-direction"),
   ("wrap", "flex-wrap")]

def flexValues : List (Text × Text) :=
  [("start", "flex-start"), ("end", "flex-end"), ("around", "space-around"),
   ("between", "space-between")]

/-- Flex containers and their properties; a property without a value declares nothing. -/
def declareFlex (m : Match) : Option Declarations :=
  let kind := m.group 1
  let value := m.group 2
  if kind.isEmpty || kind = "~" then some (Declarations.single "display" "flex")
  else if kind = "center" then
    some (OrderedMap.ofPairs
      [("display", "flex"), ("justify-content", "center"), ("align-items", "center")])
  else if kind.all Char.isDigit then some (Declarations.single "flex" kind)
  else
    (flexProperties.lookup kind).map fun property =>
      if value.isEmpty then OrderedMap.empty
      else Declarations.single property ((flexValues.lookup value).getD value)

def declareOffset (m : Match) : Option Declarations :=
  (m.group 1).head?.bind fun c =>
    (sideOf? c).map fun side => Declarations.single side (length (m.group 2))

/-- Width, radius, colour or style of borders, by side. -/
def declareBorder (m : Match) : Option Declarations :=
  let raw := m.group 3
  match m.group 1 with
  | ['w'] => perSide "border" "-width" (m.group 2) (raw ++ "px")
  | ['r'] => perSide "border" "-radius" (m.group 2) (raw ++ "px")
  | ['c'] => perSide "border" "-color" (m.group 2) (colorOf m 3 4 5)
  | ['s'] => perSide "border" "-style" (m.group 2) raw
  | _ => none

/-- The gap in pixels, of rows and columns alike or of each. -/
def declareGap (m : Match) : Option Declarations :=
  let row : Text := m.group 1 ++ "px"
  let column := m.group 2
  some (Declarations.single "gap"
    (if column.isEmpty then row else row ++ ' ' :: column ++ "px"))

/-! ## The table -/

/-- The built-in rules in the order in which they are tried. -/
def builtin : RuleTable :=
  [{ name := "spacing"
     pattern := whole [letterOf "mp", sides "tblr", char '-', signedMeasure]
     declare := declareSpacing },
   { name := "size"
     pattern := whole [opt (group (alt (word "m") (word "mi"))), letterOf "wh", char '-', measure]
     declare := declareSize },
   { name := "font-size"
     pattern := whole [word "fs-", number]
     declare := declareFontSize },
   { name := "display"
     pattern := whole [word "dp-", keyword]
     declare := declareDisplay },
   { name := "color"
     pattern := whole [group (alt (word "fc") (word "bg")), char '-',
       group (run [.range '0' '9', .range 'a' 'z'] 1 none), maybe '-',
       group (run CharSet.digits 0 none), maybe '/', group (run CharSet.digits 0 none)]
     declare := declareColor },
   { name := "visibility"
     pattern := whole [word "v-", keyword]
     declare := declareKeyword "visibility" },
   { name := "text-align"
     pattern := whole [word "align-", letterOf "lrc"]
     declare := declareTextAlign },
   { name := "flex"
     pattern := whole [word "flex", maybe '-',
       opt (group (choice (word "~")
         [word "jc", word "ai", word "d", word "wrap", word "center", oneOf CharSet.digits])),
       maybe '-', group (run [.range 'a' 'z', .one '-'] 0 none)]
     declare := declareFlex },
   { name := "overflow"
     pattern := whole [word "of-", keyword]
     declare := declareKeyword "overflow" },
   { name := "position"
     pattern := whole [word "pos-", keyword]
     declare := declareKeyword "position" },
   { name := "offset"
     pattern := whole [letterOf "lrtb", char '-', signedMeasure]
     declare := declareOffset },
   { name := "border"
     pattern := whole [word "bor-", letterOf "wcsr", sides "ltrb", char '-',
       group (run [.range 'a' 'z', .range '0' '9'] 1 none), maybe '-', opt number,
       opt (bare (sequence [char '/', number]))]
     declare := declareBorder },
   { name := "cursor"
     pattern := whole [word "cursor-", keyword]
     declare := declareKeyword "cursor" },
   { name := "gap"
     pattern := whole [word "flex-gap-", number, maybe '-', opt number]
     declare := declareGap },
   { name := "box-sizing"
     pattern := whole [word "border-box"]
     declare := fun _ => some (Declarations.single "box-sizing" "border-box") },
   { name := "line-height"
     pattern := whole [word "lh-", group (run [.range '0' '9', .range 'a' 'z'] 1 none)]
     declare := declareKeyword "line-height" },
   { name := "vertical-align"
     pattern := whole [word "valign-", keyword]
     declare := declareKeyword "vertical-align" }]

end AttributeCss.Rule
