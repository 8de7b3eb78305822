/-
Template trees.

A template is a list of nodes.  Conditional chains and loops are nodes of
their own: an element under a condition is the only child of a branch, and
an element under a loop the only child of the loop.

An attribute as written is a directive or static.  A directive has a long
form, `v-name:argument.modifier`, and three names have a mark of their own:
`:` for bind, `@` for on and `#` for slot.  Every other attribute is static
and keeps its name.
-/
import AttributeCss.Text.Basic

namespace AttributeCss.Markup

/-! ## Attributes -/

/-- A directive. -/
structure Directive where
  name : Text
  /-- What it applies to, if it says so. -/
  argument : Option Text := none
  modifiers : List Text := []
  expression : Option Text := none
deriving DecidableEq, Repr

/-- An attribute of an element. -/
inductive Attribute where
  /-- An attribute with a fixed value, or with none. -/
  | static (name : Text) (value : Option Text)
  | directive (d : Directive)
deriving DecidableEq, Repr

namespace Directive

/-- A character that ends the name of a directive in the long form. -/
def endsName (c : Char) : Bool := c = ':' || c = '.'

/-- The directive of a name and what is written behind it: an argument, unless it is empty, and
modifiers behind dots, of which empty ones do not count. -/
def ofParts (name rest : Text) (expression : Option Text) : Directive :=
  let segments := rest.splitOn '.'
  { name
    argument := segments.head?.filter fun s => !s.isEmpty
    modifiers := segments.tail.filter fun s => !s.isEmpty
    expression }

/-- The text without the colon it may start with. -/
def dropColon : Text → Text
  | ':' :: r => r
  | t => t

/-- The directive of a long form, behind its lead. -/
def ofLong (written : Text) (expression : Option Text) : Directive :=
  ofParts (written.takeWhile fun c => !endsName c)
    (dropColon (written.dropWhile fun c => !endsName c)) expression

end Directive

/-- The attribute of a name as written, and its value. -/
def Attribute.ofRaw (name : Text) (value : Option Text) : Attribute :=
  match name with
  | 'v' :: '-' :: r => .directive (Directive.ofLong r value)
  | ':' :: r => .directive (Directive.ofParts "bind" r value)
  | '@' :: r => .directive (Directive.ofParts "on" r value)
  | '#' :: r => .directive (Directive.ofParts "slot" r value)
  | _ => .static name value

/-- The first directive of a name, and the attributes without it. -/
def takeDirective? (name : Text) : List Attribute → Option (Directive × List Attribute)
  | [] => none
  | .directive d :: r =>
      if d.name = name then some (d, r)
      else (takeDirective? name r).map fun (found, others) => (found, .directive d :: others)
  | .static n v :: r =>
      (takeDirective? name r).map fun (found, others) => (found, .static n v :: others)

/-! ## Nodes -/

/-- A node of a template. -/
inductive Node where
  | element (tag : Text) (attributes : List Attribute) (children : List Node)
  | text (t : Text)
  /-- A comment, without blanks around it. -/
  | comment (t : Text)
  /-- An interpolated expression, without blanks around it. -/
  | interpolation (t : Text)
  /-- A conditional chain: branches with their conditions; the last may have none. -/
  | choice (branches : List (Option Text × List Node))
  | loop (source : Text) (children : List Node)

end AttributeCss.Markup
