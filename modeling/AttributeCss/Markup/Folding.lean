/-
Folding structural directives into the tree.

Elements with an `if`, `else-if` or `else` directive become branches of
conditional chains, and elements with a `for` directive become loops.  On one
element the condition binds tighter: the loop stands inside the branch.  An
else branch belongs to the chain before it, with nothing but comments in
between; without such a chain it is a chain of its own.
-/
import AttributeCss.Markup.Node

namespace AttributeCss.Markup

/-- The condition an element stands under. -/
inductive Condition where
  | first (expression : Option Text)
  | next (expression : Option Text)
  | otherwise
deriving DecidableEq, Repr

/-- The condition an element's attributes put it under, and its other attributes. -/
def takeCondition (attributes : List Attribute) : Option Condition × List Attribute :=
  match takeDirective? "if" attributes with
  | some (d, others) => (some (.first d.expression), others)
  | none =>
      match takeDirective? "else-if" attributes with
      | some (d, others) => (some (.next d.expression), others)
      | none =>
          match takeDirective? "else" attributes with
          | some (_, others) => (some .otherwise, others)
          | none => (none, attributes)

/-- The element, inside a loop if its attributes say so. -/
def looped (tag : Text) (attributes : List Attribute) (children : List Node) : Node :=
  match takeDirective? "for" attributes with
  | some (d, others) => .loop (d.expression.getD []) [.element tag others children]
  | none => .element tag attributes children

/-- Adds a branch to the chain the nodes, last first, begin with behind comments. -/
def joinChain? (branch : Option Text × List Node) : List Node → Option (List Node)
  | .choice branches :: before => some (.choice (branches ++ [branch]) :: before)
  | .comment t :: before => (joinChain? branch before).map (.comment t :: ·)
  | _ => none

/-- Adds an else branch to the nodes before it, last first. -/
def attach (before : List Node) (branch : Option Text × List Node) : List Node :=
  (joinChain? branch before).getD (.choice [branch] :: before)

/-- Adds a node, its children folded, to the nodes before it, last first. -/
def place (before : List Node) : Node → List Node
  | .element tag attributes children =>
      let (condition, attributes) := takeCondition attributes
      let node := looped tag attributes children
      match condition with
      | none => node :: before
      | some (.first e) => .choice [(e, [node])] :: before
      | some (.next e) => attach before (e, [node])
      | some .otherwise => attach before (none, [node])
  | n => n :: before

mutual

/-- The node with its children folded, if it is an element. -/
def foldInside : Node → Node
  | .element tag attributes children => .element tag attributes (foldOnto [] children).reverse
  | .text t => .text t
  | .comment t => .comment t
  | .interpolation t => .interpolation t
  | .choice branches => .choice branches
  | .loop source children => .loop source children

/-- Folds nodes onto those before them, last first. -/
def foldOnto (before : List Node) : List Node → List Node
  | [] => before
  | n :: r => foldOnto (place before (foldInside n)) r

end

/-- The nodes with their structural directives folded. -/
def fold (nodes : List Node) : List Node := (foldOnto [] nodes).reverse

end AttributeCss.Markup
