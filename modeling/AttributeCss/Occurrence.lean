/-
Occurrences of declaring attributes in a template.

An element declares with its static attributes and with attributes bound to
a conditional expression; the bound ones are listed first.  Pictures (`svg`)
have attributes of their own kind and are left out with all they contain.
-/
import AttributeCss.Markup.Node
import AttributeCss.Markup.Ternary
import AttributeCss.Vocabulary

namespace AttributeCss

open Markup

/-- A declaring attribute in a template. -/
structure Occurrence where
  name : Text
  /-- The value; several values have spaces between them. -/
  value : Text
  facets : Facets
deriving DecidableEq, Repr

namespace Occurrence

/-- The name and values of an attribute bound to a conditional expression. -/
def bound? : Attribute → Option (Text × Text)
  | .directive ⟨name, some argument, _, some expression⟩ =>
      if name = "bind" then (Ternary.combined? expression).map fun value => (argument, value)
      else none
  | _ => none

/-- The name and value of a static attribute; no value is an empty one. -/
def static? : Attribute → Option (Text × Text)
  | .static name value => some (name, value.getD [])
  | .directive _ => none

/-- The occurrence of an attribute with a value, if its name is in the vocabulary. -/
def of? (v : Vocabulary) (name value : Text) : Option Occurrence :=
  let facets := v.nameFacets name
  if facets.isDeclaration then some ⟨name, value, facets ∪ v.occurrenceFacets name value⟩ else none

/-- The occurrences among the attributes of one element. -/
def ofAttributes (v : Vocabulary) (attributes : List Attribute) : List Occurrence :=
  (attributes.filterMap bound? ++ attributes.filterMap static?).filterMap fun (name, value) =>
    of? v name value

mutual

def ofNode (v : Vocabulary) : Node → List Occurrence
  | .element tag attributes children =>
      if tag = "svg" then [] else ofAttributes v attributes ++ ofNodes v children
  | .choice branches => ofBranches v branches
  | .loop _ children => ofNodes v children
  | .text _ | .comment _ | .interpolation _ => []

def ofNodes (v : Vocabulary) : List Node → List Occurrence
  | [] => []
  | n :: r => ofNode v n ++ ofNodes v r

def ofBranches (v : Vocabulary) : List (Option Text × List Node) → List Occurrence
  | [] => []
  | b :: r => ofBranch v b ++ ofBranches v r

def ofBranch (v : Vocabulary) : Option Text × List Node → List Occurrence
  | (_, body) => ofNodes v body

end

end Occurrence

end AttributeCss
