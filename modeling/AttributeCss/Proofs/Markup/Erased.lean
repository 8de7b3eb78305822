/-
What a scan does not see of a template.

Pictures, texts, comments, interpolations and all directives but bindings may
as well not be there, and of chains and loops only the nodes inside count.
`erase` takes all of this away and leaves elements with static attributes and
bindings (`Node.Bare`).  A scan finds the same before and after, so it cannot
tell templates apart that erase to the same.
-/
import AttributeCss.Proofs.Markup.Folded

namespace AttributeCss

namespace Markup

/-! ## Erasing -/

/-- The attribute may declare something: it is static, or a binding. -/
def Attribute.mayDeclare : Attribute → Bool
  | .static _ _ => true
  | .directive d => d.name = "bind"

mutual

def eraseNode : Node → List Node
  | .element tag attributes children =>
      if tag = "svg" then []
      else [.element tag (attributes.filter Attribute.mayDeclare) (erase children)]
  | .choice branches => eraseBranches branches
  | .loop _ children => erase children
  | .text _ | .comment _ | .interpolation _ => []

/-- What is left of a list of nodes. -/
def erase : List Node → List Node
  | [] => []
  | n :: r => eraseNode n ++ erase r

def eraseBranches : List (Option Text × List Node) → List Node
  | [] => []
  | b :: r => eraseBranch b ++ eraseBranches r

def eraseBranch : Option Text × List Node → List Node
  | (_, body) => erase body

end

/-- The node is an element that is no picture, with static attributes and bindings only, and so is
all there is in it. -/
inductive Node.Bare : Node → Prop
  | element {tag : Text} {attributes : List Attribute} {children : List Node} : tag ≠ "svg" →
      (∀ a ∈ attributes, a.mayDeclare = true) → (∀ n ∈ children, Node.Bare n) →
      Node.Bare (.element tag attributes children)

mutual

theorem bare_of_mem_eraseNode : ∀ n, ∀ m ∈ eraseNode n, m.Bare
  | .element tag attributes children, m, hm => by
      rw [eraseNode] at hm
      split at hm
      · cases hm
      · next hpicture =>
          obtain rfl := List.mem_singleton.mp hm
          exact .element hpicture (fun a ha => (List.mem_filter.mp ha).2)
            (bare_of_mem_erase children)
  | .choice branches, m, hm => bare_of_mem_eraseBranches branches m hm
  | .loop _ children, m, hm => bare_of_mem_erase children m hm
  | .text _, _, hm | .comment _, _, hm | .interpolation _, _, hm => nomatch hm

theorem bare_of_mem_erase : ∀ nodes, ∀ m ∈ erase nodes, m.Bare
  | [], _, hm => nomatch hm
  | n :: r, m, hm =>
      (List.mem_append.mp hm).elim (bare_of_mem_eraseNode n m) (bare_of_mem_erase r m)

theorem bare_of_mem_eraseBranches : ∀ branches, ∀ m ∈ eraseBranches branches, m.Bare
  | [], _, hm => nomatch hm
  | b :: r, m, hm =>
      (List.mem_append.mp hm).elim (bare_of_mem_eraseBranch b m) (bare_of_mem_eraseBranches r m)

theorem bare_of_mem_eraseBranch : ∀ b, ∀ m ∈ eraseBranch b, m.Bare
  | (_, body), m, hm => bare_of_mem_erase body m hm

end

mutual

theorem eraseNode_of_bare : ∀ {n : Node}, n.Bare → eraseNode n = [n]
  | .element tag attributes children, .element hpicture hattributes hchildren => by
      rw [eraseNode, if_neg hpicture, List.filter_eq_self.mpr hattributes, erase_of_bare hchildren]

theorem erase_of_bare : ∀ {nodes : List Node}, (∀ n ∈ nodes, n.Bare) → erase nodes = nodes
  | [], _ => rfl
  | n :: r, h => by
      obtain ⟨hn, hr⟩ := List.forall_mem_cons.mp h
      rw [erase, eraseNode_of_bare hn, erase_of_bare hr]
      rfl

end

end Markup

open Markup

namespace Occurrence

variable {v : Vocabulary}

theorem ofAttributes_filter_mayDeclare (attributes : List Attribute) :
    ofAttributes v (attributes.filter Attribute.mayDeclare) = ofAttributes v attributes := by
  -- an attribute that is taken away is neither
  have hbound : ∀ a : Attribute, (if a.mayDeclare then bound? a else none) = bound? a := by
    intro a
    split
    · rfl
    · next ha =>
        cases a with
        | static name value => rfl
        | directive d => exact (bound?_of_name_ne fun hbind => ha (decide_eq_true hbind)).symm
  have hstatic : ∀ a : Attribute, (if a.mayDeclare then static? a else none) = static? a := by
    intro a
    split
    · rfl
    · next ha =>
        cases a with
        | static name value => exact absurd rfl ha
        | directive d => rfl
  simp only [ofAttributes, List.filterMap_filter, hbound, hstatic]

mutual

theorem ofNodes_eraseNode : ∀ n, ofNodes v (eraseNode n) = ofNode v n
  | .element tag attributes children => by
      rw [eraseNode]
      split
      · next hpicture => rw [ofNode, if_pos hpicture, ofNodes]
      · rw [ofNodes_singleton]
        exact ofNode_element_congr (ofAttributes_filter_mayDeclare attributes)
          (ofNodes_eraseNodes children)
  | .choice branches => ofNodes_eraseBranches branches
  | .loop _ children => ofNodes_eraseNodes children
  | .text _ | .comment _ | .interpolation _ => rfl

theorem ofNodes_eraseNodes : ∀ nodes, ofNodes v (erase nodes) = ofNodes v nodes
  | [] => rfl
  | n :: r => by
      rw [erase, ofNodes_append, ofNodes_eraseNode n, ofNodes_eraseNodes r, ofNodes]

theorem ofNodes_eraseBranches : ∀ branches,
    ofNodes v (eraseBranches branches) = ofBranches v branches
  | [] => rfl
  | b :: r => by
      rw [eraseBranches, ofNodes_append, ofNodes_eraseBranch b, ofNodes_eraseBranches r, ofBranches]

theorem ofNodes_eraseBranch : ∀ b, ofNodes v (eraseBranch b) = ofBranch v b
  | (_, body) => ofNodes_eraseNodes body

end

/-- **Only what may declare counts.**  Under any vocabulary a scan finds the same occurrences in the
same order in a template and in what is left of it when it is erased; what it finds in templates one
after the other is what it finds in the one and then in the other; and so it finds the same in two
templates that erase to the same.  What is left is elements that are no pictures, with static
attributes and bindings only, and of such elements nothing is taken away. -/
theorem ofNodes_erase (v : Vocabulary) (nodes nodes' : List Node) :
    ofNodes v (erase nodes) = ofNodes v nodes ∧
    ofNodes v (nodes ++ nodes') = ofNodes v nodes ++ ofNodes v nodes' ∧
    (erase nodes = erase nodes' → ofNodes v nodes = ofNodes v nodes') ∧
    (∀ n ∈ erase nodes, n.Bare) ∧ ((∀ n ∈ nodes, n.Bare) → erase nodes = nodes) := by
  refine ⟨ofNodes_eraseNodes nodes, ofNodes_append nodes nodes', fun hsame => ?_,
    bare_of_mem_erase nodes, erase_of_bare⟩
  calc ofNodes v nodes = ofNodes v (erase nodes) := (ofNodes_eraseNodes nodes).symm
    _ = ofNodes v (erase nodes') := by rw [hsame]
    _ = ofNodes v nodes' := ofNodes_eraseNodes nodes'

/-- A chain with a picture in it, and a loop inside an element, against the elements alone. -/
theorem ofNodes_erase_flat :
    let v : Vocabulary := ⟨"xe", ["hover"], by decide, by decide⟩
    let binding : Attribute := .directive { name := "bind", argument := some "xe-p",
                                            expression := some "a ? '1' : '2'" }
    let item : Node := .element "i" [.static "xe-m" (some "10"), binding] []
    let nodes : List Node :=
      [.text "one", .choice [(some "a", [item]), (none, [.element "svg" [] [item]])],
        .element "div" [.directive { name := "on", argument := some "click" }]
          [.loop "x in xs" [item], .comment "two"]]
    let nodes' : List Node := [item, .element "div" [] [item]]
    erase nodes = erase nodes' ∧ ofNodes v nodes = ofNodes v nodes' ∧
      (∀ n ∈ nodes', n.Bare) ∧ erase nodes' = nodes' ∧ (ofNodes v nodes).length = 4 := by
  intro v binding item nodes nodes'
  have hsame : erase nodes = erase nodes' := rfl
  have hflat : erase nodes = nodes' := rfl
  obtain ⟨-, -, hfound, hleft, -⟩ := ofNodes_erase v nodes nodes'
  rw [hflat] at hleft
  exact ⟨hsame, hfound hsame, hleft, (ofNodes_erase v nodes' nodes').2.2.2.2 hleft, by decide⟩

end Occurrence

end AttributeCss
