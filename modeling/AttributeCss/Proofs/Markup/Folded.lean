/-
What folding keeps.

Folding loses no occurrence.  It takes four directives away, puts elements into
chains and loops, and moves else branches back over comments into the chain
before them.  None of this is seen by a scan: the four directives declare
nothing, chains and loops declare what their elements do, and between a chain
and a branch that joins it there is nothing but comments.  The occurrences of a
folded template are those of the template, in the same order and as often.

A template without the four directives is not changed at all.
-/
import AttributeCss.Markup.Folding
import AttributeCss.Occurrence
import AttributeCss.Proofs.Markup.Written

namespace AttributeCss

open Markup

/-! ## Directives that are taken away -/

namespace Markup

/-- Taking a directive takes that one attribute and leaves the others in place. -/
theorem eq_append_of_takeDirective? {name : Text} {attributes others : List Attribute}
    {d : Directive} (h : takeDirective? name attributes = some (d, others)) :
    ∃ before after, attributes = before ++ .directive d :: after ∧ others = before ++ after ∧
      d.name = name := by
  induction attributes generalizing others with
  | nil => cases h
  | cons a r ih =>
      -- an attribute that is passed over is one more of those before
      have hpassed : ∀ {found : Option (Directive × List Attribute)},
          found = takeDirective? name r →
          (found.map fun p => (p.1, a :: p.2)) = some (d, others) →
          ∃ before after, a :: r = before ++ .directive d :: after ∧ others = before ++ after ∧
            d.name = name := by
        intro found hfound hmap
        obtain ⟨⟨d', rest⟩, hrest, heq⟩ := Option.map_eq_some_iff.mp hmap
        obtain ⟨rfl, rfl⟩ := Prod.mk.inj heq
        obtain ⟨before, after, rfl, rfl, hname⟩ := ih (hfound ▸ hrest)
        exact ⟨a :: before, after, rfl, rfl, hname⟩
      cases a with
      | static n v => exact hpassed rfl h
      | directive d' =>
          simp only [takeDirective?] at h
          split at h
          · next hname =>
              obtain ⟨rfl, rfl⟩ := Prod.mk.inj (Option.some.inj h)
              exact ⟨[], r, rfl, rfl, hname⟩
          · exact hpassed rfl h

/-! ## Templates without them -/

/-- The names of the directives that folding takes away. -/
def structuralNames : List Text := ["if", "else-if", "else", "for"]

/-- The attribute is a directive that folding takes away. -/
def Attribute.IsStructural : Attribute → Prop
  | .static _ _ => False
  | .directive d => d.name ∈ structuralNames

/-- Nothing in the node is left to fold.  What chains and loops contain does not count: folding does
not look there. -/
inductive Node.Folded : Node → Prop
  | element {tag : Text} {attributes : List Attribute} {children : List Node} :
      (∀ a ∈ attributes, ¬ a.IsStructural) → (∀ n ∈ children, Node.Folded n) →
      Node.Folded (.element tag attributes children)
  | text (t : Text) : Node.Folded (.text t)
  | comment (t : Text) : Node.Folded (.comment t)
  | interpolation (t : Text) : Node.Folded (.interpolation t)
  | choice (branches : List (Option Text × List Node)) : Node.Folded (.choice branches)
  | loop (source : Text) (children : List Node) : Node.Folded (.loop source children)

theorem takeDirective?_eq_none {attributes : List Attribute}
    (h : ∀ a ∈ attributes, ¬ a.IsStructural) {name : Text} (hname : name ∈ structuralNames) :
    takeDirective? name attributes = none := by
  rw [Option.eq_none_iff_forall_ne_some]
  intro (d, others) htaken
  obtain ⟨before, after, rfl, -, rfl⟩ := eq_append_of_takeDirective? htaken
  exact h (.directive d) (List.mem_append_right before List.mem_cons_self) hname

theorem takeCondition_of_not_structural {attributes : List Attribute}
    (h : ∀ a ∈ attributes, ¬ a.IsStructural) : takeCondition attributes = (none, attributes) := by
  have hif : takeDirective? "if" attributes = none := takeDirective?_eq_none h (by decide)
  have helseIf : takeDirective? "else-if" attributes = none := takeDirective?_eq_none h (by decide)
  have helse : takeDirective? "else" attributes = none := takeDirective?_eq_none h (by decide)
  simp only [takeCondition, hif, helseIf, helse]

theorem place_of_folded (before : List Node) {n : Node} (h : n.Folded) :
    place before n = n :: before := by
  cases h with
  | @element tag attributes children hattributes hchildren =>
      have hfor : takeDirective? "for" attributes = none :=
        takeDirective?_eq_none hattributes (by decide)
      simp only [place, takeCondition_of_not_structural hattributes, looped, hfor]
  | text | comment | interpolation | choice | loop => rfl

mutual

theorem foldInside_of_folded : ∀ {n : Node}, n.Folded → foldInside n = n
  | .element tag attributes children, .element _ hchildren => by
      rw [foldInside, foldOnto_of_folded [] hchildren, List.append_nil, List.reverse_reverse]
  | .text _, _ | .comment _, _ | .interpolation _, _ | .choice _, _ | .loop _ _, _ => rfl

theorem foldOnto_of_folded : ∀ before {nodes : List Node}, (∀ n ∈ nodes, n.Folded) →
    foldOnto before nodes = nodes.reverse ++ before
  | before, [], _ => rfl
  | before, n :: r, h => by
      obtain ⟨hn, hr⟩ := List.forall_mem_cons.mp h
      rw [foldOnto, foldInside_of_folded hn, place_of_folded before hn,
        foldOnto_of_folded (n :: before) hr, List.reverse_cons, List.append_assoc]
      rfl

end

/-- Folding does not change a template in which nothing is left to fold. -/
theorem fold_of_folded {nodes : List Node} (h : ∀ n ∈ nodes, n.Folded) : fold nodes = nodes := by
  rw [fold, foldOnto_of_folded [] h, List.append_nil, List.reverse_reverse]

end Markup

namespace Occurrence

variable {v : Vocabulary}

theorem bound?_of_name_ne {d : Directive} (h : d.name ≠ "bind".toList) :
    bound? (.directive d) = none := by
  obtain ⟨name, argument, modifiers, expression⟩ := d
  cases argument with
  | none => rfl
  | some argument =>
      cases expression with
      | none => rfl
      | some expression => exact if_neg h

theorem ofAttributes_takeDirective? {name : Text} (hname : name ≠ "bind".toList)
    {attributes others : List Attribute} {d : Directive}
    (h : takeDirective? name attributes = some (d, others)) :
    ofAttributes v others = ofAttributes v attributes := by
  obtain ⟨before, after, rfl, rfl, rfl⟩ := eq_append_of_takeDirective? h
  have hstatic : static? (.directive d) = none := rfl
  simp only [ofAttributes, List.filterMap_append, List.filterMap_cons, bound?_of_name_ne hname,
    hstatic]

theorem ofAttributes_takeCondition (attributes : List Attribute) :
    ofAttributes v (takeCondition attributes).2 = ofAttributes v attributes := by
  unfold takeCondition
  split
  · next h => exact ofAttributes_takeDirective? (by decide) h
  · split
    · next h => exact ofAttributes_takeDirective? (by decide) h
    · split
      · next h => exact ofAttributes_takeDirective? (by decide) h
      · rfl

/-! ## Nodes -/

theorem ofNodes_eq_flatMap : ∀ nodes, ofNodes v nodes = nodes.flatMap (ofNode v)
  | [] => rfl
  | n :: r => by
      rw [ofNodes, ofNodes_eq_flatMap r, List.flatMap_cons]

@[simp] theorem ofNodes_append (a b : List Node) :
    ofNodes v (a ++ b) = ofNodes v a ++ ofNodes v b := by
  simp only [ofNodes_eq_flatMap, List.flatMap_append]

@[simp] theorem ofNodes_singleton (n : Node) : ofNodes v [n] = ofNode v n :=
  List.append_nil _

theorem ofNodes_reverse_cons (n : Node) (before : List Node) :
    ofNodes v (n :: before).reverse = ofNodes v before.reverse ++ ofNode v n := by
  rw [List.reverse_cons, ofNodes_append, ofNodes_singleton]

theorem ofBranches_append (a b : List (Option Text × List Node)) :
    ofBranches v (a ++ b) = ofBranches v a ++ ofBranches v b := by
  induction a with
  | nil => rfl
  | cons branch a ih => rw [List.cons_append, ofBranches, ofBranches, ih, List.append_assoc]

/-- An element declares the same with any attributes that declare the same, and children that do. -/
theorem ofNode_element_congr {tag : Text} {attributes attributes' : List Attribute}
    {children children' : List Node}
    (hattributes : ofAttributes v attributes = ofAttributes v attributes')
    (hchildren : ofNodes v children = ofNodes v children') :
    ofNode v (.element tag attributes children) = ofNode v (.element tag attributes' children') := by
  rw [ofNode, ofNode, hattributes, hchildren]

theorem ofNode_looped (tag : Text) (attributes : List Attribute) (children : List Node) :
    ofNode v (looped tag attributes children) = ofNode v (.element tag attributes children) := by
  unfold looped
  split
  · next d others h =>
      refine (ofNodes_singleton _).trans ?_
      exact ofNode_element_congr (ofAttributes_takeDirective? (by decide) h) rfl
  · rfl

theorem ofNode_choice_singleton (condition : Option Text) (n : Node) :
    ofNode v (.choice [(condition, [n])]) = ofNode v n := by
  rw [ofNode, ofBranches, ofBranches, List.append_nil, ofBranch, ofNodes_singleton]

/-! ## Folding, over the nodes placed so far -/

theorem ofNodes_joinChain? {branch : Option Text × List Node} {before nodes : List Node}
    (h : joinChain? branch before = some nodes) :
    ofNodes v nodes.reverse = ofNodes v before.reverse ++ ofBranch v branch := by
  fun_induction joinChain? branch before generalizing nodes with
  | case1 branches before =>
      obtain rfl := Option.some.inj h
      rw [ofNodes_reverse_cons, ofNodes_reverse_cons, ofNode, ofNode, ofBranches_append,
        List.append_assoc, ofBranches, ofBranches, List.append_nil]
  | case2 t before ih =>
      obtain ⟨joined, hjoined, rfl⟩ := Option.map_eq_some_iff.mp h
      rw [ofNodes_reverse_cons, ofNodes_reverse_cons, ih hjoined, ofNode, List.append_nil,
        List.append_nil]
  | case3 => cases h

theorem ofNodes_attach (before : List Node) (branch : Option Text × List Node) :
    ofNodes v (attach before branch).reverse = ofNodes v before.reverse ++ ofBranch v branch := by
  unfold attach
  cases h : joinChain? branch before with
  | some nodes => exact ofNodes_joinChain? h
  | none =>
      rw [Option.getD_none, ofNodes_reverse_cons, ofNode, ofBranches, ofBranches, List.append_nil]

/-- Wherever a node is placed, its occurrences come behind those of the nodes before it. -/
theorem ofNodes_place (before : List Node) (n : Node) :
    ofNodes v (place before n).reverse = ofNodes v before.reverse ++ ofNode v n := by
  cases n with
  | element tag attributes children =>
      have hnode : ofNode v (looped tag (takeCondition attributes).2 children) =
          ofNode v (.element tag attributes children) := by
        rw [ofNode_looped]
        exact ofNode_element_congr (ofAttributes_takeCondition attributes) rfl
      simp only [place]
      split
      · rw [ofNodes_reverse_cons, hnode]
      · rw [ofNodes_reverse_cons, ofNode_choice_singleton, hnode]
      · rw [ofNodes_attach, ofBranch, ofNodes_singleton, hnode]
      · rw [ofNodes_attach, ofBranch, ofNodes_singleton, hnode]
  | text | comment | interpolation | choice | loop => exact ofNodes_reverse_cons _ before

mutual

theorem ofNode_foldInside : ∀ n, ofNode v (foldInside n) = ofNode v n
  | .element tag attributes children => by
      rw [foldInside]
      refine ofNode_element_congr rfl ?_
      rw [ofNodes_foldOnto [] children]
      exact List.nil_append _
  | .text _ | .comment _ | .interpolation _ | .choice _ | .loop _ _ => rfl

theorem ofNodes_foldOnto : ∀ before nodes,
    ofNodes v (foldOnto before nodes).reverse = ofNodes v before.reverse ++ ofNodes v nodes
  | before, [] => (List.append_nil _).symm
  | before, n :: r => by
      rw [foldOnto, ofNodes_foldOnto (place before (foldInside n)) r, ofNodes_place,
        ofNode_foldInside n, List.append_assoc, ofNodes]

end

/-- **Folding loses nothing.**  A scan finds the same occurrences in the same order whether the
template has been folded or not, chains and loops that stand in it already included. -/
theorem ofNodes_fold (v : Vocabulary) (nodes : List Node) :
    ofNodes v (fold nodes) = ofNodes v nodes := by
  rw [fold, ofNodes_foldOnto]
  exact List.nil_append _

end Occurrence

end AttributeCss
