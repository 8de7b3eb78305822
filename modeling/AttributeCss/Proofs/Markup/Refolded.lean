/-
Folding twice.

Folding leaves nothing to fold.  An element with a condition goes into a chain
and one with a loop into that loop, so what stays in sight has none of the four
directives, and a branch that moves back changes nothing but the chain it
joins.  This holds of every template, one with chains and loops in it included.

An element may have a directive more than once.  Only the first is taken, but
the element is out of sight then: folding does not look into chains and loops,
neither to take the others nor when it is done again.
-/
import AttributeCss.Proofs.Markup.Folded

namespace AttributeCss.Markup

/-! ## What is in sight -/

/-- The node is one of the nodes, or stands inside one of them with only elements around it. -/
inductive Exposed (n : Node) : List Node → Prop
  | here {nodes : List Node} : n ∈ nodes → Exposed n nodes
  | inside {tag : Text} {attributes : List Attribute} {children nodes : List Node} :
      .element tag attributes children ∈ nodes → Exposed n children → Exposed n nodes

theorem folded_of_exposed {n : Node} {nodes : List Node} (hn : Exposed n nodes)
    (h : ∀ m ∈ nodes, m.Folded) : n.Folded := by
  induction hn with
  | here hmem => exact h n hmem
  | inside hmem _ ih =>
      cases h _ hmem with
      | element _ hchildren => exact ih hchildren

/-! ## What folding leaves in sight -/

theorem name_ne_of_takeDirective? {name : Text} {attributes : List Attribute}
    (h : takeDirective? name attributes = none) {d : Directive}
    (hd : .directive d ∈ attributes) : d.name ≠ name := by
  induction attributes with
  | nil => cases hd
  | cons a r ih =>
      cases a with
      | static n v =>
          have hrest : takeDirective? name r = none := Option.map_eq_none_iff.mp h
          exact ih hrest ((List.mem_cons.mp hd).resolve_left nofun)
      | directive d' =>
          rw [takeDirective?] at h
          split at h
          · cases h
          · next hne =>
              rcases List.mem_cons.mp hd with heq | hmem
              · exact Attribute.directive.inj heq ▸ hne
              · exact ih (Option.map_eq_none_iff.mp h) hmem

/-- An element that is under no condition keeps its attributes, and none of them is one. -/
theorem takeCondition_eq_none {attributes : List Attribute}
    (h : (takeCondition attributes).1 = none) :
    (takeCondition attributes).2 = attributes ∧
      ∀ name ∈ ["if".toList, "else-if".toList, "else".toList],
        takeDirective? name attributes = none := by
  unfold takeCondition at h ⊢
  split at h
  · cases h
  · next hif =>
      split at h
      · cases h
      · next helseIf =>
          split at h
          · cases h
          · next helse =>
              refine ⟨rfl, ?_⟩
              simp only [List.forall_mem_cons]
              exact ⟨hif, helseIf, helse, nofun⟩

theorem folded_looped {tag : Text} {attributes : List Attribute} {children : List Node}
    (hcondition : (takeCondition attributes).1 = none) (hchildren : ∀ n ∈ children, n.Folded) :
    (looped tag (takeCondition attributes).2 children).Folded := by
  obtain ⟨hsame, huntaken⟩ := takeCondition_eq_none hcondition
  rw [hsame]
  unfold looped
  split
  · exact .loop _ _
  · next hfor =>
      refine .element ?_ hchildren
      intro a ha hstructural
      cases a with
      | static => exact hstructural
      | directive d =>
          have hname : d.name ∈ ["if".toList, "else-if".toList, "else".toList] ∨
              d.name ∈ ["for".toList] := List.mem_append.mp hstructural
          have hnone : takeDirective? d.name attributes = none := by
            rcases hname with hcondition | hloop
            · exact huntaken _ hcondition
            · rw [List.mem_singleton.mp hloop]
              exact hfor
          exact name_ne_of_takeDirective? hnone ha rfl

theorem folded_joinChain? {branch : Option Text × List Node} {before nodes : List Node}
    (hbefore : ∀ n ∈ before, n.Folded) (h : joinChain? branch before = some nodes) :
    ∀ n ∈ nodes, n.Folded := by
  fun_induction joinChain? branch before generalizing nodes with
  | case1 branches before =>
      obtain rfl := Option.some.inj h
      exact List.forall_mem_cons.mpr ⟨.choice _, (List.forall_mem_cons.mp hbefore).2⟩
  | case2 t before ih =>
      obtain ⟨joined, hjoined, rfl⟩ := Option.map_eq_some_iff.mp h
      exact List.forall_mem_cons.mpr ⟨.comment t, ih (List.forall_mem_cons.mp hbefore).2 hjoined⟩
  | case3 => cases h

theorem folded_attach {before : List Node} (hbefore : ∀ n ∈ before, n.Folded)
    (branch : Option Text × List Node) : ∀ n ∈ attach before branch, n.Folded := by
  unfold attach
  cases h : joinChain? branch before with
  | some nodes => exact folded_joinChain? hbefore h
  | none => exact List.forall_mem_cons.mpr ⟨.choice _, hbefore⟩

/-- An element whose children are folded is placed so that nothing in sight is left to fold. -/
theorem folded_place {before children : List Node} (hbefore : ∀ n ∈ before, n.Folded)
    (hchildren : ∀ n ∈ children, n.Folded) (tag : Text) (attributes : List Attribute) :
    ∀ n ∈ place before (.element tag attributes children), n.Folded := by
  simp only [place]
  split
  · next hcondition =>
      exact List.forall_mem_cons.mpr ⟨folded_looped hcondition hchildren, hbefore⟩
  · exact List.forall_mem_cons.mpr ⟨.choice _, hbefore⟩
  · exact folded_attach hbefore _
  · exact folded_attach hbefore _

mutual

theorem folded_place_foldInside : ∀ {before : List Node} (n : Node), (∀ m ∈ before, m.Folded) →
    ∀ m ∈ place before (foldInside n), m.Folded
  | before, .element tag attributes children, hbefore => by
      have hchildren : ∀ n ∈ (foldOnto [] children).reverse, n.Folded := by
        intro n hn
        exact folded_foldOnto children (List.forall_mem_nil _) n (List.mem_reverse.mp hn)
      exact folded_place hbefore hchildren tag attributes
  | _, .text t, hbefore => List.forall_mem_cons.mpr ⟨.text t, hbefore⟩
  | _, .comment t, hbefore => List.forall_mem_cons.mpr ⟨.comment t, hbefore⟩
  | _, .interpolation t, hbefore => List.forall_mem_cons.mpr ⟨.interpolation t, hbefore⟩
  | _, .choice branches, hbefore => List.forall_mem_cons.mpr ⟨.choice branches, hbefore⟩
  | _, .loop source children, hbefore => List.forall_mem_cons.mpr ⟨.loop source children, hbefore⟩

/-- The nodes placed so far are the invariant: nothing in sight among them is left to fold, and the
next node, its children folded first, is placed so that this stays. -/
theorem folded_foldOnto : ∀ {before : List Node} (nodes : List Node), (∀ m ∈ before, m.Folded) →
    ∀ m ∈ foldOnto before nodes, m.Folded
  | _, [], hbefore => hbefore
  | _, n :: r, hbefore => folded_foldOnto r (folded_place_foldInside n hbefore)

end

theorem folded_fold (nodes : List Node) : ∀ n ∈ fold nodes, n.Folded := by
  intro n hn
  exact folded_foldOnto nodes (List.forall_mem_nil _) n (List.mem_reverse.mp hn)

/-- **Folding is done in one pass.**  Doing it again changes nothing, and no element that is still
in sight has one of the directives that folding takes. -/
theorem fold_settled (nodes : List Node) :
    fold (fold nodes) = fold nodes ∧
      ∀ {tag : Text} {attributes : List Attribute} {children : List Node},
        Exposed (.element tag attributes children) (fold nodes) →
          ∀ d, .directive d ∈ attributes → d.name ∉ structuralNames := by
  refine ⟨fold_of_folded (folded_fold nodes), ?_⟩
  intro tag attributes children hexposed d hd
  cases folded_of_exposed hexposed (folded_fold nodes) with
  | element hattributes _ => exact hattributes (.directive d) hd

/-- A list whose first item is under two conditions and two loops. -/
def crowded : List Node :=
  [.element "ul" []
    [.element "li" [.directive { name := "for", expression := some "a in as" },
        .directive { name := "if", expression := some "x" },
        .directive { name := "if", expression := some "y" },
        .directive { name := "for", expression := some "b in bs" }] [],
      .comment "or",
      .element "li" [.directive { name := "else" }] [],
      .element "li" [.directive { name := "bind", argument := some "xe-m" }] []]]

theorem fold_settled_crowded :
    let last : Directive := { name := "bind", argument := some "xe-m" }
    Exposed (.element "li" [.directive last] []) (fold crowded) ∧
      last.name ∉ structuralNames ∧
      fold (fold crowded) =
        [.element "ul" []
          [.choice [(some "x", [.loop "a in as"
                [.element "li" [.directive { name := "if", expression := some "y" },
                  .directive { name := "for", expression := some "b in bs" }] []]]),
              (none, [.element "li" [] []])],
            .comment "or",
            .element "li" [.directive last] []]] := by
  intro last
  have hexposed : Exposed (.element "li" [.directive last] []) (fold crowded) := by
    refine .inside List.mem_cons_self (.here ?_)
    exact List.mem_cons_of_mem _ (List.mem_cons_of_mem _ List.mem_cons_self)
  obtain ⟨hagain, hexposedNames⟩ := fold_settled crowded
  exact ⟨hexposed, hexposedNames hexposed last List.mem_cons_self, hagain.trans rfl⟩

end AttributeCss.Markup
