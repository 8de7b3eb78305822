/-
What is known of the attributes of a tree that was read.

Every attribute in the tree is one that was written, under a name of name
characters.  Reading puts it there, and folding only moves elements about and
takes attributes away.  A property of attributes is followed through the tree
by `Node.Every`.
-/
import Mathlib.Data.List.TakeWhile
import AttributeCss.Markup.Reader
import AttributeCss.Proofs.Text.Words

namespace AttributeCss.Markup

/-- An attribute as it can be written. -/
def Attribute.Written (a : Attribute) : Prop :=
  ∃ name value, name ≠ [] ∧ (∀ c ∈ name, isNameChar c = true) ∧ a = Attribute.ofRaw name value

theorem mem_of_mem_argument {name rest argument : Text} {expression : Option Text}
    (h : (Directive.ofParts name rest expression).argument = some argument) {c : Char}
    (hc : c ∈ argument) : c ∈ rest := by
  obtain ⟨hhead, -⟩ := Option.filter_eq_some_iff.mp h
  exact Text.mem_of_mem_splitOn (List.mem_of_head? hhead) hc

theorem mem_of_mem_dropColon {t : Text} {c : Char} (h : c ∈ Directive.dropColon t) : c ∈ t := by
  unfold Directive.dropColon at h
  split at h
  · exact List.mem_cons_of_mem _ h
  · exact h

theorem mem_name_of_mem_argument {name argument : Text} {value : Option Text} {d : Directive}
    (h : Attribute.ofRaw name value = .directive d) (hargument : d.argument = some argument)
    {c : Char} (hc : c ∈ argument) : c ∈ name := by
  unfold Attribute.ofRaw at h
  split at h
  · next r =>
      obtain rfl := Attribute.directive.inj h
      have hr : c ∈ r.dropWhile fun c => !Directive.endsName c :=
        mem_of_mem_dropColon (mem_of_mem_argument hargument hc)
      have hwritten : c ∈ r := (List.dropWhile_sublist _).subset hr
      exact List.mem_cons_of_mem _ (List.mem_cons_of_mem _ hwritten)
  · obtain rfl := Attribute.directive.inj h
    exact List.mem_cons_of_mem _ (mem_of_mem_argument hargument hc)
  · obtain rfl := Attribute.directive.inj h
    exact List.mem_cons_of_mem _ (mem_of_mem_argument hargument hc)
  · obtain rfl := Attribute.directive.inj h
    exact List.mem_cons_of_mem _ (mem_of_mem_argument hargument hc)
  · cases h

theorem eq_of_ofRaw_eq_static {name n : Text} {value w : Option Text}
    (h : Attribute.ofRaw name value = .static n w) : name = n := by
  unfold Attribute.ofRaw at h
  split at h
  · cases h
  · cases h
  · cases h
  · cases h
  · exact (Attribute.static.inj h).1

/-- All attributes in a node have the property. -/
inductive Node.Every (P : Attribute → Prop) : Node → Prop
  | element {tag : Text} {attributes : List Attribute} {children : List Node} :
      (∀ a ∈ attributes, P a) → (∀ n ∈ children, Node.Every P n) →
      Node.Every P (.element tag attributes children)
  | text (t : Text) : Node.Every P (.text t)
  | comment (t : Text) : Node.Every P (.comment t)
  | interpolation (t : Text) : Node.Every P (.interpolation t)
  | choice {branches : List (Option Text × List Node)} :
      (∀ b ∈ branches, ∀ n ∈ b.2, Node.Every P n) → Node.Every P (.choice branches)
  | loop {source : Text} {children : List Node} :
      (∀ n ∈ children, Node.Every P n) → Node.Every P (.loop source children)

/-! ## Reading -/

theorem exists_of_map_eq_ok {ε α β : Type} {x : Except ε α} {f : α → β} {b : β}
    (h : x.map f = .ok b) : ∃ a, x = .ok a ∧ f a = b := by
  cases x with
  | error e => cases h
  | ok a => exact ⟨a, rfl, Except.ok.inj h⟩

theorem written_of_readAttribute {s rest : Text} {a : Attribute}
    (h : readAttribute s = .ok (some (a, rest))) : a.Written := by
  unfold readAttribute at h
  dsimp only at h
  split at h
  · cases h
  · next hne =>
      obtain ⟨⟨value, r⟩, -, hfound⟩ := exists_of_map_eq_ok h
      obtain ⟨rfl, rfl⟩ := Prod.mk.inj (Option.some.inj hfound)
      exact ⟨s.takeWhile isNameChar, value, by simpa using hne,
        fun c hc => List.mem_takeWhile_imp hc, rfl⟩

theorem written_of_readAttributes {s rest : Text} {l : List Attribute}
    (h : readAttributes s = .ok (l, rest)) : ∀ a ∈ l, a.Written := by
  fun_induction readAttributes s generalizing l rest with
  | case1 s hs =>
      obtain ⟨rfl, -⟩ : [] = l ∧ s = rest := by simpa using h
      exact List.forall_mem_nil _
  | case2 => cases h
  | case3 s hs hnone =>
      obtain ⟨rfl, -⟩ : [] = l ∧ s = rest := by simpa using h
      exact List.forall_mem_nil _
  | case4 s hs a r hread hlt ih =>
      obtain ⟨⟨others, r'⟩, hothers, hl⟩ := exists_of_map_eq_ok h
      obtain ⟨rfl, rfl⟩ := Prod.mk.inj hl
      intro b hb
      rcases List.mem_cons.mp hb with rfl | hb
      · exact written_of_readAttribute hread
      · exact ih hothers b hb

theorem written_of_readOpening {s rest : Text} {o : Opening}
    (h : readOpening s = .ok (o, rest)) : ∀ a ∈ o.attributes, a.Written := by
  unfold readOpening at h
  split at h
  · cases h
  · next attributes r hattributes =>
      obtain ⟨_, -, hopening⟩ := exists_of_map_eq_ok h
      obtain ⟨rfl, rfl⟩ := Prod.mk.inj hopening
      exact written_of_readAttributes hattributes

/-- A part of markup, all attributes of which have been written. -/
def Lexeme.Written : Lexeme → Prop
  | .leaf n => n.Every Attribute.Written
  | .opening o => ∀ a ∈ o.attributes, a.Written

theorem written_of_readThrough {terminator what s rest : Text} {f : Text → Node} {x : Lexeme}
    (hf : ∀ t, (f t).Every Attribute.Written)
    (h : ((readThrough terminator what s).map fun (t, u) => (Lexeme.leaf (f t), u)) =
      .ok (x, rest)) : x.Written := by
  obtain ⟨⟨t, u⟩, -, hfound⟩ := exists_of_map_eq_ok h
  obtain ⟨rfl, rfl⟩ := Prod.mk.inj hfound
  exact hf t

theorem written_of_readRun {c : Char} {r rest : Text} {x : Lexeme}
    (h : (.ok (readRun c r) : Except Fault (Lexeme × Text)) = .ok (x, rest)) : x.Written := by
  obtain ⟨rfl, rfl⟩ := Prod.mk.inj (Except.ok.inj h)
  exact Node.Every.text _

theorem written_of_readLexeme {outer : Text} {c : Char} {r rest : Text} {x : Lexeme}
    (h : readLexeme outer c r = .ok (x, rest)) : x.Written := by
  unfold readLexeme at h
  split at h
  · exact written_of_readThrough (fun t => .comment (Text.trim t)) h
  · split at h
    · exact written_of_readThrough (fun t => .interpolation (Text.trim t)) h
    · split at h
      · cases r with
        | nil => exact written_of_readRun h
        | cons d u =>
            dsimp only at h
            split at h
            · obtain ⟨_, hopening, hfound⟩ := exists_of_map_eq_ok h
              obtain ⟨rfl, rfl⟩ := Prod.mk.inj hfound
              exact written_of_readOpening hopening
            · split at h
              · cases h
              · exact written_of_readRun h
      · exact written_of_readRun h

theorem every_append {P : Attribute → Prop} {done : List Node} (hdone : ∀ n ∈ done, n.Every P)
    {n : Node} (hn : n.Every P) : ∀ m ∈ done ++ [n], m.Every P := by
  intro m hm
  rcases List.mem_append.mp hm with hm | hm
  · exact hdone m hm
  · exact List.mem_singleton.mp hm ▸ hn

theorem every_keep {P : Attribute → Prop} {done : List Node} (hdone : ∀ n ∈ done, n.Every P)
    {n : Node} (hn : n.Every P) : ∀ m ∈ keep done n, m.Every P := by
  cases n with
  | text t =>
      simp only [keep]
      split
      · exact hdone
      · exact every_append hdone hn
  | element | comment | interpolation | choice | loop => exact every_append hdone hn

/-- What the reader remembers of an open element holds written attributes only. -/
def OpenElement.Written (o : OpenElement) : Prop :=
  (∀ a ∈ o.attributes, a.Written) ∧ ∀ n ∈ o.earlier, n.Every Attribute.Written

theorem written_of_readNodes {opened : List OpenElement} {done : List Node} {s : Text}
    {nodes : List Node} (hopened : ∀ o ∈ opened, o.Written)
    (hdone : ∀ n ∈ done, n.Every Attribute.Written) (h : readNodes opened done s = .ok nodes) :
    ∀ n ∈ nodes, n.Every Attribute.Written := by
  fun_induction readNodes opened done s with
  | case1 done => exact Except.ok.inj h ▸ hdone
  | case2 | case3 | case4 | case6 => cases h
  | case5 done r o outer rest hclosing hlt ih =>
      obtain ⟨hattributes, hearlier⟩ := hopened o List.mem_cons_self
      refine ih (fun o' ho' => hopened o' (List.mem_cons_of_mem _ ho')) ?_ h
      exact every_append hearlier (.element hattributes hdone)
  | case7 opened done c r hc n rest hread hlt ih =>
      exact ih hopened (every_keep hdone (written_of_readLexeme hread)) h
  | case8 opened done c r hc o rest hread hlt hcontents ih =>
      have hattributes : ∀ a ∈ o.attributes, a.Written := written_of_readLexeme hread
      refine ih ?_ nofun h
      intro o' ho'
      rcases List.mem_cons.mp ho' with rfl | ho'
      · exact ⟨hattributes, hdone⟩
      · exact hopened o' ho'
  | case9 opened done c r hc o rest hread hlt hcontents ih =>
      have hattributes : ∀ a ∈ o.attributes, a.Written := written_of_readLexeme hread
      exact ih hopened (every_append hdone (.element hattributes nofun)) h

/-! ## Folding -/

section Folding

variable {P : Attribute → Prop}

theorem subset_of_takeDirective? {name : Text} {attributes others : List Attribute} {d : Directive}
    (h : takeDirective? name attributes = some (d, others)) : others ⊆ attributes := by
  induction attributes generalizing d others with
  | nil => cases h
  | cons a r ih =>
      -- an attribute that is passed over stays in front of what is left
      have hcons : ∀ {found : Option (Directive × List Attribute)},
          found = takeDirective? name r →
          (found.map fun p => (p.1, a :: p.2)) = some (d, others) →
          others ⊆ a :: r := by
        intro found hfound hmap
        obtain ⟨⟨d', others'⟩, hr, heq⟩ := Option.map_eq_some_iff.mp hmap
        obtain ⟨rfl, rfl⟩ := Prod.mk.inj heq
        exact List.cons_subset_cons a (ih (hfound ▸ hr))
      cases a with
      | static n v => exact hcons rfl h
      | directive d' =>
          simp only [takeDirective?] at h
          split at h
          · obtain ⟨rfl, rfl⟩ := Prod.mk.inj (Option.some.inj h)
            exact List.subset_cons_self _ _
          · exact hcons rfl h

theorem takeCondition_subset (attributes : List Attribute) :
    (takeCondition attributes).2 ⊆ attributes := by
  unfold takeCondition
  split
  · next h => exact subset_of_takeDirective? h
  · split
    · next h => exact subset_of_takeDirective? h
    · split
      · next h => exact subset_of_takeDirective? h
      · exact List.Subset.refl _

theorem every_looped {tag : Text} {attributes : List Attribute} {children : List Node}
    (hattributes : ∀ a ∈ attributes, P a) (hchildren : ∀ n ∈ children, n.Every P) :
    (looped tag attributes children).Every P := by
  unfold looped
  split
  · next d others h =>
      refine .loop fun n hn => ?_
      obtain rfl := List.mem_singleton.mp hn
      exact .element (fun a ha => hattributes a (subset_of_takeDirective? h ha)) hchildren
  · exact .element hattributes hchildren

theorem every_joinChain? {branch : Option Text × List Node} (hbranch : ∀ n ∈ branch.2, n.Every P)
    {before nodes : List Node} (hbefore : ∀ n ∈ before, n.Every P)
    (h : joinChain? branch before = some nodes) : ∀ n ∈ nodes, n.Every P := by
  fun_induction joinChain? branch before generalizing nodes with
  | case1 branches before =>
      obtain rfl := Option.some.inj h
      intro n hn
      rcases List.mem_cons.mp hn with rfl | hn
      · cases hbefore (.choice branches) List.mem_cons_self with
        | choice hbranches =>
            refine .choice fun b hb => ?_
            rcases List.mem_append.mp hb with hb | hb
            · exact hbranches b hb
            · exact List.mem_singleton.mp hb ▸ hbranch
      · exact hbefore n (List.mem_cons_of_mem _ hn)
  | case2 t before ih =>
      obtain ⟨joined, hjoined, rfl⟩ := Option.map_eq_some_iff.mp h
      intro n hn
      rcases List.mem_cons.mp hn with rfl | hn
      · exact .comment t
      · exact ih (fun m hm => hbefore m (List.mem_cons_of_mem _ hm)) hjoined n hn
  | case3 before hchoice hcomment => cases h

theorem every_cons {before : List Node} {n : Node} (hn : n.Every P)
    (hbefore : ∀ n ∈ before, n.Every P) : ∀ m ∈ n :: before, m.Every P := by
  intro m hm
  rcases List.mem_cons.mp hm with rfl | hm
  · exact hn
  · exact hbefore m hm

theorem every_choice {branch : Option Text × List Node} (hbranch : ∀ n ∈ branch.2, n.Every P) :
    (Node.choice [branch]).Every P :=
  .choice fun _ hb => List.mem_singleton.mp hb ▸ hbranch

theorem every_attach {branch : Option Text × List Node} (hbranch : ∀ n ∈ branch.2, n.Every P)
    {before : List Node} (hbefore : ∀ n ∈ before, n.Every P) :
    ∀ n ∈ attach before branch, n.Every P := by
  unfold attach
  cases h : joinChain? branch before with
  | some nodes => exact every_joinChain? hbranch hbefore h
  | none => exact every_cons (every_choice hbranch) hbefore

theorem every_place {before : List Node} (hbefore : ∀ n ∈ before, n.Every P) {n : Node}
    (hn : n.Every P) : ∀ m ∈ place before n, m.Every P := by
  cases hn with
  | @element tag attributes children hattributes hchildren =>
      have hnode : (looped tag (takeCondition attributes).2 children).Every P :=
        every_looped (fun a ha => hattributes a (takeCondition_subset attributes ha)) hchildren
      have hbranch : ∀ n ∈ [looped tag (takeCondition attributes).2 children], n.Every P :=
        fun n hn => List.mem_singleton.mp hn ▸ hnode
      simp only [place]
      split
      · exact every_cons hnode hbefore
      · exact every_cons (every_choice hbranch) hbefore
      · exact every_attach hbranch hbefore
      · exact every_attach hbranch hbefore
  | text t => exact every_cons (.text t) hbefore
  | comment t => exact every_cons (.comment t) hbefore
  | interpolation t => exact every_cons (.interpolation t) hbefore
  | choice h => exact every_cons (.choice h) hbefore
  | loop h => exact every_cons (.loop h) hbefore

mutual

theorem every_foldInside : ∀ {n : Node}, n.Every P → (foldInside n).Every P
  | .element tag attributes children, .element hattributes hchildren => by
      refine .element hattributes fun n hn => ?_
      exact every_foldOnto (List.forall_mem_nil _) hchildren n (List.mem_reverse.mp hn)
  | .text t, _ => .text t
  | .comment t, _ => .comment t
  | .interpolation t, _ => .interpolation t
  | .choice branches, h => h
  | .loop source children, h => h

theorem every_foldOnto : ∀ {before nodes : List Node}, (∀ n ∈ before, n.Every P) →
    (∀ n ∈ nodes, n.Every P) → ∀ n ∈ foldOnto before nodes, n.Every P
  | before, [], hbefore, _ => hbefore
  | before, n :: r, hbefore, hnodes => by
      have hn : (foldInside n).Every P := every_foldInside (hnodes n List.mem_cons_self)
      have hr : ∀ m ∈ r, m.Every P := fun m hm => hnodes m (List.mem_cons_of_mem _ hm)
      show ∀ m ∈ foldOnto (place before (foldInside n)) r, m.Every P
      exact every_foldOnto (every_place hbefore hn) hr

end

end Folding

theorem written_of_read {source : Text} {nodes : List Node} (h : read source = .ok nodes) :
    ∀ n ∈ nodes, n.Every Attribute.Written := by
  unfold read at h
  split at h
  · next flat hflat =>
      obtain rfl := Except.ok.inj h
      have hread := written_of_readNodes (List.forall_mem_nil _) (List.forall_mem_nil _) hflat
      intro n hn
      exact every_foldOnto (List.forall_mem_nil _) hread n (List.mem_reverse.mp hn)
  · cases h

end AttributeCss.Markup
