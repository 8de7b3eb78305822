/-
The form reading leaves a template in.

A template that was read is in normal form whatever its source was: tags and
names are spelled as markup spells them, no text is blank and none stands next
to another, what is said in comments and interpolations has no blanks around
it, and each branch of a chain and each loop has one node inside.

The reader brings elements, texts, comments and interpolations into this form,
and folding keeps it.  What carries the first is that a text is read up to the
place where markup starts; what carries the second is that a branch moves back
over comments only, and into a chain, so no text gets a new neighbour that is
a text.
-/
import AttributeCss.Proofs.Markup.Lexed
import AttributeCss.Proofs.Markup.Written
import AttributeCss.Proofs.Text.Trimmed

namespace AttributeCss

namespace Markup

/-! ## The form -/

/-- A name as markup spells it: not empty, and without blanks, quotes and the marks of tags. -/
def IsName (t : Text) : Prop :=
  t ≠ [] ∧ ∀ c ∈ t, Text.isBlank c = false ∧
    c ∉ [Text.quoteMark, Text.apostrophe, '=', '<', '>', '/']

/-- A static attribute has a name, and so has whatever a directive applies to. -/
def Attribute.Named : Attribute → Prop
  | .static name _ => IsName name
  | .directive d => ∀ argument, d.argument = some argument → IsName argument

def Node.isElement : Node → Bool
  | .element .. => true
  | _ => false

def Node.isLoop : Node → Bool
  | .loop .. => true
  | _ => false

/-- The node is in normal form, with all there is in it. -/
inductive Node.Normal : Node → Prop
  | element {tag : Text} {attributes : List Attribute} {children : List Node} : IsTag tag →
      (isVoid tag = true → children = []) → (∀ n ∈ children, Node.Normal n) →
      children.IsChain Node.Parted → Node.Normal (.element tag attributes children)
  | text {t : Text} : Text.allBlank t = false → Node.Normal (.text t)
  | comment {t : Text} : Text.trim t = t → Node.Normal (.comment t)
  | interpolation {t : Text} : Text.trim t = t → Node.Normal (.interpolation t)
  | choice {branches : List (Option Text × List Node)} : branches ≠ [] →
      (∀ b ∈ branches, ∃ n, b.2 = [n] ∧ (n.isElement || n.isLoop) = true) →
      (∀ b ∈ branches, ∀ n ∈ b.2, Node.Normal n) → Node.Normal (.choice branches)
  | loop {source : Text} {children : List Node} : (∃ n, children = [n] ∧ n.isElement = true) →
      (∀ n ∈ children, Node.Normal n) → Node.Normal (.loop source children)

/-- Each of the nodes is in normal form, and no two texts stand next to each other. -/
structure Normal (nodes : List Node) : Prop where
  each : ∀ n ∈ nodes, n.Normal
  parted : nodes.IsChain Node.Parted

theorem normal_nil : Normal [] := ⟨nofun, .nil⟩

theorem Node.Parted.of_not_text_right (m : Node) {n : Node} (h : n.isText = false) :
    m.Parted n := fun _ => h

theorem Node.Parted.symm {m n : Node} (h : m.Parted n) : n.Parted m := by
  intro hn
  by_contra hm
  rw [h (by simpa using hm)] at hn
  cases hn

theorem Normal.concat {nodes : List Node} (h : Normal nodes) {n : Node} (hn : n.Normal)
    (hlast : ∀ m ∈ nodes.getLast?, m.Parted n) : Normal (nodes ++ [n]) where
  each m hm := by
    rcases List.mem_append.mp hm with hm | hm
    · exact h.each m hm
    · exact List.mem_singleton.mp hm ▸ hn
  parted := by
    refine List.isChain_append.mpr ⟨h.parted, .singleton n, ?_⟩
    intro m hm m' hm'
    obtain rfl : n = m' := by simpa using hm'
    exact hlast m hm

theorem Normal.concat_of_not_text {nodes : List Node} (h : Normal nodes) {n : Node} (hn : n.Normal)
    (hnot : n.isText = false) : Normal (nodes ++ [n]) :=
  h.concat hn fun m _ => .of_not_text_right m hnot

theorem Normal.cons {nodes : List Node} (h : Normal nodes) {n : Node} (hn : n.Normal)
    (hhead : ∀ m ∈ nodes.head?, m.Parted n) : Normal (n :: nodes) where
  each := List.forall_mem_cons.mpr ⟨hn, h.each⟩
  parted := List.isChain_cons.mpr ⟨fun m hm => (hhead m hm).symm, h.parted⟩

theorem Normal.reverse {nodes : List Node} (h : Normal nodes) : Normal nodes.reverse where
  each n hn := h.each n (List.mem_reverse.mp hn)
  parted := List.isChain_reverse.mpr (h.parted.imp fun _ _ => Node.Parted.symm)

/-! ## Attributes -/

theorem not_blank_of_isNameChar {c : Char} (h : isNameChar c = true) :
    Text.isBlank c = false ∧ c ∉ [Text.quoteMark, Text.apostrophe, '=', '<', '>', '/'] := by
  simp only [isNameChar, isReserved, Bool.and_eq_true, Bool.not_eq_true', Bool.or_eq_false_iff,
    decide_eq_false_iff_not, decide_eq_true_eq] at h
  simp [h]

theorem ne_nil_of_argument {name argument : Text} {value : Option Text} {d : Directive}
    (h : Attribute.ofRaw name value = .directive d) (hargument : d.argument = some argument) :
    argument ≠ [] := by
  have hparts : ∀ {name rest : Text}, d = Directive.ofParts name rest value → argument ≠ [] := by
    rintro name rest rfl
    have hsome := (Option.filter_eq_some_iff.mp hargument).2
    simpa using hsome
  unfold Attribute.ofRaw at h
  split at h
  · exact hparts (Attribute.directive.inj h).symm
  · exact hparts (Attribute.directive.inj h).symm
  · exact hparts (Attribute.directive.inj h).symm
  · exact hparts (Attribute.directive.inj h).symm
  · cases h

theorem named_of_written {a : Attribute} (h : a.Written) : a.Named := by
  obtain ⟨name, value, hne, hchars, hraw⟩ := h
  cases a with
  | static n w =>
      obtain rfl := eq_of_ofRaw_eq_static hraw.symm
      exact ⟨hne, fun c hc => not_blank_of_isNameChar (hchars c hc)⟩
  | directive d =>
      intro argument hargument
      refine ⟨ne_nil_of_argument hraw.symm hargument, fun c hc => ?_⟩
      exact not_blank_of_isNameChar (hchars c (mem_name_of_mem_argument hraw.symm hargument hc))

theorem Node.Every.imp {P Q : Attribute → Prop} (hPQ : ∀ a, P a → Q a) {n : Node}
    (h : n.Every P) : n.Every Q := by
  induction h with
  | element hattributes _ ih => exact .element (fun a ha => hPQ a (hattributes a ha)) ih
  | text t => exact .text t
  | comment t => exact .comment t
  | interpolation t => exact .interpolation t
  | choice _ ih => exact .choice ih
  | loop _ ih => exact .loop ih

/-! ## Reading -/

theorem endsText_readText (s : Text) : EndsText (readText s).2 := by
  induction s with
  | nil => exact Or.inl rfl
  | cons c r ih =>
      unfold readText
      split
      · next hstarts => exact Or.inr hstarts
      · exact ih

/-- What reading one part of markup can come to. -/
inductive Reads (c : Char) (r : Text) : Lexeme → Text → Prop
  | comment (t rest : Text) : Reads c r (.leaf (.comment (Text.trim t))) rest
  | interpolation (t rest : Text) : Reads c r (.leaf (.interpolation (Text.trim t))) rest
  | opening {o : Opening} {rest : Text} : IsTag o.tag → Reads c r (.opening o) rest
  | run : (startsMarkup (c :: r) = true → c = '<' ∧ r.head? = some '/') →
      Reads c r (.leaf (.text (c :: (readText r).1))) (readText r).2

theorem isTag_of_readOpening {d : Char} {u rest : Text} {o : Opening}
    (hd : Text.isLetter d = true) (h : readOpening (d :: u) = .ok (o, rest)) : IsTag o.tag := by
  unfold readOpening at h
  split at h
  · cases h
  · obtain ⟨_, -, hopening⟩ := exists_of_map_eq_ok h
    obtain ⟨rfl, rfl⟩ := Prod.mk.inj hopening
    refine ⟨d, u.takeWhile isTagChar, ?_, hd, fun c hc => List.mem_takeWhile_imp hc⟩
    exact List.takeWhile_cons_of_pos (isTagChar_of_isLetter hd)

theorem reads_of_readThrough {terminator what body rest : Text} {f : Text → Node} {x : Lexeme}
    {c : Char} {r : Text} (hf : ∀ t rest, Reads c r (.leaf (f t)) rest)
    (h : ((readThrough terminator what body).map fun (t, u) => (Lexeme.leaf (f t), u)) =
      .ok (x, rest)) : Reads c r x rest := by
  obtain ⟨⟨t, u⟩, -, hfound⟩ := exists_of_map_eq_ok h
  obtain ⟨rfl, rfl⟩ := Prod.mk.inj hfound
  exact hf t u

theorem reads_of_readRun {c : Char} {r rest : Text} {x : Lexeme}
    (hrun : startsMarkup (c :: r) = true → c = '<' ∧ r.head? = some '/')
    (h : (.ok (readRun c r) : Except Fault (Lexeme × Text)) = .ok (x, rest)) : Reads c r x rest := by
  obtain ⟨rfl, rfl⟩ := Prod.mk.inj (Except.ok.inj h)
  exact .run hrun

/-- Markup that starts neither with `<` nor with an interpolation does not start at all. -/
theorem startsMarkup_of_ne {c : Char} {r : Text} (hc : c ≠ '<')
    (hinterpolation : Text.behind? interpolationLead (c :: r) = none) :
    startsMarkup (c :: r) = false := by
  unfold startsMarkup
  split
  · next heq => exact absurd (List.cons.inj heq).1 hc
  · next u heq =>
      rw [heq] at hinterpolation
      cases (Text.behind?_append interpolationLead u).symm.trans hinterpolation
  · rfl

theorem reads_of_readLexeme {outer : Text} {c : Char} {r rest : Text} {x : Lexeme}
    (h : readLexeme outer c r = .ok (x, rest)) : Reads c r x rest := by
  unfold readLexeme at h
  split at h
  · exact reads_of_readThrough (f := fun t => .comment (Text.trim t)) .comment h
  · split at h
    · exact reads_of_readThrough (f := fun t => .interpolation (Text.trim t)) .interpolation h
    · next hinterpolation =>
        split at h
        · next hangle =>
            subst hangle
            cases r with
            | nil => exact reads_of_readRun (fun hstarts => nomatch hstarts) h
            | cons d u =>
                dsimp only at h
                split at h
                · next hletter =>
                    obtain ⟨_, hopening, hfound⟩ := exists_of_map_eq_ok h
                    obtain ⟨rfl, rfl⟩ := Prod.mk.inj hfound
                    exact .opening (isTag_of_readOpening hletter hopening)
                · next hletter =>
                    split at h
                    · cases h
                    · next hbang =>
                        refine reads_of_readRun (fun hstarts => ⟨rfl, ?_⟩) h
                        simpa [startsMarkup, hletter, hbang] using hstarts
        · next hangle =>
            refine reads_of_readRun (fun hstarts => ?_) h
            rw [startsMarkup_of_ne hangle hinterpolation] at hstarts
            cases hstarts

/-- What the reader remembers of an open element. -/
structure OpenElement.Normal (o : OpenElement) : Prop where
  tag : IsTag o.tag
  contents : isVoid o.tag = false
  earlier : Markup.Normal o.earlier

/-- If the nodes read last are a text, markup starts behind it. -/
def Closed (done : List Node) (s : Text) : Prop :=
  ∀ n ∈ done.getLast?, n.isText = true → EndsText s

theorem closed_nil (s : Text) : Closed [] s := fun _ hlast => absurd hlast (by simp)

theorem closed_concat (done : List Node) {n : Node} (h : n.isText = false) (s : Text) :
    Closed (done ++ [n]) s := by
  intro m hm htext
  obtain rfl : n = m := by simpa using hm
  rw [h] at htext
  cases htext

/-- A part without children is kept in normal form, unless it is dropped. -/
theorem normal_keep {done : List Node} (hdone : Normal done) {c : Char} {r : Text}
    (hclosed : Closed done (c :: r)) (hclosing : ∀ r', c = '<' → r = '/' :: r' → False)
    {n : Node} {rest : Text} (h : Reads c r (.leaf n) rest) :
    Normal (keep done n) ∧ Closed (keep done n) rest := by
  cases h with
  | comment t rest =>
      exact ⟨hdone.concat_of_not_text (.comment (Text.trim_trim t)) rfl, closed_concat done rfl rest⟩
  | interpolation t rest =>
      refine ⟨hdone.concat_of_not_text (.interpolation (Text.trim_trim t)) rfl, ?_⟩
      exact closed_concat done rfl rest
  | run hrun =>
      have hrest : ∀ done', Closed done' (readText r).2 := fun _ _ _ _ => endsText_readText r
      refine ⟨?_, hrest _⟩
      simp only [keep]
      split
      · exact hdone
      · next hblank =>
          refine hdone.concat (.text (Bool.eq_false_iff.mpr hblank)) ?_
          -- a text read before ended where markup starts, and no text is read there
          intro m hm htext
          have hstarts := (hclosed m hm htext).resolve_left (List.cons_ne_nil c r)
          obtain ⟨hangle, hslash⟩ := hrun hstarts
          obtain ⟨r', rfl⟩ := List.head?_eq_some_iff.mp hslash
          exact (hclosing r' hangle rfl).elim

theorem normal_of_readNodes {opened : List OpenElement} {done : List Node} {s : Text}
    {nodes : List Node} (hopened : ∀ o ∈ opened, o.Normal) (hdone : Normal done)
    (hclosed : Closed done s) (h : readNodes opened done s = .ok nodes) : Normal nodes := by
  fun_induction readNodes opened done s with
  | case1 done => exact Except.ok.inj h ▸ hdone
  | case2 | case3 | case4 | case6 => cases h
  | case5 done r o outer rest hread hlt ih =>
      have ho := hopened o List.mem_cons_self
      refine ih (fun o' ho' => hopened o' (List.mem_cons_of_mem _ ho')) ?_
        (closed_concat _ rfl rest) h
      refine ho.earlier.concat_of_not_text (.element ho.tag ?_ hdone.each hdone.parted) rfl
      exact fun hvoid => absurd hvoid (by simp [ho.contents])
  | case7 opened done c r hclosing n rest hread hlt ih =>
      have hkept := normal_keep hdone hclosed hclosing (reads_of_readLexeme hread)
      exact ih hopened hkept.1 hkept.2 h
  | case8 opened done c r hclosing o rest hread hlt hcontents ih =>
      cases reads_of_readLexeme hread with
      | opening htag =>
          refine ih ?_ normal_nil (closed_nil rest) h
          refine List.forall_mem_cons.mpr ⟨⟨htag, ?_, hdone⟩, hopened⟩
          simpa using (Bool.and_eq_true_iff.mp hcontents).2
  | case9 opened done c r hclosing o rest hread hlt hcontents ih =>
      cases reads_of_readLexeme hread with
      | opening htag =>
          have hempty : (Node.element o.tag o.attributes []).Normal :=
            .element htag (fun _ => rfl) (List.forall_mem_nil _) .nil
          exact ih hopened (hdone.concat_of_not_text hempty rfl) (closed_concat _ rfl rest) h

theorem normal_of_readFlat {source : Text} {nodes : List Node} (h : readFlat source = .ok nodes) :
    Normal nodes :=
  normal_of_readNodes (List.forall_mem_nil _) normal_nil (closed_nil source) h

/-! ## Folding -/

theorem isText_looped (tag : Text) (attributes : List Attribute) (children : List Node) :
    (looped tag attributes children).isText = false := by
  unfold looped
  split <;> rfl

theorem isElement_or_isLoop_looped (tag : Text) (attributes : List Attribute)
    (children : List Node) :
    ((looped tag attributes children).isElement || (looped tag attributes children).isLoop) =
      true := by
  unfold looped
  split <;> rfl

theorem normal_looped {tag : Text} {attributes others : List Attribute} {children : List Node}
    (h : (Node.element tag attributes children).Normal) : (looped tag others children).Normal := by
  have helement : ∀ others, (Node.element tag others children).Normal := by
    intro others
    cases h with
    | element htag hvoid hchildren hparted => exact .element htag hvoid hchildren hparted
  unfold looped
  split
  · exact .loop ⟨_, rfl, rfl⟩ (List.forall_mem_singleton.mpr (helement _))
  · exact helement _

/-- A branch with one node inside. -/
structure NormalBranch (branch : Option Text × List Node) : Prop where
  single : ∃ n, branch.2 = [n] ∧ (n.isElement || n.isLoop) = true
  each : ∀ n ∈ branch.2, n.Normal

theorem normal_choice_singleton {branch : Option Text × List Node} (h : NormalBranch branch) :
    (Node.choice [branch]).Normal :=
  .choice (List.cons_ne_nil _ _) (List.forall_mem_singleton.mpr h.single)
    (List.forall_mem_singleton.mpr h.each)

theorem normal_choice_concat {branches : List (Option Text × List Node)}
    (h : (Node.choice branches).Normal) {branch : Option Text × List Node}
    (hbranch : NormalBranch branch) : (Node.choice (branches ++ [branch])).Normal := by
  cases h with
  | choice _ hsingle heach =>
      refine .choice (by simp) ?_ ?_
      · exact List.forall_mem_append.mpr ⟨hsingle, List.forall_mem_singleton.mpr hbranch.single⟩
      · exact List.forall_mem_append.mpr ⟨heach, List.forall_mem_singleton.mpr hbranch.each⟩

theorem map_isText_joinChain? {branch : Option Text × List Node} {before nodes : List Node}
    (h : joinChain? branch before = some nodes) :
    nodes.map Node.isText = before.map Node.isText ∧ ∀ n ∈ nodes.head?, n.isText = false := by
  fun_induction joinChain? branch before generalizing nodes with
  | case1 branches before =>
      obtain rfl := Option.some.inj h
      exact ⟨rfl, fun n hn => by obtain rfl := Option.some.inj hn; rfl⟩
  | case2 t before ih =>
      obtain ⟨joined, hjoined, rfl⟩ := Option.map_eq_some_iff.mp h
      refine ⟨congrArg (false :: ·) (ih hjoined).1, fun n hn => ?_⟩
      obtain rfl := Option.some.inj hn
      rfl
  | case3 => cases h

theorem each_joinChain? {branch : Option Text × List Node} (hbranch : NormalBranch branch)
    {before nodes : List Node} (hbefore : ∀ n ∈ before, n.Normal)
    (h : joinChain? branch before = some nodes) : ∀ n ∈ nodes, n.Normal := by
  fun_induction joinChain? branch before generalizing nodes with
  | case1 branches before =>
      obtain rfl := Option.some.inj h
      obtain ⟨hchoice, hrest⟩ := List.forall_mem_cons.mp hbefore
      exact List.forall_mem_cons.mpr ⟨normal_choice_concat hchoice hbranch, hrest⟩
  | case2 t before ih =>
      obtain ⟨joined, hjoined, rfl⟩ := Option.map_eq_some_iff.mp h
      obtain ⟨hcomment, hrest⟩ := List.forall_mem_cons.mp hbefore
      exact List.forall_mem_cons.mpr ⟨hcomment, ih hrest hjoined⟩
  | case3 => cases h

theorem isChain_parted_congr {nodes nodes' : List Node}
    (h : nodes.map Node.isText = nodes'.map Node.isText) :
    nodes.IsChain Node.Parted ↔ nodes'.IsChain Node.Parted := by
  have hmap : ∀ nodes : List Node, (nodes.map Node.isText).IsChain (fun a b => a = true → b = false) ↔
      nodes.IsChain Node.Parted := fun nodes => List.isChain_map Node.isText
  rw [← hmap, h, hmap]

/-- Nodes placed so far, last first, are in normal form, and the last is a text only if `text` says
so. -/
structure Placed (text : Bool) (nodes : List Node) : Prop where
  normal : Normal nodes
  last : ∀ n ∈ nodes.head?, n.isText = true → text = true

theorem placed_cons {before : List Node} {text : Bool} (h : Normal before) {n : Node} (hn : n.Normal)
    (htext : n.isText = true → text = true) (hhead : ∀ m ∈ before.head?, m.Parted n) :
    Placed text (n :: before) where
  normal := h.cons hn hhead
  last m hm := by
    obtain rfl := Option.some.inj hm
    exact htext

theorem placed_cons_of_not_text {before : List Node} (text : Bool) (h : Normal before) {n : Node}
    (hn : n.Normal) (hnot : n.isText = false) : Placed text (n :: before) :=
  placed_cons h hn (fun htext => absurd htext (by simp [hnot])) fun m _ => .of_not_text_right m hnot

theorem placed_attach {before : List Node} (h : Normal before) {branch : Option Text × List Node}
    (hbranch : NormalBranch branch) (text : Bool) : Placed text (attach before branch) := by
  unfold attach
  cases hjoin : joinChain? branch before with
  | some nodes =>
      obtain ⟨hmap, hhead⟩ := map_isText_joinChain? hjoin
      refine ⟨⟨each_joinChain? hbranch h.each hjoin, (isChain_parted_congr hmap).mpr h.parted⟩, ?_⟩
      intro n hn htext
      rw [hhead n hn] at htext
      cases htext
  | none =>
      exact placed_cons_of_not_text text h (normal_choice_singleton hbranch) rfl

theorem placed_place {before : List Node} (h : Normal before) {n : Node} (hn : n.Normal)
    (hhead : ∀ m ∈ before.head?, m.Parted n) : Placed n.isText (place before n) := by
  cases n with
  | element tag attributes children =>
      have hnode : (looped tag (takeCondition attributes).2 children).Normal := normal_looped hn
      have hbranch : ∀ condition : Option Text,
          NormalBranch (condition, [looped tag (takeCondition attributes).2 children]) := by
        intro condition
        exact ⟨⟨_, rfl, isElement_or_isLoop_looped _ _ _⟩, List.forall_mem_singleton.mpr hnode⟩
      simp only [place]
      split
      · exact placed_cons_of_not_text _ h hnode (isText_looped _ _ _)
      · exact placed_cons_of_not_text _ h (normal_choice_singleton (hbranch _)) rfl
      · exact placed_attach h (hbranch _) _
      · exact placed_attach h (hbranch _) _
  | text | comment | interpolation | choice | loop => exact placed_cons h hn id hhead

theorem isText_foldInside (n : Node) : (foldInside n).isText = n.isText := by
  cases n <;> rfl

mutual

theorem normal_foldInside : ∀ {n : Node}, n.Normal → (foldInside n).Normal
  | .element tag attributes children, .element htag hvoid hchildren hparted => by
      have hfolded : Normal (foldOnto [] children).reverse :=
        (normal_foldOnto normal_nil ⟨hchildren, hparted⟩ nofun).reverse
      refine .element htag (fun h => ?_) hfolded.each hfolded.parted
      rw [hvoid h]
      rfl
  | .text t, h => h
  | .comment t, h => h
  | .interpolation t, h => h
  | .choice branches, h => h
  | .loop source children, h => h

theorem normal_foldOnto : ∀ {before nodes : List Node}, Normal before → Normal nodes →
    (∀ m ∈ before.head?, ∀ n ∈ nodes.head?, m.Parted n) → Normal (foldOnto before nodes)
  | before, [], hbefore, _, _ => hbefore
  | before, n :: r, hbefore, hnodes, hjoint => by
      obtain ⟨hn, hr⟩ := List.forall_mem_cons.mp hnodes.each
      obtain ⟨hnext, hparted⟩ := List.isChain_cons.mp hnodes.parted
      have hhead : ∀ m ∈ before.head?, m.Parted (foldInside n) := by
        intro m hm htext
        rw [isText_foldInside]
        exact hjoint m hm n rfl htext
      have hplaced := placed_place hbefore (normal_foldInside hn) hhead
      rw [isText_foldInside] at hplaced
      show Normal (foldOnto (place before (foldInside n)) r)
      refine normal_foldOnto hplaced.normal ⟨hr, hparted⟩ ?_
      exact fun m hm n' hn' htext => hnext n' hn' (hplaced.last m hm htext)

end

theorem normal_fold {nodes : List Node} (h : Normal nodes) : Normal (fold nodes) :=
  (normal_foldOnto normal_nil h nofun).reverse

theorem normal_of_read {source : Text} {nodes : List Node} (h : read source = .ok nodes) :
    Normal nodes := by
  unfold read at h
  split at h
  · next flat hflat =>
      obtain rfl := Except.ok.inj h
      exact normal_fold (normal_of_readFlat hflat)
  · cases h

end Markup

end AttributeCss
