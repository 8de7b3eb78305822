/-
Reading gives back what was printed.

Each node printed is read as that node and nothing else, whatever elements are
open and whatever was read before; a text alone needs something behind it that
ends it.  Nodes without directives are not changed by folding, so a template
is read as the nodes it was printed from.
-/
import AttributeCss.Proofs.Markup.Folded
import AttributeCss.Proofs.Markup.Lexed

namespace AttributeCss.Markup

open Text (Stops)

/-! ## One step of the reader -/

section Step

variable {opened : List OpenElement} {done : List Node} {c : Char} {r rest : Text}

theorem readNodes_leaf {n : Node} (hclosing : c = '<' → Stops (· == '/') r)
    (hread : ∀ outer, readLexeme outer c r = .ok (.leaf n, rest)) :
    readNodes opened done (c :: r) = readNodes opened (keep done n) rest := by
  rw [readNodes]
  · split
    · next hfound => cases (hread _).symm.trans hfound
    · next hfound =>
        cases (hread _).symm.trans hfound
        rfl
    · next hfound => cases (hread _).symm.trans hfound
  · rintro r' rfl rfl
    cases hclosing rfl '/' rfl

theorem readNodes_opening {o : Opening} (hclosing : c = '<' → Stops (· == '/') r)
    (hread : ∀ outer, readLexeme outer c r = .ok (.opening o, rest)) :
    readNodes opened done (c :: r) =
      if o.hasContents then readNodes (⟨o.tag, o.attributes, done, c :: r⟩ :: opened) [] rest
      else readNodes opened (done ++ [.element o.tag o.attributes []]) rest := by
  rw [readNodes]
  · split
    · next hfound => cases (hread _).symm.trans hfound
    · next hfound => cases (hread _).symm.trans hfound
    · next hfound =>
        cases (hread _).symm.trans hfound
        rfl
  · rintro r' rfl rfl
    cases hclosing rfl '/' rfl

theorem readNodes_closing {o : OpenElement} (hread : ∀ whole, readClosing o.tag whole r = .ok rest) :
    readNodes (o :: opened) done ('<' :: '/' :: r) =
      readNodes opened (o.earlier ++ [.element o.tag o.attributes done]) rest := by
  rw [readNodes]
  split
  · next hfound => cases (hread _).symm.trans hfound
  · next hfound =>
      cases (hread _).symm.trans hfound
      rfl

end Step

/-! ## Printed nodes -/

theorem startsMarkup_of_printedAs {n : Node} {u : Text} (hu : n.PrintedAs u) (hn : n.Printable)
    (htext : n.isText = false) (rest : Text) : startsMarkup (u ++ rest) = true := by
  cases hn with
  | text => cases htext
  | comment =>
      cases hu
      rfl
  | interpolation =>
      cases hu
      rfl
  | element htag =>
      obtain ⟨c, r, rfl, hc, -⟩ := htag
      have hstarts : ∀ s, startsMarkup ('<' :: c :: s) = true := by
        intro s
        simp [startsMarkup, hc]
      cases hu with
      | childless => exact hstarts _
      | paired => exact hstarts _

theorem endsText_of_parted {n : Node} {nodes : List Node} (hparted : (n :: nodes).IsChain Node.Parted)
    (hnodes : ∀ m ∈ nodes, m.Printable) {s : Text} (hs : PrintedAs nodes s) {rest : Text}
    (hrest : EndsText rest) (htext : n.isText = true) : EndsText (s ++ rest) := by
  cases hs with
  | nil => exact hrest
  | @cons m nodes u s hu hs =>
      have hm : m.isText = false := (List.isChain_cons_cons.mp hparted).1 htext
      refine Or.inr ?_
      rw [List.append_assoc]
      exact startsMarkup_of_printedAs hu (hnodes m List.mem_cons_self) hm (s ++ rest)

theorem stops_tag {tag : Text} (h : IsTag tag) (s : Text) : Stops (· == '/') (tag ++ s) := by
  obtain ⟨c, r, rfl, hc, -⟩ := h
  apply Text.stops_cons
  rw [beq_eq_false_iff_ne]
  rintro rfl
  exact absurd hc (by decide)

theorem hasContents_of_not_void {tag : Text} (attributes : List Attribute)
    (h : isVoid tag = false) : (Opening.mk tag attributes false).hasContents = true := by
  simp [Opening.hasContents, h]

theorem not_hasContents {tag : Text} (attributes : List Attribute) {closed : Bool}
    (h : isVoid tag = true ∨ closed = true) :
    ¬ (Opening.mk tag attributes closed).hasContents = true := by
  rcases h with hvoid | rfl
  · simp [Opening.hasContents, hvoid]
  · simp [Opening.hasContents]

mutual

/-- A printed node is read wherever it stands, if what is behind it ends it. -/
theorem readNodes_printed_node : ∀ {n : Node} {u : Text}, n.PrintedAs u → n.Printable →
    ∀ {rest : Text}, (n.isText = true → EndsText rest) → ∀ opened done,
      readNodes opened done (u ++ rest) = readNodes opened (done ++ [n]) rest
  | _, _, .text t, .text hchars hblank, rest, hrest, opened, done => by
      cases t with
      | nil => cases hblank
      | cons c r =>
          have hangle : c ≠ '<' := (hchars c List.mem_cons_self).1
          have hkeep : keep done (.text (c :: r)) = done ++ [.text (c :: r)] := by
            rw [keep, hblank, if_neg Bool.false_ne_true]
          have hread := readLexeme_text hchars (hrest rfl)
          rw [List.cons_append, readNodes_leaf (fun h => absurd h hangle) hread, hkeep]
  | _, _, .comment t, .comment htrim hmark, rest, hrest, opened, done => by
      rw [List.append_assoc, List.append_assoc]
      exact readNodes_leaf (fun _ => Text.stops_cons _ rfl) fun outer =>
        readLexeme_comment htrim hmark outer rest
  | _, _, .interpolation t, .interpolation htrim hmark, rest, hrest, opened, done => by
      rw [List.append_assoc, List.append_assoc]
      exact readNodes_leaf (fun h => absurd h (by decide)) fun outer =>
        readLexeme_interpolation htrim hmark outer rest
  | _, _, .childless hclosed hs, .element htag hattributes _ _ _, rest, _, opened, done => by
      rw [List.cons_append, List.append_assoc, List.append_assoc,
        readNodes_opening (fun _ => stops_tag htag _)
          fun outer => readLexeme_tag htag hattributes hs _ outer rest,
        if_neg (not_hasContents _ hclosed)]
  | _, _, .paired hopen hs hu, .element htag hattributes _ hchildren hparted, rest, _, opened,
      done => by
      simp only [List.cons_append, List.append_assoc, List.nil_append]
      rw [readNodes_opening (fun _ => stops_tag htag _)
          fun outer => readLexeme_tag htag hattributes hs false outer _,
        if_pos (hasContents_of_not_void _ hopen), readNodes_printed hu hchildren hparted (Or.inr rfl)]
      exact readNodes_closing fun whole => readClosing_printed htag whole rest

theorem readNodes_printed : ∀ {nodes : List Node} {s : Text}, PrintedAs nodes s →
    (∀ n ∈ nodes, n.Printable) → nodes.IsChain Node.Parted → ∀ {rest : Text}, EndsText rest →
    ∀ opened done, readNodes opened done (s ++ rest) = readNodes opened (done ++ nodes) rest
  | _, _, .nil, _, _, rest, _, opened, done => by
      rw [List.append_nil]
      rfl
  | _, _, .cons hu hs, hnodes, hparted, rest, hrest, opened, done => by
      obtain ⟨hn, hothers⟩ := List.forall_mem_cons.mp hnodes
      rw [List.append_assoc,
        readNodes_printed_node hu hn (endsText_of_parted hparted hothers hs hrest) opened done,
        readNodes_printed hs hothers hparted.tail hrest opened, List.append_assoc]
      rfl

end

/-! ## The round trip -/

theorem folded_of_printable {n : Node} (h : n.Printable) : n.Folded := by
  induction h with
  | text => exact .text _
  | comment => exact .comment _
  | interpolation => exact .interpolation _
  | element _ hattributes _ _ _ ih =>
      refine .element ?_ ih
      intro a ha
      cases hattributes a ha with
      | bare => exact not_false
      | valued => exact not_false

/-- **Round trip.**  Nodes that can stand in markup can be printed, and whichever way they are
printed, what is read is these nodes. -/
theorem read_printed {nodes : List Node} (h : Printable nodes) :
    (∃ source, PrintedAs nodes source) ∧
      ∀ source, PrintedAs nodes source → read source = .ok nodes := by
  refine ⟨exists_printed h, ?_⟩
  intro source hsource
  have hflat : readFlat source = .ok nodes := by
    have hread := readNodes_printed hsource h.each h.parted (show EndsText [] from Or.inl rfl) [] []
    rw [List.append_nil] at hread
    rw [readFlat, hread, readNodes]
    rfl
  have hfolded : ∀ n ∈ nodes, n.Folded := fun n hn => folded_of_printable (h.each n hn)
  rw [read, hflat]
  exact congrArg Except.ok (fold_of_folded hfolded)

/-- A page with every kind of node that can be printed. -/
def page : List Node :=
  [.element "div" [.static "title" (some "say 'hi'"), .static "hidden" none]
    [.text "one ", .element "BR" [] [], .comment "two", .interpolation "three",
      .element "p" [.static "xe-m" (some "10 20")] []]]

/-- One of the ways to print the page. -/
def pageSource : Text :=
  "<div  title =\t\"say 'hi'\" hidden >one <BR><!-- two -->\x7b\x7b three \x7d\x7d" ++
    "<p xe-m='10 20' /></div>"

theorem printable_page : Printable page := by
  have hbr : Node.Printable (.element "BR" [] []) :=
    .element ⟨'B', ['R'], rfl, rfl, List.all_eq_true.mp rfl⟩ nofun (fun _ => rfl) nofun .nil
  have hp : Node.Printable (.element "p" [.static "xe-m" (some "10 20")] []) := by
    refine .element ⟨'p', [], rfl, rfl, nofun⟩ ?_ (fun _ => rfl) nofun .nil
    exact List.forall_mem_singleton.mpr (.valued (by decide) (Or.inl (by decide)))
  refine ⟨List.forall_mem_singleton.mpr ?_, .singleton _⟩
  refine .element ⟨'d', ['i', 'v'], rfl, rfl, List.all_eq_true.mp rfl⟩ ?_
    (fun h => absurd h (by decide)) ?_ ?_
  · exact List.forall_mem_cons.mpr ⟨.valued (by decide) (Or.inl (by decide)),
      List.forall_mem_singleton.mpr (.bare (by decide))⟩
  · simp only [List.forall_mem_cons]
    exact ⟨.text (by simp) (by decide), hbr, .comment (by decide) (by decide),
      .interpolation (by decide) (by decide), hp, nofun⟩
  · exact .cons_cons (fun _ => rfl) <| .cons_cons nofun <| .cons_cons nofun <|
      .cons_cons nofun <| .singleton _

theorem printedAs_pageSource : PrintedAs page pageSource := by
  have htitle : Attribute.PrintedAs (.static "title" (some "say 'hi'"))
      "title =\t\"say 'hi'\"".toList :=
    .quoted layout_space (show Layout ['\t'] by decide) (Or.inl rfl) (by decide)
  have hhidden : Tail [.static "hidden" none] " hidden ".toList :=
    .cons layout_space (List.cons_ne_nil _ _) (.bare _) (.nil layout_space)
  have hbr : Node.PrintedAs (.element "BR" [] []) "<BR>".toList :=
    @Node.PrintedAs.childless _ _ _ false (Or.inl (by decide)) (.nil layout_nil)
  have hm : Tail [.static "xe-m" (some "10 20")] " xe-m='10 20' ".toList :=
    .cons layout_space (List.cons_ne_nil _ _)
      (.quoted layout_nil layout_nil (Or.inr rfl) (by decide)) (.nil layout_space)
  have hp : Node.PrintedAs (.element "p" [.static "xe-m" (some "10 20")] [])
      "<p xe-m='10 20' />".toList :=
    @Node.PrintedAs.childless _ _ _ true (Or.inr rfl) hm
  have hattributes := Tail.cons (show Layout [' ', ' '] by decide) (List.cons_ne_nil _ _) htitle
    hhidden
  have hchildren := PrintedAs.cons (.text "one ") <| .cons hbr <| .cons (.comment "two") <|
    .cons (.interpolation "three") <| .cons hp .nil
  have hprinted : PrintedAs page _ := .cons (.paired (by decide) hattributes hchildren) .nil
  refine (congrArg (PrintedAs page) ?_).mp hprinted
  decide +kernel

theorem read_printed_page :
    Printable page ∧ PrintedAs page pageSource ∧ read pageSource = .ok page :=
  ⟨printable_page, printedAs_pageSource,
    (read_printed printable_page).2 pageSource printedAs_pageSource⟩

end AttributeCss.Markup
