/-
Where a template cannot be read.

A fault names what was left to read, and its place is counted from there.  The
places make sense because every reader that fails leaves an end of the text it
was given, and a reader that succeeds hands an end of it on.

A stray closing tag says more: everything in front of it was read, with no
element left open.  Cut off there, the source can be read, because no part in
front of a closing tag depends on it.
-/
import AttributeCss.Proofs.Markup.CutShort
import AttributeCss.Proofs.Markup.RoundTrip

namespace AttributeCss.Markup

/-! ## Faults lie inside the source -/

/-- The fault is that something else was expected, at an end of the text. -/
inductive Fault.Inside (s : Text) : Fault → Prop
  | expected {what rest : Text} : rest <:+ s → Fault.Inside s (.expected what rest)

theorem Fault.Inside.mono {s t : Text} {f : Fault} (h : f.Inside t) (ht : t <:+ s) :
    f.Inside s := by
  cases h with
  | expected hrest => exact .expected (hrest.trans ht)

theorem eq_error_of_map {α β : Type} {g : α → β} {x : Except Fault α} {f : Fault}
    (h : x.map g = .error f) : x = .error f := by
  cases x with
  | error e => exact congrArg Except.error (Except.error.inj h)
  | ok a => cases h

section Inside

variable {s : Text} {f : Fault}

theorem inside_of_readValue (h : readValue s = .error f) : f.Inside s := by
  unfold readValue at h
  split at h
  · cases h
  · obtain rfl := Except.error.inj h
    exact .expected List.suffix_rfl

theorem inside_of_readAssigned (h : readAssigned s = .error f) : f.Inside s := by
  unfold readAssigned at h
  split at h
  · next r hr =>
      have hbehind : r <:+ s := (List.suffix_cons '=' r).trans (hr ▸ List.dropWhile_suffix _)
      exact (inside_of_readValue (eq_error_of_map h)).mono ((List.dropWhile_suffix _).trans hbehind)
  · cases h

theorem inside_of_readAttribute (h : readAttribute s = .error f) : f.Inside s := by
  unfold readAttribute at h
  dsimp only at h
  split at h
  · cases h
  · exact (inside_of_readAssigned (eq_error_of_map h)).mono (List.dropWhile_suffix _)

theorem inside_of_readAttributes (h : readAttributes s = .error f) : f.Inside s := by
  fun_induction readAttributes s with
  | case1 | case3 => cases h
  | case2 s hspace e hread =>
      obtain rfl := Except.error.inj h
      exact (inside_of_readAttribute hread).mono (List.dropWhile_suffix _)
  | case4 s hspace a rest hread hlt ih =>
      obtain ⟨taken, hsplit, -⟩ := readAttribute_alike hread
      have hrest : rest <:+ s.dropWhile Text.isSpace := ⟨taken, hsplit.symm⟩
      exact (ih (eq_error_of_map h)).mono (hrest.trans (List.dropWhile_suffix _))

theorem inside_of_readTerminator (h : readTerminator s = .error f) : f.Inside s := by
  unfold readTerminator at h
  split at h
  · cases h
  · cases h
  · obtain rfl := Except.error.inj h
    exact .expected (List.dropWhile_suffix _)

theorem inside_of_readOpening (h : readOpening s = .error f) : f.Inside s := by
  have hattributes : s.dropWhile isTagChar <:+ s := List.dropWhile_suffix _
  unfold readOpening at h
  split at h
  · next e hread =>
      obtain rfl := Except.error.inj h
      exact (inside_of_readAttributes hread).mono hattributes
  · next attributes rest hread =>
      obtain ⟨taken, hsplit, -⟩ := readAttributes_alike hread
      have hrest : rest <:+ s.dropWhile isTagChar := ⟨taken, hsplit.symm⟩
      exact (inside_of_readTerminator (eq_error_of_map h)).mono (hrest.trans hattributes)

theorem inside_of_readClosing {tag whole : Text} (hs : s <:+ whole)
    (h : readClosing tag whole s = .error f) : f.Inside whole := by
  unfold readClosing at h
  dsimp only at h
  split at h
  · obtain rfl := Except.error.inj h
    exact .expected hs
  · split at h
    · obtain rfl := Except.error.inj h
      exact .expected List.suffix_rfl
    · split at h
      · cases h
      · obtain rfl := Except.error.inj h
        exact .expected
          (((List.dropWhile_suffix _).trans (List.dropWhile_suffix _)).trans hs)

theorem inside_of_readThrough {mark what : Text} (h : readThrough mark what s = .error f) :
    f.Inside s := by
  unfold readThrough at h
  split at h
  · cases h
  · obtain rfl := Except.error.inj h
    exact .expected List.suffix_rfl

/-- A part of markup fails at an end of its own, or at the place it was told. -/
theorem inside_of_readLexeme {outer : Text} {c : Char} {r : Text}
    (h : readLexeme outer c r = .error f) : f.Inside (c :: r) ∨ f = .expected "markup" outer := by
  have hbehind : ∀ {lead body}, Text.behind? lead (c :: r) = some body → body <:+ c :: r :=
    fun hlead => ⟨_, (Text.eq_of_behind? hlead).symm⟩
  unfold readLexeme at h
  split at h
  · next body hcomment =>
      exact Or.inl ((inside_of_readThrough (eq_error_of_map h)).mono (hbehind hcomment))
  · split at h
    · next body hinterpolation =>
        exact Or.inl ((inside_of_readThrough (eq_error_of_map h)).mono (hbehind hinterpolation))
    · split at h
      · cases r with
        | nil => cases h
        | cons d u =>
            dsimp only at h
            split at h
            · exact Or.inl ((inside_of_readOpening (eq_error_of_map h)).mono (List.suffix_cons c _))
            · split at h
              · exact Or.inr (Except.error.inj h).symm
              · cases h
      · cases h

theorem outermost_suffix {opened : List OpenElement} (hopened : ∀ o ∈ opened, o.start <:+ s)
    {t : Text} (ht : t <:+ s) : outermost opened t <:+ s := by
  unfold outermost
  cases hlast : opened.getLast? with
  | none => exact ht
  | some o => exact hopened o (List.mem_of_getLast? hlast)

theorem inside_or_stray_of_readNodes {opened : List OpenElement} {done : List Node} {t : Text}
    (hopened : ∀ o ∈ opened, o.start <:+ s) (ht : t <:+ s)
    (h : readNodes opened done t = .error f) : f.Inside s ∨ ∃ rest, f = .stray rest := by
  fun_induction readNodes opened done t with
  | case1 => cases h
  | case2 =>
      obtain rfl := Except.error.inj h
      exact Or.inl (.expected ht)
  | case3 => exact Or.inr ⟨_, (Except.error.inj h).symm⟩
  | case4 done r o outer e hread =>
      obtain rfl := Except.error.inj h
      have hbehind : r <:+ '<' :: '/' :: r := ⟨['<', '/'], rfl⟩
      exact Or.inl ((inside_of_readClosing hbehind hread).mono ht)
  | case5 done r o outer rest hread hlt ih =>
      obtain ⟨taken, rfl, -⟩ := readClosing_append hread
      exact ih (fun o' ho' => hopened o' (List.mem_cons_of_mem _ ho'))
        ((show rest <:+ _ from ⟨'<' :: '/' :: taken, rfl⟩).trans ht) h
  | case6 opened done c r hclosing e hread =>
      obtain rfl := Except.error.inj h
      rcases inside_of_readLexeme hread with hinside | rfl
      · exact Or.inl (hinside.mono ht)
      · exact Or.inl (.expected (outermost_suffix hopened ht))
  | case7 opened done c r hclosing n rest hread hlt ih =>
      exact ih hopened ((suffix_of_readLexeme hclosing hread).trans ht) h
  | case8 opened done c r hclosing o rest hread hlt hcontents ih =>
      exact ih (List.forall_mem_cons.mpr ⟨ht, hopened⟩)
        ((suffix_of_readLexeme hclosing hread).trans ht) h
  | case9 opened done c r hclosing o rest hread hlt hcontents ih =>
      exact ih hopened ((suffix_of_readLexeme hclosing hread).trans ht) h

end Inside

/-! ## In front of a stray closing tag -/

/-- What is remembered of an open element, but for where it starts: from there on the text is
another one when it is cut short. -/
def OpenElement.unplaced (o : OpenElement) : Text × List Attribute × List Node :=
  (o.tag, o.attributes, o.earlier)

theorem exists_of_map_unplaced {o : OpenElement} {opened opened' : List OpenElement}
    (h : opened'.map OpenElement.unplaced = (o :: opened).map OpenElement.unplaced) :
    ∃ o' outer', opened' = o' :: outer' ∧ o'.tag = o.tag ∧ o'.attributes = o.attributes ∧
      o'.earlier = o.earlier ∧ outer'.map OpenElement.unplaced = opened.map OpenElement.unplaced := by
  obtain ⟨o', outer', rfl, ho, houter⟩ := List.map_eq_cons_iff.mp h
  obtain ⟨htag, hrest⟩ := Prod.mk.inj ho
  obtain ⟨hattributes, hearlier⟩ := Prod.mk.inj hrest
  exact ⟨o', outer', rfl, htag, hattributes, hearlier, houter⟩

/-- What was read in front of a stray closing tag can be read on its own, with the same elements
open.  From the end of the text backwards, each part is cut where what is behind it was cut. -/
theorem readNodes_of_stray {opened : List OpenElement} {done : List Node} {s z : Text}
    (h : readNodes opened done s = .error (.stray z)) :
    StartsClosing z ∧ ∃ before, s = before ++ z ∧
      ∀ opened', opened'.map OpenElement.unplaced = opened.map OpenElement.unplaced →
        ∃ nodes, readNodes opened' done before = .ok nodes := by
  fun_induction readNodes opened done s with
  | case1 => cases h
  | case2 => cases h
  | case3 done r =>
      obtain rfl := Fault.stray.inj (Except.error.inj h)
      refine ⟨⟨r, rfl⟩, [], rfl, fun opened' hopened => ?_⟩
      obtain rfl := List.map_eq_nil_iff.mp hopened
      exact ⟨done, by rw [readNodes]⟩
  | case4 done r o outer e hread =>
      obtain rfl := Except.error.inj h
      cases inside_of_readClosing (show r <:+ _ from ⟨['<', '/'], rfl⟩) hread
  | case5 done r o outer rest hread hlt ih =>
      obtain ⟨hz, before, rfl, hagain⟩ := ih h
      obtain ⟨taken, rfl, hclosing⟩ := readClosing_append hread
      refine ⟨hz, '<' :: '/' :: (taken ++ before), by simp, fun opened' hopened => ?_⟩
      obtain ⟨o', outer', rfl, htag, hattributes, hearlier, houter⟩ := exists_of_map_unplaced hopened
      obtain ⟨nodes, hnodes⟩ := hagain outer' houter
      refine ⟨nodes, ?_⟩
      rw [readNodes_closing fun whole => htag ▸ hclosing whole before, htag, hattributes, hearlier]
      exact hnodes
  | case6 opened done c r hclosing e hread =>
      obtain rfl := Except.error.inj h
      rcases inside_of_readLexeme hread with hinside | hmarkup
      · cases hinside
      · cases hmarkup
  | case7 opened done c r hclosing n rest hread hlt ih =>
      obtain ⟨hz, before, rfl, hagain⟩ := ih h
      obtain ⟨r₀, rfl, hstops, hread₀⟩ := readLexeme_cut hclosing hz hread
      refine ⟨hz, c :: r₀, rfl, fun opened' hopened => ?_⟩
      rw [readNodes_leaf hstops hread₀]
      exact hagain opened' hopened
  | case8 opened done c r hclosing o rest hread hlt hcontents ih =>
      obtain ⟨hz, before, rfl, hagain⟩ := ih h
      obtain ⟨r₀, rfl, hstops, hread₀⟩ := readLexeme_cut hclosing hz hread
      refine ⟨hz, c :: r₀, rfl, fun opened' hopened => ?_⟩
      rw [readNodes_opening hstops hread₀, if_pos hcontents]
      exact hagain _ (congrArg (_ :: ·) hopened)
  | case9 opened done c r hclosing o rest hread hlt hcontents ih =>
      obtain ⟨hz, before, rfl, hagain⟩ := ih h
      obtain ⟨r₀, rfl, hstops, hread₀⟩ := readLexeme_cut hclosing hz hread
      refine ⟨hz, c :: r₀, rfl, fun opened' hopened => ?_⟩
      rw [readNodes_opening hstops hread₀, if_neg hcontents]
      exact hagain opened' hopened

/-- Behind what can be read, with the same elements open, a closing tag is stray. -/
theorem readNodes_append_closing {opened : List OpenElement} {done : List Node} {s z : Text}
    {nodes : List Node} (hz : StartsClosing z) (h : readNodes opened done s = .ok nodes) :
    ∀ opened', opened'.map OpenElement.unplaced = opened.map OpenElement.unplaced →
      readNodes opened' done (s ++ z) = .error (.stray z) := by
  fun_induction readNodes opened done s with
  | case1 done =>
      intro opened' hopened
      obtain rfl := List.map_eq_nil_iff.mp hopened
      obtain ⟨u, rfl⟩ := hz
      rw [List.nil_append, List.cons_append, List.cons_append, readNodes]
  | case2 | case3 | case4 | case6 => cases h
  | case5 done r o outer rest hread hlt ih =>
      intro opened' hopened
      obtain ⟨taken, rfl, hclosing⟩ := readClosing_append hread
      obtain ⟨o', outer', rfl, htag, hattributes, hearlier, houter⟩ := exists_of_map_unplaced hopened
      rw [List.cons_append, List.cons_append, List.append_assoc,
        readNodes_closing fun whole => htag ▸ hclosing whole (rest ++ z), htag, hattributes,
        hearlier]
      exact ih h outer' houter
  | case7 opened done c r hclosing n rest hread hlt ih =>
      intro opened' hopened
      obtain ⟨hstops, hagain⟩ := readLexeme_append_closing hclosing hz hread
      rw [List.cons_append, readNodes_leaf hstops hagain]
      exact ih h opened' hopened
  | case8 opened done c r hclosing o rest hread hlt hcontents ih =>
      intro opened' hopened
      obtain ⟨hstops, hagain⟩ := readLexeme_append_closing hclosing hz hread
      rw [List.cons_append, readNodes_opening hstops hagain, if_pos hcontents]
      exact ih h _ (congrArg (_ :: ·) hopened)
  | case9 opened done c r hclosing o rest hread hlt hcontents ih =>
      intro opened' hopened
      obtain ⟨hstops, hagain⟩ := readLexeme_append_closing hclosing hz hread
      rw [List.cons_append, readNodes_opening hstops hagain, if_neg hcontents]
      exact ih h opened' hopened

/-! ## Places in the source -/

theorem byteWidth_pos {t : Text} (h : t ≠ []) : 0 < Text.byteWidth t := by
  obtain ⟨c, r, rfl⟩ := List.exists_cons_of_ne_nil h
  exact Nat.add_pos_left (Char.utf8Size_pos c) _

/-- Places are counted from the end of the source. -/
theorem byteWidth_before (before rest : Text) :
    Text.byteWidth (before ++ rest) - Text.byteWidth rest = Text.byteWidth before := by
  rw [Text.byteWidth_append, Nat.add_sub_cancel]

theorem exists_fault_of_read {source : Text} {e : Error} (h : read source = .error e) :
    ∃ f : Fault, readFlat source = .error f ∧ f.locate source = e := by
  unfold read at h
  split at h
  · cases h
  · next f hflat => exact ⟨f, hflat, Except.error.inj h⟩

/-- The place of what is malformed lies inside the source, between two characters. -/
theorem exists_cut_of_malformed {source what : Text} {offset : Nat}
    (h : read source = .error (.malformed offset what)) :
    offset < Text.byteWidth source ∧
      ∃ before rest, source = before ++ rest ∧ Text.byteWidth before = offset := by
  obtain ⟨f, hflat, hlocate⟩ := exists_fault_of_read h
  rcases inside_or_stray_of_readNodes (List.forall_mem_nil _) List.suffix_rfl hflat with
    hinside | ⟨rest, rfl⟩
  · cases hinside with
    | @expected what' rest hrest =>
        obtain ⟨before, rfl⟩ := hrest
        rw [Fault.locate] at hlocate
        split at hlocate
        · cases hlocate
        · next hne =>
            obtain ⟨rfl, rfl⟩ := Error.malformed.inj hlocate
            rw [byteWidth_before, Text.byteWidth_append]
            have hpos := byteWidth_pos (t := rest) (by simpa using hne)
            exact ⟨Nat.lt_add_of_pos_right hpos, before, rest, rfl, rfl⟩
  · cases hlocate

/-- A closing tag is stray exactly behind a source that can be read. -/
theorem strayClosing_iff {source : Text} {offset : Nat} :
    read source = .error (.strayClosing offset) ↔
      ∃ before rest, source = before ++ rest ∧ Text.byteWidth before = offset ∧
        StartsClosing rest ∧ ∃ nodes, read before = .ok nodes := by
  constructor
  · intro h
    obtain ⟨f, hflat, hlocate⟩ := exists_fault_of_read h
    cases f with
    | expected what rest =>
        rw [Fault.locate] at hlocate
        split at hlocate <;> cases hlocate
    | stray rest =>
        obtain ⟨hrest, before, rfl, hread⟩ := readNodes_of_stray hflat
        obtain ⟨nodes, hnodes⟩ := hread [] rfl
        refine ⟨before, rest, rfl, ?_, hrest, fold nodes, by rw [read, readFlat, hnodes]⟩
        rw [← byteWidth_before before rest]
        exact Error.strayClosing.inj hlocate
  · rintro ⟨before, rest, rfl, rfl, hrest, nodes, hread⟩
    unfold read at hread
    split at hread
    · next flat hflat =>
        have hstray : readFlat (before ++ rest) = .error (.stray rest) :=
          readNodes_append_closing hrest hflat [] rfl
        rw [read, hstray, ← byteWidth_before before rest]
        rfl
    · cases hread

/-- **Places of errors.**  Where a template is malformed is a place before the end of its source and
between two of its characters.  Where a closing tag is stray one starts, and what is in front of it
can be read; and there is no other way for a closing tag to be stray. -/
theorem read_error_placed (source : Text) (offset : Nat) :
    (∀ what, read source = .error (.malformed offset what) →
      offset < Text.byteWidth source ∧
        ∃ before rest, source = before ++ rest ∧ Text.byteWidth before = offset) ∧
    (read source = .error (.strayClosing offset) ↔
      ∃ before rest, source = before ++ rest ∧ Text.byteWidth before = offset ∧
        ['<', '/'] <+: rest ∧ ∃ nodes, read before = .ok nodes) :=
  ⟨fun _ => exists_cut_of_malformed, strayClosing_iff⟩

theorem read_eq_error {source : Text} {e : Error}
    (h : (match read source with | .ok _ => none | .error e' => some e') = some e) :
    read source = .error e := by
  cases hread : read source with
  | ok nodes =>
      rw [hread] at h
      cases h
  | error e' =>
      rw [hread] at h
      exact congrArg Except.error (Option.some.inj h)

/-- A value is missing behind seven bytes and six characters, and a tag is closed twice. -/
theorem read_error_placed_wide :
    (read "é<p a=>" = .error (.malformed 7 "attribute value") ∧
      7 < Text.byteWidth "é<p a=>" ∧
        ∃ before rest, "é<p a=>".toList = before ++ rest ∧ Text.byteWidth before = 7) ∧
    (read "<b>é</b></b>" = .error (.strayClosing 9) ∧
      ∃ before rest, "<b>é</b></b>".toList = before ++ rest ∧ Text.byteWidth before = 9 ∧
        ['<', '/'] <+: rest ∧ ∃ nodes, read before = .ok nodes) := by
  have hmalformed : read "é<p a=>" = .error (.malformed 7 "attribute value") :=
    read_eq_error (by decide +kernel)
  have hstray : read "<b>é</b></b>" = .error (.strayClosing 9) := read_eq_error (by decide +kernel)
  exact ⟨⟨hmalformed, (read_error_placed _ 7).1 _ hmalformed⟩,
    ⟨hstray, (read_error_placed _ 9).2.mp hstray⟩⟩

end AttributeCss.Markup
