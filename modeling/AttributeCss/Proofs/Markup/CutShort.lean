/-
What is read does not depend on what stands behind it.

An opening tag, a closing tag, a comment and an interpolation end with a mark
of their own, so each of them is read the same whatever follows.  Inside of a
tag the readers look a little ahead, over spaces or to the next character, but
never over the `>` of the tag: what they do is the same for texts that go on
alike up to there (`Alike`).  Only a text is read until something else starts;
that it is cut short in front of a closing tag makes no difference to it.
-/
import AttributeCss.Proofs.Markup.Normal

namespace AttributeCss

namespace Text

theorem cutBefore_append {mark s body rest : Text}
    (h : cutBefore mark s = some (body, mark ++ rest)) (other : Text) :
    cutBefore mark (body ++ (mark ++ other)) = some (body, mark ++ other) := by
  have hhere : ∀ c r, mark.isPrefixOf (c :: r) = true →
      cutBefore mark (c :: r) = some ([], c :: r) := fun c r hprefix => if_pos hprefix
  induction s generalizing body with
  | nil =>
      simp only [cutBefore] at h
      split at h
      · next hempty =>
          obtain ⟨rfl, -⟩ := Prod.mk.inj (Option.some.inj h)
          obtain rfl := List.isEmpty_iff.mp hempty
          cases other with
          | nil => rfl
          | cons c r => exact hhere c r rfl
      · cases h
  | cons c r ih =>
      simp only [cutBefore] at h
      split at h
      · obtain ⟨rfl, hmark⟩ := Prod.mk.inj (Option.some.inj h)
        rw [List.nil_append]
        cases hother : mark ++ other with
        | nil => rw [cutBefore, (List.append_eq_nil_iff.mp hother).1]; rfl
        | cons d u =>
            refine hhere d u (List.isPrefixOf_iff_prefix.mpr ?_)
            exact hother ▸ List.prefix_append mark other
      · next hnot =>
          obtain ⟨⟨body', behind⟩, hcut, heq⟩ := Option.map_eq_some_iff.mp h
          obtain ⟨rfl, rfl⟩ := Prod.mk.inj heq
          have hsplit : c :: r = (c :: body' ++ mark) ++ rest := by
            rw [(eq_of_cutBefore hcut).1, List.append_assoc]
            rfl
          -- whether the mark stands here shows before what stands behind it
          have hlater : ¬ mark.isPrefixOf (c :: (body' ++ (mark ++ other))) = true := by
            rw [List.isPrefixOf_iff_prefix] at hnot ⊢
            intro hprefix
            have hlong : c :: body' ++ mark <+: c :: (body' ++ (mark ++ other)) :=
              ⟨other, by simp⟩
            have hwithin : mark <+: c :: body' ++ mark :=
              List.prefix_of_prefix_length_le hprefix hlong (by rw [List.length_append]; omega)
            exact hnot (hsplit ▸ hwithin.trans (List.prefix_append _ rest))
          rw [List.cons_append, cutBefore, if_neg hlater, ih hcut]
          rfl

end Text

namespace Markup

open Text (Stops)

/-! ## Texts that go on alike -/

/-- The texts go on alike up to the end of a tag. -/
def Alike (s t : Text) : Prop := ∃ m s' t', s = m ++ '>' :: s' ∧ t = m ++ '>' :: t'

namespace Alike

variable {s t : Text} {p : Char → Bool}

theorem append_left (h : Alike s t) (u : Text) : Alike (u ++ s) (u ++ t) := by
  obtain ⟨m, s', t', rfl, rfl⟩ := h
  exact ⟨u ++ m, s', t', by simp, by simp⟩

theorem head?_eq (h : Alike s t) : s.head? = t.head? := by
  obtain ⟨m, s', t', rfl, rfl⟩ := h
  cases m <;> rfl

theorem stops (h : Alike s t) (hs : Stops p s) : Stops p t := by
  intro c hc
  rw [← h.head?_eq] at hc
  exact hs c hc

theorem takeWhile_eq (h : Alike s t) (hp : p '>' = false) : s.takeWhile p = t.takeWhile p := by
  obtain ⟨m, s', t', rfl, rfl⟩ := h
  have hstop : ∀ r, ('>' :: r).takeWhile p = [] := fun r =>
    Text.takeWhile_of_stops (Text.stops_cons r hp)
  rw [List.takeWhile_append, List.takeWhile_append, hstop, hstop]

theorem dropWhile (h : Alike s t) (hp : p '>' = false) : Alike (s.dropWhile p) (t.dropWhile p) := by
  obtain ⟨m, s', t', rfl, rfl⟩ := h
  have hdrop : ∀ r, (m ++ '>' :: r).dropWhile p = m.dropWhile p ++ '>' :: r := by
    intro r
    rw [List.dropWhile_append]
    split
    · next hempty =>
        rw [List.isEmpty_iff.mp hempty]
        exact Text.dropWhile_of_stops (Text.stops_cons r hp)
    · rfl
  exact ⟨m.dropWhile p, s', t', hdrop s', hdrop t'⟩

end Alike

/-! ## Attributes -/

theorem cases_of_readValue {s value rest : Text} (h : readValue s = .ok (value, rest)) :
    (∃ q, (q = Text.quoteMark ∨ q = Text.apostrophe) ∧ q ∉ value ∧ s = q :: (value ++ q :: rest)) ∨
      (value ≠ [] ∧ value = s.takeWhile isBareChar ∧ rest = s.dropWhile isBareChar) := by
  have hquoted : ∀ {q}, readQuoted? q s = some (value, rest) →
      q ∉ value ∧ s = q :: (value ++ q :: rest) := by
    intro q hq
    unfold readQuoted? at hq
    split at hq
    · next c r =>
        split at hq
        · next hc =>
            obtain ⟨rfl, hfree⟩ := Text.eq_of_cutFirst hq
            exact ⟨hfree, by rw [hc]⟩
        · cases hq
    · cases hq
  unfold readValue at h
  split at h
  · next found hfound =>
      obtain rfl := Except.ok.inj h
      simp only [Option.or_eq_some_iff] at hfound
      rcases hfound with (hfirst | ⟨-, hsecond⟩) | ⟨-, hbare⟩
      · exact Or.inl ⟨Text.quoteMark, Or.inl rfl, hquoted hfirst⟩
      · exact Or.inl ⟨Text.apostrophe, Or.inr rfl, hquoted hsecond⟩
      · unfold readBare? at hbare
        dsimp only at hbare
        split at hbare
        · cases hbare
        · next hne =>
            obtain ⟨rfl, rfl⟩ := Prod.mk.inj (Option.some.inj hbare)
            exact Or.inr ⟨by simpa using hne, rfl, rfl⟩
  · cases h

theorem readValue_bare {value t : Text} (hne : value ≠ [])
    (hvalue : ∀ c ∈ value, isBareChar c = true) (ht : Stops isBareChar t) :
    readValue (value ++ t) = .ok (value, t) := by
  have hunquoted : ∀ q, isBareChar q = false → readQuoted? q (value ++ t) = none := by
    intro q hq
    obtain ⟨c, r, rfl⟩ := List.exists_cons_of_ne_nil hne
    have hc : c ≠ q := by
      rintro rfl
      simp [hvalue c List.mem_cons_self] at hq
    exact if_neg hc
  have hbare : readBare? (value ++ t) = some (value, t) := by
    simp [readBare?, Text.takeWhile_append_stops hvalue ht, Text.dropWhile_append_stops hvalue ht,
      hne]
  simp only [readValue, hunquoted Text.quoteMark (by decide), hunquoted Text.apostrophe (by decide),
    hbare, Option.or_none, Option.none_or]

theorem readValue_alike {s value rest : Text} (h : readValue s = .ok (value, rest)) :
    ∃ taken, s = taken ++ rest ∧
      ∀ t, Alike rest t → readValue (taken ++ t) = .ok (value, t) := by
  rcases cases_of_readValue h with ⟨q, hq, hfree, rfl⟩ | ⟨hne, rfl, rfl⟩
  · refine ⟨q :: (value ++ [q]), by simp, fun t _ => ?_⟩
    simpa using readValue_quoted hq hfree t
  · refine ⟨s.takeWhile isBareChar, List.takeWhile_append_dropWhile.symm, fun t halike => ?_⟩
    exact readValue_bare hne (fun c hc => List.mem_takeWhile_imp hc)
      (halike.stops (Text.stops_dropWhile s))

theorem readAssigned_alike {s rest : Text} {value : Option Text}
    (h : readAssigned s = .ok (value, rest)) :
    ∃ taken, s = taken ++ rest ∧
      ∀ t, Alike rest t → readAssigned (taken ++ t) = .ok (value, t) := by
  unfold readAssigned at h
  split at h
  · next r hr =>
      obtain ⟨⟨found, rest'⟩, hvalue, heq⟩ := exists_of_map_eq_ok h
      obtain ⟨rfl, rfl⟩ := Prod.mk.inj heq
      obtain ⟨taken, hsplit, hagain⟩ := readValue_alike hvalue
      -- spaces, the equals sign, spaces, and what the value took
      let lead : Text := s.takeWhile Text.isSpace
      let gap : Text := r.takeWhile Text.isSpace
      refine ⟨lead ++ '=' :: (gap ++ taken), ?_, fun t halike => ?_⟩
      · calc s = lead ++ '=' :: r := by rw [← hr]; exact List.takeWhile_append_dropWhile.symm
          _ = lead ++ '=' :: (gap ++ (taken ++ rest')) := by
              rw [← hsplit]
              exact congrArg (fun u => lead ++ '=' :: u) List.takeWhile_append_dropWhile.symm
          _ = lead ++ '=' :: (gap ++ taken) ++ rest' := by simp
      · have hlead : ∀ c ∈ lead, Text.isSpace c = true := fun c hc => List.mem_takeWhile_imp hc
        have hgap : ∀ c ∈ gap, Text.isSpace c = true := fun c hc => List.mem_takeWhile_imp hc
        have hequals : Stops Text.isSpace ('=' :: (gap ++ (taken ++ t))) :=
          Text.stops_cons _ (by decide)
        have hstops : Stops Text.isSpace (taken ++ t) :=
          (halike.append_left taken).stops (hsplit ▸ Text.stops_dropWhile r)
        simp only [List.append_assoc, List.cons_append, readAssigned,
          Text.dropWhile_append_stops hlead hequals, Text.dropWhile_append_stops hgap hstops,
          hagain t halike, Except.map]
  · next hnone =>
      obtain ⟨rfl, rfl⟩ := Prod.mk.inj (Except.ok.inj h)
      refine ⟨[], rfl, fun t halike => readAssigned_of_unassigned ?_⟩
      refine (halike.dropWhile (by decide)).stops fun c hc => ?_
      rw [beq_eq_false_iff_ne]
      rintro rfl
      obtain ⟨r, hr⟩ := List.head?_eq_some_iff.mp hc
      exact hnone r hr

theorem readAttribute_alike {s rest : Text} {a : Attribute}
    (h : readAttribute s = .ok (some (a, rest))) :
    ∃ taken, s = taken ++ rest ∧
      ∀ t, Alike rest t → readAttribute (taken ++ t) = .ok (some (a, t)) := by
  unfold readAttribute at h
  dsimp only at h
  split at h
  · cases h
  · next hne =>
      obtain ⟨⟨value, rest'⟩, hassigned, heq⟩ := exists_of_map_eq_ok h
      obtain ⟨rfl, rfl⟩ := Prod.mk.inj (Option.some.inj heq)
      obtain ⟨taken, hsplit, hagain⟩ := readAssigned_alike hassigned
      have hname : ∀ c ∈ s.takeWhile isNameChar, isNameChar c = true :=
        fun c hc => List.mem_takeWhile_imp hc
      refine ⟨s.takeWhile isNameChar ++ taken, ?_, fun t halike => ?_⟩
      · rw [List.append_assoc, ← hsplit]
        exact List.takeWhile_append_dropWhile.symm
      · have hstops : Stops isNameChar (taken ++ t) :=
          (halike.append_left taken).stops (hsplit ▸ Text.stops_dropWhile s)
        simp only [List.append_assoc, readAttribute, Text.takeWhile_append_stops hname hstops,
          Text.dropWhile_append_stops hname hstops, hne, hagain t halike, Except.map,
          Bool.false_eq_true, if_false]

theorem readAttribute_eq_none_iff {s : Text} :
    readAttribute s = .ok none ↔ s.takeWhile isNameChar = [] := by
  unfold readAttribute
  dsimp only
  split
  · next hempty => simpa using hempty
  · next hne =>
      constructor
      · intro h
        obtain ⟨_, -, heq⟩ := exists_of_map_eq_ok h
        cases heq
      · intro hempty
        simp [hempty] at hne

theorem readAttributes_of_none {s : Text} (h : s.takeWhile Text.isSpace = [] ∨
    readAttribute (s.dropWhile Text.isSpace) = .ok none) : readAttributes s = .ok ([], s) := by
  rw [readAttributes]
  split
  · rfl
  · next hspace =>
      have hnone := h.resolve_left (by simpa using hspace)
      split
      · next hfound => cases hnone.symm.trans hfound
      · rfl
      · next hfound => cases hnone.symm.trans hfound

theorem readAttributes_alike {s rest : Text} {attributes : List Attribute}
    (h : readAttributes s = .ok (attributes, rest)) :
    ∃ taken, s = taken ++ rest ∧
      ∀ t, Alike rest t → readAttributes (taken ++ t) = .ok (attributes, t) := by
  fun_induction readAttributes s generalizing attributes rest with
  | case1 s hspace =>
      obtain ⟨rfl, rfl⟩ := Prod.mk.inj (Except.ok.inj h)
      refine ⟨[], rfl, fun t halike => readAttributes_of_none (Or.inl ?_)⟩
      rw [List.nil_append, ← halike.takeWhile_eq (by decide)]
      simpa using hspace
  | case2 => cases h
  | case3 s hspace hnone =>
      obtain ⟨rfl, rfl⟩ := Prod.mk.inj (Except.ok.inj h)
      refine ⟨[], rfl, fun t halike => readAttributes_of_none (Or.inr ?_)⟩
      rw [readAttribute_eq_none_iff] at hnone ⊢
      rw [List.nil_append, ← (halike.dropWhile (by decide)).takeWhile_eq (by decide), hnone]
  | case4 s hspace a r hread hlt ih =>
      obtain ⟨⟨others, rest'⟩, hothers, heq⟩ := exists_of_map_eq_ok h
      obtain ⟨rfl, rfl⟩ := Prod.mk.inj heq
      obtain ⟨taken, hsplit, hagain⟩ := readAttribute_alike hread
      obtain ⟨taken', rfl, hagain'⟩ := ih hothers
      have hgap : ∀ c ∈ s.takeWhile Text.isSpace, Text.isSpace c = true :=
        fun c hc => List.mem_takeWhile_imp hc
      refine ⟨s.takeWhile Text.isSpace ++ (taken ++ taken'), ?_, fun t halike => ?_⟩
      · rw [List.append_assoc, List.append_assoc, ← hsplit]
        exact List.takeWhile_append_dropWhile.symm
      · have hbehind : Alike (taken' ++ rest') (taken' ++ t) := halike.append_left taken'
        have hstops : Stops Text.isSpace (taken ++ (taken' ++ t)) :=
          (hbehind.append_left taken).stops (hsplit ▸ Text.stops_dropWhile s)
        rw [List.append_assoc, List.append_assoc,
          readAttributes_cons hgap (by simpa using hspace) hstops (hagain _ hbehind),
          hagain' t halike]
        rfl

/-! ## Tags -/

theorem exists_tagEnd_of_readTerminator {s rest : Text} {closed : Bool}
    (h : readTerminator s = .ok (closed, rest)) :
    ∃ gap, Layout gap ∧ s = gap ++ (tagEnd closed ++ rest) := by
  have hsplit : s = s.takeWhile Text.isSpace ++ s.dropWhile Text.isSpace :=
    List.takeWhile_append_dropWhile.symm
  refine ⟨s.takeWhile Text.isSpace, fun c hc => List.mem_takeWhile_imp hc, ?_⟩
  unfold readTerminator at h
  split at h
  · next r hr =>
      obtain ⟨rfl, rfl⟩ := Prod.mk.inj (Except.ok.inj h)
      exact hsplit.trans (congrArg (s.takeWhile Text.isSpace ++ ·) hr)
  · next r hr =>
      obtain ⟨rfl, rfl⟩ := Prod.mk.inj (Except.ok.inj h)
      exact hsplit.trans (congrArg (s.takeWhile Text.isSpace ++ ·) hr)
  · cases h

theorem readOpening_append {s rest : Text} {o : Opening} (h : readOpening s = .ok (o, rest)) :
    ∃ taken, s = taken ++ rest ∧ ∀ t, readOpening (taken ++ t) = .ok (o, t) := by
  unfold readOpening at h
  split at h
  · cases h
  · next attributes behind hattributes =>
      obtain ⟨⟨closed, rest'⟩, hterminator, heq⟩ := exists_of_map_eq_ok h
      obtain ⟨rfl, rfl⟩ := Prod.mk.inj heq
      obtain ⟨taken, hsplit, hagain⟩ := readAttributes_alike hattributes
      obtain ⟨gap, hgap, rfl⟩ := exists_tagEnd_of_readTerminator hterminator
      have htag : ∀ c ∈ s.takeWhile isTagChar, isTagChar c = true :=
        fun c hc => List.mem_takeWhile_imp hc
      refine ⟨s.takeWhile isTagChar ++ (taken ++ (gap ++ tagEnd closed)), ?_, fun t => ?_⟩
      · simp only [List.append_assoc]
        rw [← hsplit]
        exact List.takeWhile_append_dropWhile.symm
      · have halike : Alike (gap ++ (tagEnd closed ++ rest')) (gap ++ (tagEnd closed ++ t)) := by
          cases closed with
          | false => exact ⟨gap, rest', t, rfl, rfl⟩
          | true => exact ⟨gap ++ ['/'], rest', t, by simp [tagEnd], by simp [tagEnd]⟩
        have hstops : Stops isTagChar (taken ++ (gap ++ (tagEnd closed ++ t))) :=
          (halike.append_left taken).stops (hsplit ▸ Text.stops_dropWhile s)
        simp only [List.append_assoc, readOpening, Text.takeWhile_append_stops htag hstops,
          Text.dropWhile_append_stops htag hstops, hagain _ halike,
          readTerminator_tagEnd hgap closed t, Except.map]

theorem readClosing_append {tag whole s rest : Text} (h : readClosing tag whole s = .ok rest) :
    ∃ taken, s = taken ++ rest ∧ ∀ whole' t, readClosing tag whole' (taken ++ t) = .ok t := by
  unfold readClosing at h
  dsimp only at h
  split at h
  · cases h
  · next hne =>
      split at h
      · cases h
      · next hname =>
          have hname : s.takeWhile isTagChar = tag := Decidable.not_not.mp hname
          split at h
          · next r hr =>
              obtain rfl := Except.ok.inj h
              let gap : Text := (s.dropWhile isTagChar).takeWhile Text.isSpace
              have hgap : ∀ c ∈ gap, Text.isSpace c = true := fun c hc => List.mem_takeWhile_imp hc
              have htag : ∀ c ∈ tag, isTagChar c = true :=
                fun c hc => List.mem_takeWhile_imp (hname ▸ hc)
              refine ⟨tag ++ (gap ++ ['>']), ?_, fun whole' t => ?_⟩
              · calc s = tag ++ s.dropWhile isTagChar := by
                      rw [← hname]; exact List.takeWhile_append_dropWhile.symm
                  _ = tag ++ (gap ++ '>' :: r) := by
                      rw [← hr]
                      exact congrArg (tag ++ ·) List.takeWhile_append_dropWhile.symm
                  _ = tag ++ (gap ++ ['>']) ++ r := by simp
              · have hspace : Stops Text.isSpace ('>' :: t) := Text.stops_cons t (by decide)
                have hstops : Stops isTagChar (gap ++ '>' :: t) :=
                  stops_layout_append (fun c => isTagChar_of_isSpace) hgap
                    (Text.stops_cons t (by decide +kernel))
                rw [hname] at hne
                simp only [List.append_assoc, List.cons_append, List.nil_append, readClosing,
                  Text.takeWhile_append_stops htag hstops, Text.dropWhile_append_stops htag hstops,
                  Text.dropWhile_append_stops hgap hspace, hne, Bool.false_eq_true, if_false,
                  ne_eq, not_true_eq_false]
          · cases h

/-! ## Parts of markup -/

theorem readThrough_append {mark what s body rest : Text}
    (h : readThrough mark what s = .ok (body, rest)) :
    ∃ taken, s = taken ++ rest ∧ ∀ t, readThrough mark what (taken ++ t) = .ok (body, t) := by
  unfold readThrough at h
  split at h
  · next body' behind hcut =>
      obtain ⟨rfl, rfl⟩ := Prod.mk.inj (Except.ok.inj h)
      obtain ⟨hsplit, behind', rfl⟩ := Text.eq_of_cutBefore hcut
      refine ⟨body' ++ mark, by rw [hsplit, List.drop_left, List.append_assoc], fun t => ?_⟩
      rw [List.append_assoc, readThrough, Text.cutBefore_append hcut t]
      simp only [List.drop_left]
  · cases h

theorem readLexeme_of_behind_comment (outer : Text) {c : Char} {r body : Text}
    (h : Text.behind? commentLead (c :: r) = some body) :
    readLexeme outer c r = (readThrough "-->" "comment terminator" body).map fun (t, rest) =>
      (.leaf (.comment (Text.trim t)), rest) := by
  unfold readLexeme
  rw [h]

theorem readLexeme_of_behind_interpolation (outer : Text) {c : Char} {r body : Text}
    (h : Text.behind? interpolationLead (c :: r) = some body) :
    readLexeme outer c r = (readThrough ['\x7d', '\x7d'] "interpolation terminator" body).map
      fun (t, rest) => (.leaf (.interpolation (Text.trim t)), rest) := by
  have hsplit := Text.eq_of_behind? h
  have hcomment : Text.behind? commentLead (c :: r) = none := by
    rw [hsplit]
    exact Text.behind?_cons_of_ne (by decide) _ _
  unfold readLexeme
  rw [hcomment, h]

theorem readLexeme_of_isLetter (outer : Text) {d : Char} (hd : Text.isLetter d = true) (u : Text) :
    readLexeme outer '<' (d :: u) =
      (readOpening (d :: u)).map fun (o, rest) => (.opening o, rest) := by
  have hcomment : Text.behind? commentLead ('<' :: d :: u) = none := by
    refine Text.behind?_cons_of_ne (?_ : '!' ≠ d) _ _
    rintro rfl
    exact absurd hd (by decide)
  have hinterpolation : Text.behind? interpolationLead ('<' :: d :: u) = none :=
    Text.behind?_cons_of_ne (by decide) _ _
  unfold readLexeme
  rw [hcomment, hinterpolation]
  simp only [if_true, hd]

theorem readLexeme_of_not_startsMarkup (outer : Text) {c : Char} {r : Text}
    (h : startsMarkup (c :: r) = false) : readLexeme outer c r = .ok (readRun c r) := by
  have hcomment : Text.behind? commentLead (c :: r) = none := by
    apply Text.behind?_eq_none
    rintro ⟨u, hu⟩
    rw [← hu] at h
    exact absurd h (by simp [commentLead, startsMarkup])
  have hinterpolation : Text.behind? interpolationLead (c :: r) = none := by
    apply Text.behind?_eq_none
    rintro ⟨u, hu⟩
    rw [← hu] at h
    exact absurd h (by simp [interpolationLead, startsMarkup])
  unfold readLexeme
  rw [hcomment, hinterpolation]
  dsimp only
  split
  · next hangle =>
      subst hangle
      cases r with
      | nil => rfl
      | cons d u =>
          simp only [startsMarkup, Bool.or_eq_false_iff, decide_eq_false_iff_not] at h
          simp [h]
  · rfl

theorem exists_taken_of_readOpening {d : Char} {u rest : Text} {o : Opening}
    (hletter : Text.isLetter d = true) (h : readOpening (d :: u) = .ok (o, rest)) :
    ∃ taken, d :: u = taken ++ rest ∧
      ∀ outer t, readLexeme outer '<' (taken ++ t) = .ok (.opening o, t) := by
  obtain ⟨taken, hsplit, hagain⟩ := readOpening_append h
  refine ⟨taken, hsplit, fun outer t => ?_⟩
  cases taken with
  | nil =>
      -- something was taken, as what is left is shorter
      have hshort := length_of_readOpening h
      rw [hsplit] at hshort
      exact absurd hshort (Nat.lt_irrefl _)
  | cons e v =>
      obtain rfl : d = e := (List.cons.inj hsplit).1
      rw [List.cons_append, readLexeme_of_isLetter outer hletter, ← List.cons_append, hagain t]
      rfl

/-- What starts with `<` and is no comment is a tag; a `<!` that starts no comment is a fault. -/
theorem exists_taken_of_angle {outer r rest : Text} {x : Lexeme}
    (hcomment : Text.behind? commentLead ('<' :: r) = none)
    (hinterpolation : Text.behind? interpolationLead ('<' :: r) = none)
    (hclosing : ∀ r', r = '/' :: r' → False) (hstarts : startsMarkup ('<' :: r) = true)
    (h : readLexeme outer '<' r = .ok (x, rest)) :
    ∃ taken, r = taken ++ rest ∧ ∀ outer' t, readLexeme outer' '<' (taken ++ t) = .ok (x, t) := by
  cases r with
  | nil => cases hstarts
  | cons d u =>
      have hslash : d ≠ '/' := fun hd => hclosing u (by rw [hd])
      by_cases hletter : Text.isLetter d = true
      · rw [readLexeme_of_isLetter outer hletter] at h
        obtain ⟨⟨o, rest'⟩, hopening, heq⟩ := exists_of_map_eq_ok h
        obtain ⟨rfl, rfl⟩ := Prod.mk.inj heq
        exact exists_taken_of_readOpening hletter hopening
      · have hbang : d = '!' := by simpa [startsMarkup, hletter, hslash] using hstarts
        subst hbang
        unfold readLexeme at h
        rw [hcomment, hinterpolation] at h
        simp [Text.isLetter] at h

theorem exists_taken_of_readThrough {mark what body rest : Text} {c : Char} {r : Text}
    {x : Lexeme} (lead : Text) (f : Text → Node)
    (hlead : Text.behind? (c :: lead) (c :: r) = some body)
    (hread : ∀ outer u body, Text.behind? (c :: lead) (c :: u) = some body →
      readLexeme outer c u = (readThrough mark what body).map fun p => (.leaf (f p.1), p.2))
    (h : ((readThrough mark what body).map fun p => (Lexeme.leaf (f p.1), p.2)) = .ok (x, rest)) :
    ∃ taken, r = taken ++ rest ∧ ∀ outer t, readLexeme outer c (taken ++ t) = .ok (x, t) := by
  obtain ⟨⟨t, rest'⟩, hthrough, heq⟩ := exists_of_map_eq_ok h
  obtain ⟨rfl, rfl⟩ := Prod.mk.inj heq
  obtain ⟨taken, rfl, hagain⟩ := readThrough_append hthrough
  obtain rfl : r = lead ++ (taken ++ rest') := (List.cons.inj (Text.eq_of_behind? hlead)).2
  refine ⟨lead ++ taken, (List.append_assoc ..).symm, fun outer u => ?_⟩
  have hbehind : Text.behind? (c :: lead) (c :: (lead ++ (taken ++ u))) = some (taken ++ u) :=
    Text.behind?_append (c :: lead) (taken ++ u)
  rw [List.append_assoc, hread outer _ _ hbehind, hagain u]
  rfl

/-- A part that ends with a mark of its own is read whatever stands behind it; any other is a text
where no markup starts. -/
theorem readLexeme_append {outer : Text} {c : Char} {r rest : Text} {x : Lexeme}
    (hclosing : ∀ r', c = '<' → r = '/' :: r' → False) (h : readLexeme outer c r = .ok (x, rest)) :
    (∃ taken, r = taken ++ rest ∧
      ∀ outer' t, readLexeme outer' c (taken ++ t) = .ok (x, t)) ∨
    (startsMarkup (c :: r) = false ∧ readRun c r = (x, rest)) := by
  cases hstarts : startsMarkup (c :: r) with
  | false =>
      rw [readLexeme_of_not_startsMarkup outer hstarts] at h
      exact Or.inr ⟨rfl, Except.ok.inj h⟩
  | true =>
      refine Or.inl ?_
      cases hcomment : Text.behind? commentLead (c :: r) with
      | some body =>
          obtain rfl : c = '<' := (List.cons.inj (Text.eq_of_behind? hcomment)).1
          rw [readLexeme_of_behind_comment outer hcomment] at h
          exact exists_taken_of_readThrough ['!', '-', '-']
            (fun t => .comment (Text.trim t)) hcomment
            (fun outer _ _ hbehind => readLexeme_of_behind_comment outer hbehind) h
      | none =>
          cases hinterpolation : Text.behind? interpolationLead (c :: r) with
          | some body =>
              obtain rfl : c = '\x7b' := (List.cons.inj (Text.eq_of_behind? hinterpolation)).1
              rw [readLexeme_of_behind_interpolation outer hinterpolation] at h
              exact exists_taken_of_readThrough ['\x7b']
                (fun t => .interpolation (Text.trim t)) hinterpolation
                (fun outer _ _ hbehind => readLexeme_of_behind_interpolation outer hbehind) h
          | none =>
              obtain rfl : c = '<' := by
                by_contra hangle
                rw [startsMarkup_of_ne hangle hinterpolation] at hstarts
                cases hstarts
              exact exists_taken_of_angle hcomment hinterpolation (fun r' => hclosing r' rfl) hstarts h

theorem suffix_of_readLexeme {outer : Text} {c : Char} {r rest : Text} {x : Lexeme}
    (hclosing : ∀ r', c = '<' → r = '/' :: r' → False) (h : readLexeme outer c r = .ok (x, rest)) :
    rest <:+ c :: r := by
  refine List.IsSuffix.trans ?_ (List.suffix_cons c r)
  rcases readLexeme_append hclosing h with ⟨taken, hsplit, -⟩ | ⟨-, hrun⟩
  · exact ⟨taken, hsplit.symm⟩
  · obtain rfl : (readText r).2 = rest := (Prod.mk.inj hrun).2
    exact ⟨(readText r).1, readText_append r⟩

/-! ## In front of a closing tag -/

/-- A closing tag starts here. -/
def StartsClosing (z : Text) : Prop := ['<', '/'] <+: z

theorem startsMarkup_append {s z : Text} (hne : s ≠ []) (hz : StartsClosing z) :
    startsMarkup (s ++ z) = startsMarkup s := by
  obtain ⟨u, rfl⟩ := hz
  match s with
  | [] => exact absurd rfl hne
  | [c] =>
      by_cases hlead : c ≠ '<' ∧ c ≠ '\x7b'
      · rw [startsMarkup_cons_of_ne hlead, List.cons_append, startsMarkup_cons_of_ne hlead]
      · rcases Decidable.not_and_iff_not_or_not.mp hlead with h | h
        · rw [Decidable.not_not.mp h]; rfl
        · rw [Decidable.not_not.mp h]; rfl
  | c :: d :: r =>
      -- only the first two characters count
      unfold startsMarkup
      split <;> simp_all

theorem readText_append_closing (s : Text) {z : Text} (hz : StartsClosing z) :
    readText (s ++ z) = ((readText s).1, (readText s).2 ++ z) := by
  induction s with
  | nil =>
      obtain ⟨u, rfl⟩ := hz
      rfl
  | cons c r ih =>
      have hstarts := startsMarkup_append (List.cons_ne_nil c r) hz
      rw [List.cons_append] at hstarts ⊢
      rw [readText, readText, hstarts, ih]
      split <;> rfl

theorem readRun_append_closing (c : Char) (r : Text) {z : Text} (hz : StartsClosing z) :
    readRun c (r ++ z) = ((readRun c r).1, (readRun c r).2 ++ z) := by
  rw [readRun, readText_append_closing r hz]
  rfl

theorem stops_of_not_closing {c : Char} {r : Text}
    (hclosing : ∀ r', c = '<' → r = '/' :: r' → False) (hc : c = '<') : Stops (· == '/') r := by
  intro d hd
  obtain ⟨r', rfl⟩ := List.head?_eq_some_iff.mp hd
  rw [beq_eq_false_iff_ne]
  rintro rfl
  exact hclosing r' hc rfl

/-- A part read in front of a closing tag is read the same when the text ends there. -/
theorem readLexeme_cut {outer : Text} {c : Char} {r before z : Text} {x : Lexeme}
    (hclosing : ∀ r', c = '<' → r = '/' :: r' → False) (hz : StartsClosing z)
    (h : readLexeme outer c r = .ok (x, before ++ z)) :
    ∃ r₀, r = r₀ ++ z ∧ (c = '<' → Stops (· == '/') r₀) ∧
      ∀ outer', readLexeme outer' c r₀ = .ok (x, before) := by
  have hcut : ∀ r₀, r = r₀ ++ z → c = '<' → Stops (· == '/') r₀ := by
    rintro r₀ rfl
    exact stops_of_not_closing fun r' hc hr => hclosing (r' ++ z) hc (by rw [hr, List.cons_append])
  rcases readLexeme_append hclosing h with ⟨taken, hsplit, hagain⟩ | ⟨hstarts, hrun⟩
  · rw [← List.append_assoc] at hsplit
    exact ⟨taken ++ before, hsplit, hcut _ hsplit, fun outer' => hagain outer' before⟩
  · have hrest : (readText r).2 = before ++ z := (Prod.mk.inj hrun).2
    have hsplit : r = ((readText r).1 ++ before) ++ z := by
      rw [List.append_assoc, ← hrest]
      exact (readText_append r).symm
    generalize (readText r).1 ++ before = r₀ at hsplit
    subst hsplit
    rw [← List.cons_append, startsMarkup_append (List.cons_ne_nil c r₀) hz] at hstarts
    rw [readRun_append_closing c r₀ hz] at hrun
    obtain ⟨hfirst, hsecond⟩ := Prod.mk.inj hrun
    refine ⟨r₀, rfl, hcut r₀ rfl, fun outer' => ?_⟩
    rw [readLexeme_of_not_startsMarkup outer' hstarts, ← hfirst, ← List.append_cancel_right hsecond]

/-- A part that ends with the text is read the same in front of a closing tag. -/
theorem readLexeme_append_closing {outer : Text} {c : Char} {r rest z : Text} {x : Lexeme}
    (hclosing : ∀ r', c = '<' → r = '/' :: r' → False) (hz : StartsClosing z)
    (h : readLexeme outer c r = .ok (x, rest)) :
    (c = '<' → Stops (· == '/') (r ++ z)) ∧
      ∀ outer', readLexeme outer' c (r ++ z) = .ok (x, rest ++ z) := by
  have hslash : Stops (· == '/') z := by
    obtain ⟨u, rfl⟩ := hz
    exact Text.stops_cons _ rfl
  refine ⟨fun hc => Text.stops_append (stops_of_not_closing hclosing hc) fun _ => hslash, ?_⟩
  intro outer'
  rcases readLexeme_append hclosing h with ⟨taken, rfl, hagain⟩ | ⟨hstarts, hrun⟩
  · rw [List.append_assoc]
    exact hagain outer' (rest ++ z)
  · rw [← startsMarkup_append (List.cons_ne_nil c r) hz, List.cons_append] at hstarts
    rw [readLexeme_of_not_startsMarkup outer' hstarts, readRun_append_closing c r hz, hrun]

end Markup

end AttributeCss
