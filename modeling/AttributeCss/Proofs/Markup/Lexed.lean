/-
Reading the parts of printed markup.

Every reader of a part takes as much as it can: a name runs to the first
character that names do not have, a text to the first place that looks like
markup.  So it gives back what was printed where what stands behind cannot be
taken for more of it, and for each part it is said here what that is.
-/
import AttributeCss.Proofs.Markup.Printed
import AttributeCss.Proofs.Text.Marks
import AttributeCss.Proofs.Text.Runs
import AttributeCss.Proofs.Text.Trimmed

namespace AttributeCss

namespace Text

/-! ## Marks -/

theorem behind?_cons_of_ne {c d : Char} (h : c ≠ d) (lead r : Text) :
    behind? (c :: lead) (d :: r) = none := by
  rw [behind?_cons, if_neg (by simpa using h)]

theorem cutBefore_append_space {mark body : Text} (hne : mark ≠ []) (hspace : ' ' ∉ mark)
    (hbody : ¬ mark <:+: body) (rest : Text) :
    cutBefore mark (body ++ ' ' :: (mark ++ rest)) = some (body ++ [' '], mark ++ rest) := by
  have hnot : ∀ {a : Text}, ¬ mark <+: a →
      mark.isPrefixOf (a ++ ' ' :: (mark ++ rest)) = false := by
    intro a ha
    rw [Bool.eq_false_iff, ne_eq, List.isPrefixOf_iff_prefix]
    exact fun h => ha (prefix_of_prefix_append hspace h)
  induction body with
  | nil =>
      have hhere : cutBefore mark (mark ++ rest) = some ([], mark ++ rest) := by
        obtain ⟨m, ms, rfl⟩ := List.exists_cons_of_ne_nil hne
        have hprefix : (m :: ms).isPrefixOf (m :: (ms ++ rest)) = true :=
          List.isPrefixOf_iff_prefix.mpr (List.prefix_append (m :: ms) rest)
        simp [cutBefore, hprefix]
      have hspaced : mark.isPrefixOf (' ' :: (mark ++ rest)) = false :=
        hnot fun h => hne (List.prefix_nil.mp h)
      simp [cutBefore, hspaced, hhere]
  | cons c r ih =>
      rw [List.infix_cons_iff, not_or] at hbody
      have hlater := hnot hbody.1
      simp only [List.cons_append] at hlater ⊢
      simp [cutBefore, hlater, ih hbody.2]

end Text

namespace Markup

open Text (Stops)

/-! ## Classes of characters -/

theorem isTagChar_of_isLetter {c : Char} (h : Text.isLetter c = true) : isTagChar c = true := by
  have halnum : Text.isAlphanumeric c = true :=
    Text.isAlphanumeric_of_isAlphanum (by simp [Char.isAlphanum, Text.isLetter] at h ⊢; simp [h])
  simp [isTagChar, halnum]

theorem isTagChar_of_isSpace {c : Char} (h : Text.isSpace c = true) : isTagChar c = false := by
  simp only [Text.isSpace, Bool.or_eq_true, decide_eq_true_eq] at h
  rcases h with ((rfl | rfl) | rfl) | rfl <;> decide +kernel

theorem isNameChar_of_isSpace {c : Char} (h : Text.isSpace c = true) : isNameChar c = false := by
  simp [isNameChar, isReserved, Text.isBlank_of_isSpace h]

theorem isSpace_of_isNameChar {c : Char} (h : isNameChar c = true) : Text.isSpace c = false := by
  rw [Bool.eq_false_iff]
  intro hspace
  rw [isNameChar_of_isSpace hspace] at h
  cases h

theorem stops_layout_append {p : Char → Bool} (hp : ∀ c, Text.isSpace c = true → p c = false)
    {gap b : Text} (hgap : Layout gap) (hb : Stops p b) : Stops p (gap ++ b) := by
  cases gap with
  | nil => exact hb
  | cons c r => exact Text.stops_cons _ (hp c (hgap c List.mem_cons_self))

/-! ## Attributes -/

/-- What may stand behind an attribute: no more of its name, and no equals sign. -/
structure EndsAttribute (s : Text) : Prop where
  name : Stops isNameChar s
  unassigned : Stops (· == '=') (s.dropWhile Text.isSpace)

theorem readValue_quoted {q : Char} (hq : q = Text.quoteMark ∨ q = Text.apostrophe) {value : Text}
    (hvalue : q ∉ value) (rest : Text) :
    readValue (q :: (value ++ q :: rest)) = .ok (value, rest) := by
  have hread : readQuoted? q (q :: (value ++ q :: rest)) = some (value, rest) :=
    (if_pos rfl).trans (Text.cutFirst_append rest hvalue)
  rcases hq with rfl | rfl
  · simp only [readValue, hread, Option.some_or]
  · have hother : readQuoted? Text.quoteMark
        (Text.apostrophe :: (value ++ Text.apostrophe :: rest)) = none := by
      rw [readQuoted?, if_neg (by decide)]
    simp only [readValue, hother, hread, Option.none_or, Option.some_or]

theorem ofRaw_of_isStaticName {name : Text} (h : IsStaticName name) (value : Option Text) :
    Attribute.ofRaw name value = .static name value := by
  unfold Attribute.ofRaw
  split
  · next r => exact absurd (List.prefix_append ['v', '-'] r) h.not_long
  · exact absurd (by simp) h.not_short
  · exact absurd (by simp) h.not_short
  · exact absurd (by simp) h.not_short
  · rfl

theorem readAttribute_append {name s rest : Text} {value : Option Text} (hname : IsStaticName name)
    (hs : Stops isNameChar s) (hassigned : readAssigned s = .ok (value, rest)) :
    readAttribute (name ++ s) = .ok (some (.static name value, rest)) := by
  have htake := Text.takeWhile_append_stops hname.chars hs
  have hdrop := Text.dropWhile_append_stops hname.chars hs
  simp [readAttribute, htake, hdrop, hname.ne_nil, hassigned, Except.map,
    ofRaw_of_isStaticName hname]

theorem readAssigned_of_unassigned {s : Text} (h : Stops (· == '=') (s.dropWhile Text.isSpace)) :
    readAssigned s = .ok (none, s) := by
  unfold readAssigned
  split
  · next r hr =>
      rw [hr] at h
      cases h '=' rfl
  · rfl

theorem readAttribute_printed {a : Attribute} {u rest : Text} (hu : a.PrintedAs u)
    (ha : a.Printable) (hrest : EndsAttribute rest) :
    readAttribute (u ++ rest) = .ok (some (a, rest)) := by
  cases hu with
  | bare =>
      cases ha with
      | bare hname =>
          exact readAttribute_append hname hrest.name (readAssigned_of_unassigned hrest.unassigned)
  | @quoted name value before behind q hbefore hbehind hq hfree =>
      cases ha with
      | valued hname =>
          have hequals : Stops Text.isSpace ('=' :: (behind ++ q :: (value ++ q :: rest))) :=
            Text.stops_cons _ (by decide)
          have hquote : Stops Text.isSpace (q :: (value ++ q :: rest)) :=
            Text.stops_cons _ (by rcases hq with rfl | rfl <;> decide)
          simp only [List.append_assoc, List.cons_append, List.nil_append]
          refine readAttribute_append hname ?_ ?_
          · exact stops_layout_append (fun c => isNameChar_of_isSpace) hbefore
              (Text.stops_cons _ (by decide))
          · simp only [readAssigned, Text.dropWhile_append_stops hbefore hequals,
              Text.dropWhile_append_stops hbehind hquote, readValue_quoted hq hfree, Except.map]

theorem stops_printed_attribute {p : Char → Bool} (hp : ∀ c, isNameChar c = true → p c = false)
    {a : Attribute} {u : Text} (hu : a.PrintedAs u) (ha : a.Printable) (rest : Text) :
    Stops p (u ++ rest) := by
  have hstops : ∀ {name : Text}, IsStaticName name → ∀ s, Stops p (name ++ s) := by
    intro name hname s
    obtain ⟨c, r, rfl⟩ := List.exists_cons_of_ne_nil hname.ne_nil
    exact Text.stops_cons _ (hp c (hname.chars c List.mem_cons_self))
  cases hu with
  | bare =>
      cases ha with
      | bare hname => exact hstops hname rest
  | quoted =>
      cases ha with
      | valued hname =>
          rw [List.append_assoc]
          exact hstops hname _

theorem ne_equals_of_isNameChar (c : Char) (h : isNameChar c = true) : (c == '=') = false := by
  rw [beq_eq_false_iff_ne]
  rintro rfl
  exact absurd h (by decide)

/-- What may stand behind the attributes of a tag: what ends the tag. -/
def EndsTag (s : Text) : Prop := ∃ c r, s = c :: r ∧ (c = '>' ∨ c = '/')

theorem endsTag_tagEnd (closed : Bool) (rest : Text) : EndsTag (tagEnd closed ++ rest) := by
  cases closed with
  | false => exact ⟨'>', rest, rfl, Or.inl rfl⟩
  | true => exact ⟨'/', '>' :: rest, rfl, Or.inr rfl⟩

namespace EndsTag

variable {e : Text}

theorem stops {p : Char → Bool} (he : EndsTag e) (hgreater : p '>' = false)
    (hslash : p '/' = false) : Stops p e := by
  obtain ⟨c, r, rfl, rfl | rfl⟩ := he
  · exact Text.stops_cons r hgreater
  · exact Text.stops_cons r hslash

theorem stops_space (he : EndsTag e) : Stops Text.isSpace e := he.stops (by decide) (by decide)

theorem stops_name (he : EndsTag e) : Stops isNameChar e := he.stops (by decide) (by decide)

theorem stops_tag (he : EndsTag e) : Stops isTagChar e :=
  he.stops (by decide +kernel) (by decide +kernel)

end EndsTag

theorem endsAttribute_tail {attributes : List Attribute} {s : Text} (hs : Tail attributes s)
    (hattributes : ∀ a ∈ attributes, a.Printable) {e : Text} (he : EndsTag e) :
    EndsAttribute (s ++ e) := by
  cases hs with
  | nil hgap =>
      refine ⟨stops_layout_append (fun c => isNameChar_of_isSpace) hgap he.stops_name, ?_⟩
      rw [Text.dropWhile_append_stops hgap he.stops_space]
      exact he.stops rfl rfl
  | @cons a attributes gap u s hgap hne hu hs =>
      have ha : a.Printable := hattributes a List.mem_cons_self
      have hspace := stops_printed_attribute (fun c => isSpace_of_isNameChar) hu ha (s ++ e)
      rw [List.append_assoc, List.append_assoc]
      constructor
      · obtain ⟨d, gap, rfl⟩ := List.exists_cons_of_ne_nil hne
        exact Text.stops_cons _ (isNameChar_of_isSpace (hgap d List.mem_cons_self))
      · rw [Text.dropWhile_append_stops hgap hspace]
        exact stops_printed_attribute ne_equals_of_isNameChar hu ha (s ++ e)

theorem readAttributes_of_endsTag {gap e : Text} (hgap : Layout gap) (he : EndsTag e) :
    readAttributes (gap ++ e) = .ok ([], gap ++ e) := by
  have hnone : readAttribute ((gap ++ e).dropWhile Text.isSpace) = .ok none := by
    rw [Text.dropWhile_append_stops hgap he.stops_space]
    simp [readAttribute, Text.takeWhile_of_stops he.stops_name]
  rw [readAttributes]
  split
  · rfl
  · split
    · next hread => cases hnone.symm.trans hread
    · rfl
    · next hread => cases hnone.symm.trans hread

theorem readAttributes_cons {gap : Text} (hgap : Layout gap) (hne : gap ≠ []) {body rest : Text}
    (hbody : Stops Text.isSpace body) {a : Attribute}
    (hread : readAttribute body = .ok (some (a, rest))) :
    readAttributes (gap ++ body) =
      (readAttributes rest).map fun (others, rest) => (a :: others, rest) := by
  have hsome : readAttribute ((gap ++ body).dropWhile Text.isSpace) = .ok (some (a, rest)) := by
    rw [Text.dropWhile_append_stops hgap hbody, hread]
  rw [readAttributes, Text.takeWhile_append_stops hgap hbody, if_neg (by simp [hne])]
  split
  · next hfound => cases hsome.symm.trans hfound
  · next hfound => cases hsome.symm.trans hfound
  · next hfound =>
      cases hsome.symm.trans hfound
      rfl

theorem readAttributes_tail {attributes : List Attribute} {s : Text} (hs : Tail attributes s)
    (hattributes : ∀ a ∈ attributes, a.Printable) {e : Text} (he : EndsTag e) :
    ∃ gap, Layout gap ∧ readAttributes (s ++ e) = .ok (attributes, gap ++ e) := by
  induction hs with
  | @nil gap hgap => exact ⟨gap, hgap, readAttributes_of_endsTag hgap he⟩
  | @cons a attributes gap u s hgap hne hu hs ih =>
      have ha : a.Printable := hattributes a List.mem_cons_self
      have hothers : ∀ a ∈ attributes, a.Printable :=
        fun a ha => hattributes a (List.mem_cons_of_mem _ ha)
      obtain ⟨gap', hgap', hread⟩ := ih hothers
      have hfirst := readAttribute_printed hu ha (endsAttribute_tail hs hothers he)
      have hspace := stops_printed_attribute (fun c => isSpace_of_isNameChar) hu ha (s ++ e)
      refine ⟨gap', hgap', ?_⟩
      rw [List.append_assoc, List.append_assoc, readAttributes_cons hgap hne hspace hfirst, hread]
      rfl

/-! ## Tags -/

theorem IsTag.chars {tag : Text} (h : IsTag tag) : ∀ c ∈ tag, isTagChar c = true := by
  obtain ⟨c, r, rfl, hc, hr⟩ := h
  exact List.forall_mem_cons.mpr ⟨isTagChar_of_isLetter hc, hr⟩

theorem readTerminator_tagEnd {gap : Text} (hgap : Layout gap) (closed : Bool) (rest : Text) :
    readTerminator (gap ++ (tagEnd closed ++ rest)) = .ok (closed, rest) := by
  rw [readTerminator, Text.dropWhile_append_stops hgap (endsTag_tagEnd closed rest).stops_space]
  cases closed with
  | false => rfl
  | true => rfl

theorem stops_tail {attributes : List Attribute} {s : Text} (hs : Tail attributes s) {e : Text}
    (he : EndsTag e) : Stops isTagChar (s ++ e) := by
  have hspace : ∀ c, Text.isSpace c = true → isTagChar c = false := fun c => isTagChar_of_isSpace
  cases hs with
  | nil hgap => exact stops_layout_append hspace hgap he.stops_tag
  | cons hgap hne =>
      obtain ⟨d, gap, rfl⟩ := List.exists_cons_of_ne_nil hne
      exact Text.stops_cons _ (hspace d (hgap d List.mem_cons_self))

theorem readOpening_printed {tag s : Text} {attributes : List Attribute} (htag : IsTag tag)
    (hattributes : ∀ a ∈ attributes, a.Printable) (hs : Tail attributes s) (closed : Bool)
    (rest : Text) :
    readOpening (tag ++ (s ++ (tagEnd closed ++ rest))) = .ok (⟨tag, attributes, closed⟩, rest) := by
  have he : EndsTag (tagEnd closed ++ rest) := endsTag_tagEnd closed rest
  obtain ⟨gap, hgap, hread⟩ := readAttributes_tail hs hattributes he
  have hstops := stops_tail hs he
  rw [readOpening, Text.dropWhile_append_stops htag.chars hstops, hread]
  simp only [readTerminator_tagEnd hgap, Except.map,
    Text.takeWhile_append_stops htag.chars hstops]

theorem readClosing_printed {tag : Text} (htag : IsTag tag) (whole rest : Text) :
    readClosing tag whole (tag ++ '>' :: rest) = .ok rest := by
  have hstops : Stops isTagChar ('>' :: rest) := Text.stops_cons rest (by decide +kernel)
  have hspace : Stops Text.isSpace ('>' :: rest) := Text.stops_cons rest (by decide)
  have hne : tag ≠ [] := by
    obtain ⟨c, r, rfl, -⟩ := htag
    nofun
  simp [readClosing, Text.takeWhile_append_stops htag.chars hstops,
    Text.dropWhile_append_stops htag.chars hstops, Text.dropWhile_of_stops hspace, hne]

/-! ## Parts of markup -/

theorem readThrough_padded {mark t : Text} (hne : mark ≠ []) (hspace : ' ' ∉ mark)
    (ht : ¬ mark <:+: t) (what rest : Text) :
    readThrough mark what (' ' :: (t ++ ' ' :: (mark ++ rest))) =
      .ok (' ' :: (t ++ [' ']), rest) := by
  have hbody : ¬ mark <:+: ' ' :: t := by
    rw [List.infix_cons_iff, not_or]
    exact ⟨fun h => hne (List.prefix_nil.mp (Text.prefix_of_prefix_append hspace h)), ht⟩
  have hcut := Text.cutBefore_append_space hne hspace hbody rest
  simp only [List.cons_append] at hcut
  simp only [readThrough, hcut, List.drop_left]

theorem trim_padded {t : Text} (ht : Text.trim t = t) : Text.trim (' ' :: (t ++ [' '])) = t :=
  (Text.trim_surrounded (show Text.allBlank [' '] = true by decide) (by decide) t).trans ht

theorem readLexeme_comment {t : Text} (htrim : Text.trim t = t) (ht : ¬ "-->".toList <:+: t)
    (outer rest : Text) :
    readLexeme outer '<' ("!-- ".toList ++ (t ++ (" -->".toList ++ rest))) =
      .ok (.leaf (.comment t), rest) := by
  have hlead : Text.behind? commentLead ('<' :: ("!-- ".toList ++ (t ++ (" -->".toList ++ rest)))) =
      some (' ' :: (t ++ ' ' :: ("-->".toList ++ rest))) :=
    Text.behind?_append commentLead (' ' :: (t ++ ' ' :: ("-->".toList ++ rest)))
  unfold readLexeme
  rw [hlead]
  simp only [readThrough_padded (by decide) (by decide) ht, Except.map, trim_padded htrim]

theorem readLexeme_interpolation {t : Text} (htrim : Text.trim t = t)
    (ht : ¬ ['\x7d', '\x7d'] <:+: t) (outer rest : Text) :
    readLexeme outer '\x7b' ('\x7b' :: ' ' :: (t ++ ' ' :: '\x7d' :: '\x7d' :: rest)) =
      .ok (.leaf (.interpolation t), rest) := by
  have hcomment : Text.behind? commentLead
      ('\x7b' :: '\x7b' :: ' ' :: (t ++ ' ' :: '\x7d' :: '\x7d' :: rest)) = none :=
    Text.behind?_cons_of_ne (by decide) _ _
  have hlead : Text.behind? interpolationLead
      ('\x7b' :: '\x7b' :: ' ' :: (t ++ ' ' :: '\x7d' :: '\x7d' :: rest)) =
      some (' ' :: (t ++ ' ' :: (['\x7d', '\x7d'] ++ rest))) :=
    Text.behind?_append interpolationLead (' ' :: (t ++ ' ' :: (['\x7d', '\x7d'] ++ rest)))
  unfold readLexeme
  rw [hcomment, hlead]
  simp only [readThrough_padded (by decide) (by decide) ht, Except.map, trim_padded htrim]

theorem readLexeme_tag {tag s : Text} {attributes : List Attribute} (htag : IsTag tag)
    (hattributes : ∀ a ∈ attributes, a.Printable) (hs : Tail attributes s) (closed : Bool)
    (outer rest : Text) :
    readLexeme outer '<' (tag ++ (s ++ (tagEnd closed ++ rest))) =
      .ok (.opening ⟨tag, attributes, closed⟩, rest) := by
  have hread := readOpening_printed htag hattributes hs closed rest
  obtain ⟨c, r, rfl, hc, -⟩ := htag
  simp only [List.cons_append] at hread ⊢
  have hcomment : Text.behind? commentLead
      ('<' :: c :: (r ++ (s ++ (tagEnd closed ++ rest)))) = none := by
    have hne : '!' ≠ c := by
      rintro rfl
      exact absurd hc (by decide)
    exact Text.behind?_cons_of_ne hne _ _
  have hinterpolation : Text.behind? interpolationLead
      ('<' :: c :: (r ++ (s ++ (tagEnd closed ++ rest)))) = none :=
    Text.behind?_cons_of_ne (by decide) _ _
  unfold readLexeme
  rw [hcomment, hinterpolation]
  simp only [if_true, hc, hread, Except.map]

/-- What may stand behind a text: nothing, or what starts markup. -/
def EndsText (s : Text) : Prop := s = [] ∨ startsMarkup s = true

theorem readText_of_endsText {s : Text} (h : EndsText s) : readText s = ([], s) := by
  cases s with
  | nil => rfl
  | cons c r => exact if_pos (h.resolve_left (List.cons_ne_nil c r))

theorem startsMarkup_cons_of_ne {c : Char} (h : c ≠ '<' ∧ c ≠ '\x7b') (r : Text) :
    startsMarkup (c :: r) = false := by
  unfold startsMarkup
  split
  · next heq => exact absurd (List.cons.inj heq).1 h.1
  · next heq => exact absurd (List.cons.inj heq).1 h.2
  · rfl

theorem readText_append_of_endsText {t : Text} (ht : ∀ c ∈ t, c ≠ '<' ∧ c ≠ '\x7b') {rest : Text}
    (hrest : EndsText rest) : readText (t ++ rest) = (t, rest) := by
  induction t with
  | nil => exact readText_of_endsText hrest
  | cons c r ih =>
      obtain ⟨hc, hr⟩ := List.forall_mem_cons.mp ht
      simp [readText, startsMarkup_cons_of_ne hc, ih hr]

theorem readLexeme_text {c : Char} {r : Text} (ht : ∀ d ∈ c :: r, d ≠ '<' ∧ d ≠ '\x7b')
    {rest : Text} (hrest : EndsText rest) (outer : Text) :
    readLexeme outer c (r ++ rest) = .ok (.leaf (.text (c :: r)), rest) := by
  obtain ⟨⟨hangle, hbrace⟩, hr⟩ := List.forall_mem_cons.mp ht
  have hcomment : Text.behind? commentLead (c :: (r ++ rest)) = none :=
    Text.behind?_cons_of_ne (Ne.symm hangle) _ _
  have hinterpolation : Text.behind? interpolationLead (c :: (r ++ rest)) = none :=
    Text.behind?_cons_of_ne (Ne.symm hbrace) _ _
  unfold readLexeme
  rw [hcomment, hinterpolation]
  simp only [hangle, if_false, readRun, readText_append_of_endsText hr hrest]

end Markup

end AttributeCss
