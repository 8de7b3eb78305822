/-
What a vocabulary tells apart.

The facets of names and values are told by literal text alone: by a start of the
name, by places where the marker stands in it, and by a space in the value
(`LiteralFacets`).  Nothing else can be read off them, so all that tells them in
this way tells the same, and neither order nor repetition of the pseudo-classes
matters (`LiteralFacets.unique`).
-/
import AttributeCss.Proofs.Stylesheet.Token

namespace AttributeCss

namespace Vocabulary

/-! ## Segments -/

theorem ne_nil_of_cutFirst {t behind a b : Text} {c : Char}
    (h : Text.cutFirst ':' (t ++ ':' :: c :: behind) = some (a, b)) : b ≠ [] := by
  rintro rfl
  obtain ⟨heq, ha⟩ := Text.eq_of_cutFirst h
  have hdrop := congrArg List.dropLast heq
  rw [List.dropLast_concat, List.dropLast_append_of_ne_nil (by simp)] at hdrop
  exact ha (hdrop ▸ by simp)

/-- Any colon in the first line will do, if something stands behind it there. -/
theorem hasSegment_iff {t : Text} : hasSegment t = true ↔
    ∃ between c behind, t = between ++ ':' :: c :: behind ∧ '\n' ∉ between ∧ c ≠ '\n' := by
  constructor
  · intro h
    unfold hasSegment at h
    split at h
    · next between segment hcut =>
        obtain ⟨hline, -⟩ := Text.eq_of_cutFirst hcut
        obtain ⟨c, r, rfl⟩ := List.exists_cons_of_ne_nil (l := segment) (by simpa using h)
        have hall : ∀ d ∈ between ++ ':' :: c :: r, d ≠ '\n' := by
          intro d hd
          rw [← hline] at hd
          simpa using List.mem_takeWhile_imp hd
        refine ⟨between, c, r ++ t.dropWhile (· ≠ '\n'), ?_, ?_, hall c (by simp)⟩
        · have hsplit := List.takeWhile_append_dropWhile (p := (· ≠ '\n')) (l := t)
          rw [hline] at hsplit
          simpa using hsplit.symm
        · exact fun hmem => hall '\n' (by simp [hmem]) rfl
    · cases h
  · rintro ⟨between, c, behind, rfl, hbetween, hc⟩
    have hline : (between ++ ':' :: c :: behind).takeWhile (· ≠ '\n') =
        between ++ ':' :: c :: behind.takeWhile (· ≠ '\n') := by
      have hfirst : ∀ d ∈ between, decide (d ≠ '\n') = true :=
        fun d hd => decide_eq_true fun heq => hbetween (heq ▸ hd)
      rw [List.takeWhile_append_of_pos hfirst, List.takeWhile_cons_of_pos (by decide),
        List.takeWhile_cons_of_pos (by simpa using hc)]
    rw [hasSegment, hline]
    cases hcut : Text.cutFirst ':' (between ++ ':' :: c :: behind.takeWhile (· ≠ '\n')) with
    | none => simp [Text.cutFirst_eq_none] at hcut
    | some cut => simpa using ne_nil_of_cutFirst hcut

theorem hasSegment_append {a t : Text} (hbefore : '\n' ∉ a) (hne : t ≠ []) (hline : '\n' ∉ t) :
    hasSegment (a ++ ':' :: t) = true := by
  obtain ⟨c, r, rfl⟩ := List.exists_cons_of_ne_nil hne
  exact hasSegment_iff.mpr ⟨a, c, r, rfl, hbefore, Ne.symm (List.ne_of_not_mem_cons hline)⟩

theorem any_behind?_iff {marker t : Text} :
    (Text.behind? marker t).any hasSegment = true ↔
      ∃ rest, t = marker ++ rest ∧ hasSegment rest = true := by
  constructor
  · intro h
    obtain ⟨rest, hbehind, hrest⟩ := (Option.any_eq_true ..).mp h
    exact ⟨rest, Text.eq_of_behind? hbehind, hrest⟩
  · rintro ⟨rest, rfl, hrest⟩
    rwa [Text.behind?_append]

theorem isAppended_cons (marker : Text) (c : Char) (r : Text) : isAppended marker (c :: r) =
    ((Text.behind? marker (c :: r)).any hasSegment || isAppended marker r) := by
  rw [isAppended]
  cases Text.behind? marker (c :: r) <;> rfl

/-- Any place of the marker will do, if a segment stands behind it. -/
theorem isAppended_iff {marker name : Text} : isAppended marker name = true ↔
    ∃ lead rest, name = lead ++ (marker ++ rest) ∧ hasSegment rest = true := by
  induction name with
  | nil =>
      refine ⟨nofun, ?_⟩
      rintro ⟨lead, rest, hname, hrest⟩
      simp only [List.nil_eq, List.append_eq_nil_iff] at hname
      rw [hname.2.2] at hrest
      cases hrest
  | cons c r ih =>
      rw [isAppended_cons, Bool.or_eq_true, any_behind?_iff, ih]
      constructor
      · rintro (⟨rest, hname, hrest⟩ | ⟨lead, rest, rfl, hrest⟩)
        · exact ⟨[], rest, hname, hrest⟩
        · exact ⟨c :: lead, rest, rfl, hrest⟩
      · rintro ⟨_ | ⟨d, lead⟩, rest, hname, hrest⟩
        · exact Or.inl ⟨rest, hname, hrest⟩
        · exact Or.inr ⟨lead, rest, (List.cons.inj hname).2, hrest⟩

end Vocabulary

/-! ## What options ask for -/

namespace Options

/-- The text starts with a pseudo-class and a colon. -/
def Carries (o : Options) (t : Text) : Prop := ∃ s ∈ o.pseudos, s ++ [':'] <+: t

instance (o : Options) (t : Text) : Decidable (o.Carries t) :=
  inferInstanceAs (Decidable (∃ s ∈ o.pseudos, s ++ [':'] <+: t))

/-- Behind some place of the marker stands, on the same line, a colon with a character behind
it. -/
def Appends (o : Options) (name : Text) : Prop :=
  ∃ before between c behind, name = before ++ (o.marker ++ (between ++ ':' :: c :: behind)) ∧
    '\n' ∉ between ∧ c ≠ '\n'

theorem isAppended_marker_iff {o : Options} {name : Text} :
    Vocabulary.isAppended o.marker name = true ↔ o.Appends name := by
  simp only [Vocabulary.isAppended_iff, Vocabulary.hasSegment_iff, Appends]
  constructor
  · rintro ⟨before, _, rfl, between, c, behind, rfl, h⟩
    exact ⟨before, between, c, behind, rfl, h⟩
  · rintro ⟨before, between, c, behind, rfl, h⟩
    exact ⟨before, _, rfl, between, c, behind, rfl, h⟩

instance (o : Options) (name : Text) : Decidable (o.Appends name) :=
  decidable_of_iff _ isAppended_marker_iff

/-- The facets of names, of occurrences and of values are told by their literal text. -/
structure LiteralFacets (o : Options) (ofName : Text → Facets)
    (ofOccurrence : Text → Text → Facets) (ofValue : Text → Facets) : Prop where
  name : ∀ name, ofName name =
    if o.marker <+: name then { marked := true }
    else if o.Carries name then { pseudo := true }
    else .none
  occurrence : ∀ name value, ofOccurrence name value =
    { appended := decide (o.Appends name), listed := decide (' ' ∈ value) }
  value : ∀ value, ofValue value = if o.Carries value then { valuePseudo := true } else .none

variable {o o' : Options} {ofName ofName' : Text → Facets}
  {ofOccurrence ofOccurrence' : Text → Text → Facets} {ofValue ofValue' : Text → Facets}

/-- **Literal text tells facets in one way only,** and order and repetition of the pseudo-classes
say nothing. -/
theorem LiteralFacets.unique (hmarker : o'.marker = o.marker)
    (hpseudos : ∀ s, s ∈ o'.pseudos ↔ s ∈ o.pseudos)
    (h' : o'.LiteralFacets ofName' ofOccurrence' ofValue')
    (h : o.LiteralFacets ofName ofOccurrence ofValue) :
    ofName' = ofName ∧ ofOccurrence' = ofOccurrence ∧ ofValue' = ofValue := by
  have hcarries : ∀ t, o'.Carries t ↔ o.Carries t := by
    intro t
    simp only [Carries, hpseudos]
  have happends : ∀ name, o'.Appends name ↔ o.Appends name := by
    intro name
    simp only [Appends, hmarker]
  refine ⟨funext fun t => ?_, funext₂ fun name value => ?_, funext fun t => ?_⟩
  · simp only [h'.name, h.name, hmarker, hcarries]
  · simp only [h'.occurrence, h.occurrence, happends]
  · simp only [h'.value, h.value, hcarries]

theorem eq_of_vocabulary {v : Vocabulary} (h : o.vocabulary = .ok v) :
    v.marker = o.marker ∧ v.pseudos = o.pseudos := by
  unfold vocabulary at h
  split at h
  · cases h
  · obtain rfl := Except.ok.inj h
    exact ⟨rfl, rfl⟩

theorem exists_vocabulary (h : o.check = .ok ()) : ∃ v, o.vocabulary = .ok v := by
  unfold vocabulary
  split
  · next e he => cases h.symm.trans he
  · exact ⟨_, rfl⟩

theorem literalFacets_vocabulary {v : Vocabulary} (h : o.vocabulary = .ok v) :
    o.LiteralFacets v.nameFacets v.occurrenceFacets v.valueFacets := by
  obtain ⟨hmarker, hpseudos⟩ := eq_of_vocabulary h
  have hcarries : ∀ t, v.startsWithPseudo t = true ↔ o.Carries t := by
    intro t
    simp only [Vocabulary.startsWithPseudo, List.any_eq_true, List.isPrefixOf_iff_prefix, hpseudos,
      Carries]
  constructor
  · intro name
    simp only [Vocabulary.nameFacets, List.isPrefixOf_iff_prefix, hmarker, hcarries]
  · intro name value
    have happended : Vocabulary.isAppended v.marker name = decide (o.Appends name) := by
      rw [hmarker, Bool.eq_iff_iff, isAppended_marker_iff, decide_eq_true_iff]
    have hlisted : value.contains ' ' = decide (' ' ∈ value) := by
      rw [Bool.eq_iff_iff, List.contains_iff_mem, decide_eq_true_iff]
    rw [Vocabulary.occurrenceFacets, happended, hlisted]
  · intro value
    rw [Vocabulary.valueFacets]
    by_cases h : o.Carries value
    · rw [(hcarries value).mpr h, if_pos h]
    · rw [Bool.eq_false_iff.mpr (mt (hcarries value).mp h), if_neg h]
      rfl

end Options

end AttributeCss
