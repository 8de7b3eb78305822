/-
What the token of an entry keeps of its value.

A pseudo-class may be cut off the value, and a segment of the name may be put
behind it; everything else of the value stands in the token.  So where the
rules have something to declare, the value is spelled as they are, but for a
pseudo-class and its colon.

A text starts with one pseudo-class at most (`Vocabulary.Leads`), and that is
the one that is cut off.
-/
import AttributeCss.Proofs.Rule.Alphabet
import AttributeCss.Stylesheet
import AttributeCss.Vocabulary

namespace AttributeCss

/-! ## Pseudo-classes -/

theorem ne_nil_of_isPseudoName {s : Text} (h : isPseudoName s = true) : s ≠ [] := by
  rintro rfl
  cases h

theorem isPseudoNameChar_of_mem {s : Text} (h : isPseudoName s = true) {c : Char} (hc : c ∈ s) :
    isPseudoNameChar c = true := by
  cases s with
  | nil => cases hc
  | cons d r =>
      obtain ⟨hfirst, hrest⟩ := (Bool.and_eq_true ..).mp h
      rcases List.mem_cons.mp hc with rfl | hc
      · simp [isPseudoNameChar, Char.isAlphanum, hfirst]
      · exact List.all_eq_true.mp hrest c hc

theorem colon_notMem_of_isPseudoName {s : Text} (h : isPseudoName s = true) : ':' ∉ s :=
  fun hc => absurd (isPseudoNameChar_of_mem h hc) (by decide)

theorem Vocabulary.startsWithPseudo_iff {v : Vocabulary} {t : Text} :
    v.startsWithPseudo t = true ↔ ∃ s ∈ v.pseudos, ∃ rest, t = s ++ ':' :: rest := by
  simp only [startsWithPseudo, List.any_eq_true, List.isPrefixOf_iff_prefix]
  constructor
  · rintro ⟨s, hs, rest, rfl⟩
    exact ⟨s, hs, rest, by simp⟩
  · rintro ⟨s, hs, rest, rfl⟩
    exact ⟨s, hs, rest, by simp⟩

namespace Vocabulary

/-- The text starts with the pseudo-class and a colon. -/
def Leads (v : Vocabulary) (s t : Text) : Prop := s ∈ v.pseudos ∧ s ++ [':'] <+: t

variable {v : Vocabulary} {s s' t : Text}

theorem leads_append (hs : s ∈ v.pseudos) (rest : Text) : v.Leads s (s ++ ':' :: rest) :=
  ⟨hs, rest, by simp⟩

theorem Leads.exists_rest (h : v.Leads s t) : ∃ rest, t = s ++ ':' :: rest := by
  obtain ⟨-, rest, rfl⟩ := h
  exact ⟨rest, by simp⟩

/-- A text starts with one pseudo-class at most, also where one is the start of another. -/
theorem Leads.unique (h : v.Leads s t) (h' : v.Leads s' t) : s' = s := by
  obtain ⟨rest, rfl⟩ := h.exists_rest
  obtain ⟨rest', heq⟩ := h'.exists_rest
  have hcut := Text.cutFirst_append rest (colon_notMem_of_isPseudoName (v.pseudos_named s h.1))
  have hcut' := Text.cutFirst_append rest' (colon_notMem_of_isPseudoName (v.pseudos_named s' h'.1))
  rw [heq, hcut'] at hcut
  exact (Prod.mk.inj (Option.some.inj hcut)).1

theorem exists_leads_of_startsWithPseudo (h : v.startsWithPseudo t = true) : ∃ s, v.Leads s t := by
  obtain ⟨s, hs, rest, rfl⟩ := startsWithPseudo_iff.mp h
  exact ⟨s, leads_append hs rest⟩

theorem exists_leads_of_nameFacets {name : Text} (h : (v.nameFacets name).pseudo = true) :
    ¬ v.marker <+: name ∧ ∃ s, v.Leads s name := by
  unfold nameFacets at h
  split at h
  · cases h
  · next hmarker =>
      split at h
      · next hstarts =>
          exact ⟨fun hprefix => hmarker (List.isPrefixOf_iff_prefix.mpr hprefix),
            exists_leads_of_startsWithPseudo hstarts⟩
      · cases h

end Vocabulary

/-! ## Tokens -/

namespace Utility

theorem takePseudo_false (t : Text) : takePseudo false t = (none, t) := rfl

theorem takePseudo_of_isPseudoName {s : Text} (h : isPseudoName s = true) (rest : Text) :
    takePseudo true (s ++ ':' :: rest) = (some s, rest) := by
  have hcut : Text.cutFirst ':' (s ++ ':' :: rest) = some (s, rest) :=
    Text.cutFirst_append rest (colon_notMem_of_isPseudoName h)
  have hpseudo : cutPseudo (s ++ ':' :: rest) = some (s, rest) :=
    Option.filter_eq_some_iff.mpr ⟨hcut, by simpa using ne_nil_of_isPseudoName h⟩
  simp [takePseudo, hpseudo]

/-- What is cut off a text that carries a pseudo-class is the one it starts with. -/
theorem takePseudo_of_leads {v : Vocabulary} {s t : Text} (h : v.Leads s t) :
    (takePseudo true t).1 = some s := by
  obtain ⟨rest, rfl⟩ := h.exists_rest
  rw [takePseudo_of_isPseudoName (v.pseudos_named s h.1)]

theorem leads_withoutMarker {v : Vocabulary} {name s : Text} (hmarker : ¬ v.marker <+: name)
    (h : v.Leads s name) : v.Leads s (withoutMarker v.marker name) := by
  obtain ⟨rest, rfl⟩ := h.exists_rest
  have hcut : Text.cutFirst ':' (s ++ ':' :: rest) = some (s, rest) :=
    Text.cutFirst_append rest (colon_notMem_of_isPseudoName (v.pseudos_named s h.1))
  rw [withoutMarker, Text.behind?_eq_none hmarker]
  simp only [hcut]
  split
  · exact Vocabulary.leads_append h.1 _
  · exact h

/-- A text that carries a pseudo-class loses it and its colon, and nothing else. -/
theorem takePseudo_spec {v : Vocabulary} {carries : Bool} {t : Text}
    (h : carries = true → v.startsWithPseudo t = true) :
    (∀ s ∈ (takePseudo carries t).1, s ∈ v.pseudos) ∧
      ∀ c ∈ t, c ∈ (takePseudo carries t).2 ∨ isPseudoNameChar c = true ∨ c = ':' := by
  cases carries with
  | false => exact ⟨by simp [takePseudo_false], fun c hc => Or.inl hc⟩
  | true =>
      obtain ⟨s, hs, rest, rfl⟩ := Vocabulary.startsWithPseudo_iff.mp (h rfl)
      have hnamed : isPseudoName s = true := v.pseudos_named s hs
      rw [takePseudo_of_isPseudoName hnamed]
      refine ⟨by simpa using hs, fun c hc => ?_⟩
      rcases List.mem_append.mp hc with hc | hc
      · exact Or.inr (Or.inl (isPseudoNameChar_of_mem hnamed hc))
      · rcases List.mem_cons.mp hc with rfl | hc
        · exact Or.inr (Or.inr rfl)
        · exact Or.inl hc

theorem mem_hyphenated {name value : Text} {c : Char} (h : c ∈ value) :
    c ∈ hyphenated name value := by
  unfold hyphenated
  split
  · exact List.mem_append_right _ (List.mem_cons_of_mem _ h)
  · exact List.mem_append_right _ h

theorem mem_moveSegment {appended : Bool} {name value : Text} {c : Char} (h : c ∈ value) :
    c ∈ (moveSegment appended name value).2 := by
  unfold moveSegment
  split
  · exact List.mem_append_left _ h
  · exact h

theorem mem_token {marker : Text} {e : Entry} {c : Char}
    (h : c ∈ (takePseudo e.facets.valuePseudo e.value).2) : c ∈ (ofEntry marker e).token :=
  mem_hyphenated (mem_moveSegment h)

/-- A character of the value stands in the token, or it belongs to the pseudo-class of the value. -/
theorem mem_token_or_pseudo {v : Vocabulary} (marker : Text) {e : Entry}
    (hpseudo : e.facets.valuePseudo = true → v.startsWithPseudo e.value = true) {c : Char}
    (hc : c ∈ e.value) :
    c ∈ (ofEntry marker e).token ∨ isPseudoNameChar c = true ∨ c = ':' := by
  rcases (takePseudo_spec hpseudo).2 c hc with hc | hc
  · exact Or.inl (mem_token hc)
  · exact Or.inr hc

end Utility

namespace Entry

theorem declarations_of_rule {marker : Text} {table : RuleTable} {e : Entry}
    (h : e.rule marker table ≠ []) :
    (table.apply (Utility.ofEntry marker e).token).declarations.isEmpty = false := by
  cases hempty : (table.apply (Utility.ofEntry marker e).token).declarations.isEmpty with
  | false => rfl
  | true => exact absurd (by simp [rule, hempty]) h

theorem not_separates_of_rule {v : Vocabulary} {marker : Text} {e : Entry}
    (hpseudo : e.facets.valuePseudo = true → v.startsWithPseudo e.value = true)
    (h : e.rule marker Rule.builtin ≠ []) : ∀ c ∈ e.value, Text.separates c = false := by
  intro c hc
  rcases Utility.mem_token_or_pseudo marker hpseudo hc with htoken | hname | rfl
  · exact Rule.not_separates_of_declarations (declarations_of_rule h) c htoken
  · exact Text.not_separates_of (by decide) hname
  · decide

end Entry

end AttributeCss
