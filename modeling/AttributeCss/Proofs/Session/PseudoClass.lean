/-
The pseudo-class of a rule is the one that was seen.

Whether an entry carries a pseudo-class is decided when it is found, by the
vocabulary; which one it is, when its rule is made, by the first colon, and in
a name only after the marker was taken out.  The two agree: names of
pseudo-classes have no colon, so a text starts with one of them at most, and
taking out the marker leaves the start of a name with a pseudo-class alone.
-/
import AttributeCss.Proofs.Session.Stability
import AttributeCss.Proofs.Stylesheet.Spelling

namespace AttributeCss

namespace Utility

variable {v : Vocabulary}

/-- The text of an entry its pseudo-class is taken from: the value if it carries one, or else the
name. -/
def carrier (e : Entry) : Text := if e.facets.valuePseudo then e.value else e.name

/-- Where the facets of an entry are those of its name and value, it asks for the pseudo-class its
carrier starts with. -/
theorem exists_pseudo_of_facets {e : Entry}
    (hpseudo : e.facets.pseudo = (v.nameFacets e.name).pseudo)
    (hvaluePseudo : e.facets.valuePseudo = v.startsWithPseudo e.value)
    (hcarries : e.facets.pseudo = true ∨ e.facets.valuePseudo = true) :
    ∃ s, v.Leads s (carrier e) ∧ (ofEntry v.marker e).pseudo = some s := by
  cases hvalue : e.facets.valuePseudo with
  | true =>
      obtain ⟨s, hs⟩ := Vocabulary.exists_leads_of_startsWithPseudo (hvaluePseudo ▸ hvalue)
      refine ⟨s, by rwa [carrier, if_pos hvalue], ?_⟩
      simp only [ofEntry, hvalue, takePseudo_of_leads hs, Option.some_or]
  | false =>
      have hname : e.facets.pseudo = true := hcarries.resolve_right (by simp [hvalue])
      obtain ⟨hmarker, s, hs⟩ := Vocabulary.exists_leads_of_nameFacets (hpseudo ▸ hname)
      refine ⟨s, by rwa [carrier, if_neg (by simp [hvalue])], ?_⟩
      simp only [ofEntry, hvalue, hname, takePseudo_of_leads (leads_withoutMarker hmarker hs),
        takePseudo_false, Option.none_or]

theorem pseudo_eq_none {marker : Text} {e : Entry} (hpseudo : e.facets.pseudo = false)
    (hvaluePseudo : e.facets.valuePseudo = false) : (ofEntry marker e).pseudo = none := by
  simp only [ofEntry, hpseudo, hvaluePseudo, takePseudo_false, Option.or_none]

end Utility

namespace Session

/-- **The pseudo-class of a rule is the one that was seen.**  Take any accepted options, any run
that restores nothing, with the library's own reader, and an entry it leaves.  The entry asks for a
pseudo-class just if it was seen to carry one, in its name or its value.  That one is among the
options; the value starts with it and a colon if the value was seen to carry one, and the name does
otherwise; and the text starts with no other. -/
theorem pseudo_of_mem_entries (u : Setup) (hread : u.host.readMarkup = MarkupResult.ofText)
    (ms : List Move) (hms : ∀ m ∈ ms, ¬ m.Restores) (e : Entry)
    (he : e ∈ (run (start u) ms).2.registry.entries) :
    let pseudo := (Utility.ofEntry u.options.marker e).pseudo
    (pseudo.isSome = true ↔ e.facets.pseudo = true ∨ e.facets.valuePseudo = true) ∧
    ∀ s, pseudo = some s → s ∈ u.options.pseudos ∧
      let text := if e.facets.valuePseudo then e.value else e.name
      s ++ [':'] <+: text ∧ ∀ s' ∈ u.options.pseudos, s' ++ [':'] <+: text → s' = s := by
  obtain ⟨hmarker, hpseudos⟩ := Options.eq_of_vocabulary u.accepted
  rw [← hmarker, ← hpseudos]
  obtain ⟨hpseudo, hvaluePseudo, -⟩ := Vocabulary.facets_of_unlisted_eq
    (unlisted_of_get?_run hread hms (Registry.get?_of_mem_entries he))
  intro pseudo
  by_cases hcarries : e.facets.pseudo = true ∨ e.facets.valuePseudo = true
  · obtain ⟨s, hs, heq⟩ := Utility.exists_pseudo_of_facets hpseudo hvaluePseudo hcarries
    have hsome : pseudo = some s := heq
    refine ⟨iff_of_true (by rw [hsome]; rfl) hcarries, ?_⟩
    rw [hsome]
    rintro _ ⟨⟩
    exact ⟨hs.1, hs.2, fun s' hs' hstarts => hs.unique ⟨hs', hstarts⟩⟩
  · obtain ⟨hname, hvalue⟩ := not_or.mp hcarries
    have hnone : pseudo = none :=
      Utility.pseudo_eq_none (Bool.eq_false_iff.mpr hname) (Bool.eq_false_iff.mpr hvalue)
    refine ⟨iff_of_false (by rw [hnone]; nofun) hcarries, ?_⟩
    rw [hnone]
    nofun

/-- One pseudo-class is the start of the other, and the marker stands inside both. -/
theorem pseudo_of_mem_entries_nested :
    let u : Setup := ⟨{ marker := "o", pseudos := ["foc", "focus"] },
      ⟨"o", ["foc", "focus"], by decide, by decide⟩, rfl, {}⟩
    let ms : List Move := [.scan (.source "<template><i focus:o-m='foc:10 5'></i></template>")]
    let e : Entry := ⟨"focus:o-m=foc:10",
      { pseudo := true, valuePseudo := true, appended := true, listed := true }⟩
    let e' : Entry := ⟨"focus:o-m=5", { pseudo := true, appended := true, listed := true }⟩
    (∀ m ∈ ms, ¬ m.Restores) ∧ (run (start u) ms).2.registry.entries = [e, e'] ∧
      (Utility.ofEntry u.options.marker e).pseudo = some "foc" ∧ "foc:".toList <+: e.value ∧
      (Utility.ofEntry u.options.marker e').pseudo = some "focus" ∧
      "focus:".toList <+: e'.name := by
  intro u ms e e'
  have hms : ∀ m ∈ ms, ¬ m.Restores := by simp [ms, Move.Restores]
  have hentries : (run (start u) ms).2.registry.entries = [e, e'] := by decide +kernel
  have hfirst : (Utility.ofEntry u.options.marker e).pseudo = some "foc" := rfl
  have hsecond : (Utility.ofEntry u.options.marker e').pseudo = some "focus" := rfl
  have he := (pseudo_of_mem_entries u rfl ms hms e (by simp [hentries])).2 _ hfirst
  have he' := (pseudo_of_mem_entries u rfl ms hms e' (by simp [hentries])).2 _ hsecond
  exact ⟨hms, hentries, hfirst, he.2.1, hsecond, he'.2.1⟩

end Session

end AttributeCss
