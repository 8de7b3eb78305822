/-
The facets of an entry, as its key settles them.

Under scans an entry has exactly the facets its name and its value have by
themselves, whatever they were found with, and so it is marked or has a
pseudo-class in its name, and never both.  One facet is a matter of the run:
an entry is listed once its value was found among others for its name, and not
before.
-/
import AttributeCss.Proofs.Session.Selection
import AttributeCss.Proofs.Session.Stability

namespace AttributeCss

namespace Vocabulary

theorem ownFacets_eq (v : Vocabulary) (name value : Text) :
    v.ownFacets name value = v.nameFacets name ∪
      { appended := (v.occurrenceFacets name value).appended } ∪ v.valueFacets value := by
  have hname : (v.nameFacets name).unlisted = v.nameFacets name := by
    unfold nameFacets
    split_ifs <;> rfl
  rw [ownFacets, Facets.unlisted_union, Facets.unlisted_union, hname]
  rfl

/-- The name of a declaration is marked or has a pseudo-class, and never both. -/
theorem marked_ne_pseudo {v : Vocabulary} {name : Text}
    (h : (v.nameFacets name).isDeclaration = true) :
    (v.nameFacets name).marked ≠ (v.nameFacets name).pseudo := by
  unfold nameFacets at h ⊢
  split at h
  · next hmarker =>
      rw [if_pos hmarker]
      decide
  · next hmarker =>
      split at h
      · next hpseudo =>
          rw [if_neg hmarker, if_pos hpseudo]
          decide
      · cases h

end Vocabulary

theorem Occurrence.isDeclaration_of_of? {v : Vocabulary} {name value : Text} {o : Occurrence}
    (h : of? v name value = some o) : (v.nameFacets name).isDeclaration = true := by
  unfold of? at h
  dsimp only at h
  split at h
  · assumption
  · cases h

theorem Registry.space_notMem_of_mem_valuesOf {value w : Text} {f : Facets}
    (hf : f.listed = value.contains ' ') (h : w ∈ valuesOf value f) : ' ' ∉ w := by
  unfold valuesOf at h
  split at h
  · exact Text.space_notMem_of_mem_words h
  · next hlisted =>
      rw [List.mem_singleton.mp h]
      simpa [hf] using hlisted

namespace Session

/-- Every entry of a run that restores nothing is that of an occurrence found in it, under a name
without equals sign, for one of the values the occurrence is counted for. -/
theorem exists_found_of_mem_entries {u : Setup} (hread : u.host.readMarkup = MarkupResult.ofText)
    {ms : List Move} (hms : ∀ m ∈ ms, ¬ m.Restores) {e : Entry}
    (he : e ∈ (run (start u) ms).2.registry.entries) :
    e.key = Entry.keyOf e.name e.value ∧ '=' ∉ e.name ∧
      ∃ o ∈ ms.flatMap u.foundBy, o.name = e.name ∧
        e.value ∈ Registry.valuesOf o.value o.facets := by
  have hget := Registry.get?_of_mem_entries he
  rw [get?_run hms] at hget
  split at hget
  · next hk =>
      obtain ⟨⟨k, f⟩, hmem, hkey⟩ := List.mem_map.mp hk
      obtain ⟨o, ho, hname, w, hw, rfl, -⟩ := occurrence_of_mem_contributed hread hmem
      have hsplit : e.split = (o.name, w) := by
        rw [Entry.split, ← hkey]
        exact Entry.splitKey_keyOf w hname
      have hn : e.name = o.name := congrArg Prod.fst hsplit
      have hv : e.value = w := congrArg Prod.snd hsplit
      rw [hn, hv]
      exact ⟨hkey.symm, hname, o, ho, rfl, hw⟩
  · cases hget

/-- An entry is listed just if its value was found among others for its name. -/
theorem listed_iff_found {u : Setup} (hread : u.host.readMarkup = MarkupResult.ofText)
    {ms : List Move} (hms : ∀ m ∈ ms, ¬ m.Restores) {name w : Text} (hname : '=' ∉ name)
    {f : Facets} (hf : (run (start u) ms).2.registry.get? (Entry.keyOf name w) = some f) :
    f.listed = true ↔
      ∃ o ∈ ms.flatMap u.foundBy, o.name = name ∧ ' ' ∈ o.value ∧ w ∈ Text.words o.value := by
  have hlisted {o : Occurrence} (ho : o ∈ ms.flatMap u.foundBy) :
      o.facets.listed = true ↔ ' ' ∈ o.value := by
    rw [(Occurrence.facets_of_of? (of?_of_mem_found ho)).1, List.contains_iff_mem]
  constructor
  · intro hfacet
    obtain ⟨o, ho, honame, hw, hfrom⟩ := exists_found_of_facet Facets.listed rfl (fun _ _ => rfl)
      hread hms hname hf hfacet
    -- a value by itself says nothing of others
    have hoccurrence : o.facets.listed = true := hfrom.resolve_right Bool.false_ne_true
    rw [Registry.valuesOf, if_pos hoccurrence] at hw
    exact ⟨o, ho, honame, (hlisted ho).mp hoccurrence, hw⟩
  · rintro ⟨o, ho, rfl, hspace, hw⟩
    have hfacet := (hlisted ho).mpr hspace
    have hvalue : w ∈ Registry.valuesOf o.value o.facets := by
      rw [Registry.valuesOf, if_pos hfacet]
      exact hw
    obtain ⟨g, hg, himp⟩ := get?_run_of_found hms ho hvalue
    obtain rfl : g = f := Option.some.inj (hg.symm.trans hf)
    exact himp hfacet

/-- **A key settles its facets.**  Take any run that restores nothing, with the library's own reader,
and an entry it leaves.  The entry has the facets its name says, has an appended segment if its name
says so, has a pseudo-class in its value if its value does, and no others, but that it may be
listed; it is marked or has a pseudo-class in its name, and not both; its value holds no space; and
it is listed just if some occurrence found under its name had a value with a space in it and this
value among the words. -/
theorem facets_of_mem_entries (u : Setup) (hread : u.host.readMarkup = MarkupResult.ofText)
    (ms : List Move) (hms : ∀ m ∈ ms, ¬ m.Restores) (e : Entry)
    (he : e ∈ (run (start u) ms).2.registry.entries) :
    let v := u.vocabulary
    e.key = Entry.keyOf e.name e.value ∧ '=' ∉ e.name ∧
    e.facets.unlisted = v.nameFacets e.name ∪
      { appended := (v.occurrenceFacets e.name e.value).appended } ∪ v.valueFacets e.value ∧
    e.facets.marked ≠ e.facets.pseudo ∧ ' ' ∉ e.value ∧
    (e.facets.listed = true ↔ ∃ o ∈ ms.flatMap u.foundBy,
      o.name = e.name ∧ ' ' ∈ o.value ∧ e.value ∈ Text.words o.value) := by
  intro v
  obtain ⟨hkey, hname, o, ho, honame, hvalue⟩ := exists_found_of_mem_entries hread hms he
  have hof := of?_of_mem_found ho
  have hget := Registry.get?_of_mem_entries he
  have hsettled : e.facets.unlisted = v.ownFacets e.name e.value :=
    unlisted_of_get?_run hread hms hget
  rw [Vocabulary.ownFacets_eq] at hsettled
  refine ⟨hkey, hname, hsettled, ?_, ?_, ?_⟩
  · have hmarked : e.facets.marked = ((v.nameFacets e.name).marked || false || false) :=
      congrArg Facets.marked hsettled
    have hpseudo : e.facets.pseudo = ((v.nameFacets e.name).pseudo || false || false) :=
      congrArg Facets.pseudo hsettled
    simp only [Bool.or_false] at hmarked hpseudo
    rw [hmarked, hpseudo, ← honame]
    exact Vocabulary.marked_ne_pseudo (Occurrence.isDeclaration_of_of? hof)
  · exact Registry.space_notMem_of_mem_valuesOf (Occurrence.facets_of_of? hof).1 hvalue
  · rw [hkey] at hget
    exact listed_iff_found hread hms hname hget

/-- A value that stood alone is found among others by a later scan, which lists it; one under another
name is not listed by that. -/
theorem facets_of_mem_entries_listed_later :
    let u := Setup.standard {}
    let ms : List Move := [.scan (.source "<template><i xe='hover:m-10'></i></template>"),
      .render false,
      .scan (.source "<template><i xe='p-4 hover:m-10' hover:xe:5='m'></i></template>")]
    let e : Entry :=
      ⟨"xe=hover:m-10", { marked := true, valuePseudo := true, listed := true }⟩
    let e' : Entry := ⟨"hover:xe:5=m", { pseudo := true, appended := true }⟩
    (∀ m ∈ ms, ¬ m.Restores) ∧
      (run (start u) ms).2.registry.entries =
        [e, ⟨"xe=p-4", { marked := true, listed := true }⟩, e'] ∧
      (∃ o ∈ ms.flatMap u.foundBy,
        o.name = e.name ∧ ' ' ∈ o.value ∧ e.value ∈ Text.words o.value) ∧
      ¬ ∃ o ∈ ms.flatMap u.foundBy,
        o.name = e'.name ∧ ' ' ∈ o.value ∧ e'.value ∈ Text.words o.value := by
  intro u ms e e'
  have hms : ∀ m ∈ ms, ¬ m.Restores := by simp [ms, Move.Restores]
  have hentries : (run (start u) ms).2.registry.entries =
      [e, ⟨"xe=p-4", { marked := true, listed := true }⟩, e'] := by
    decide +kernel
  have he := facets_of_mem_entries u rfl ms hms e (by simp [hentries])
  have he' := facets_of_mem_entries u rfl ms hms e' (by simp [hentries])
  refine ⟨hms, hentries, he.2.2.2.2.2.mp rfl, ?_⟩
  intro hfound
  exact absurd (he'.2.2.2.2.2.mpr hfound) (by decide)

end Session

end AttributeCss
