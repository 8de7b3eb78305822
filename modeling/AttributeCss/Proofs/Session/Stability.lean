/-
A stylesheet only grows.

Under scans the facets of an entry are settled by its key, all but one: it can
come to be listed.  So at any later point of a run the entries are those of an
earlier point, some of them listed meanwhile, and then new ones; and the rules
are those of the earlier stylesheet, some with `~=` for `=`, and then the rules
of the new entries.
-/
import Mathlib.Data.List.Forall2
import AttributeCss.Proofs.Session.Found
import AttributeCss.Proofs.Stylesheet.Widened

namespace AttributeCss

open Markup

/-! ## Facets a key settles -/

/-- What a name and a value say wherever they are found together. -/
def Vocabulary.ownFacets (v : Vocabulary) (name value : Text) : Facets :=
  (v.nameFacets name ∪ v.occurrenceFacets name value ∪ v.valueFacets value).unlisted

/-- The facets of a declaration that decide what it asks for, where its name and value settle
them. -/
theorem Vocabulary.facets_of_unlisted_eq {v : Vocabulary} {name value : Text} {f : Facets}
    (h : f.unlisted = v.ownFacets name value) :
    f.pseudo = (v.nameFacets name).pseudo ∧ f.valuePseudo = v.startsWithPseudo value ∧
      f.appended = isAppended v.marker name := by
  have hname : (v.nameFacets name).valuePseudo = false ∧ (v.nameFacets name).appended = false := by
    unfold nameFacets
    split_ifs <;> exact ⟨rfl, rfl⟩
  obtain ⟨-, hpseudo, hvaluePseudo, happended, -⟩ := Facets.mk.inj h
  simp only [Facets.union_def, Facets.join, occurrenceFacets, valueFacets, hname, Bool.or_false,
    Bool.false_or] at hpseudo hvaluePseudo happended
  exact ⟨hpseudo, hvaluePseudo, happended⟩

namespace Snapshot

/-- Facets that are the same in all contributions for a key, but for being listed, are so when
joined. -/
theorem unlisted_facetsOf {k : Text} {g : Facets} {cs : Snapshot} (hk : k ∈ cs.map Prod.fst)
    (hcs : ∀ f, (k, f) ∈ cs → f.unlisted = g) : (cs.facetsOf k).unlisted = g := by
  refine facetsOf_induction (P := fun f => f.unlisted = g) (fun f f' hf hf' => ?_) hk hcs
  rw [Facets.unlisted_union, hf, hf', Facets.union_self]

end Snapshot

namespace Registry

/-- Where no key is moved or dropped, the entries go on in place, with those of new keys behind
them. -/
theorem exists_append_of_prefix {r r' : Registry} (hkeys : r.seen.keys <+: r'.seen.keys)
    {R : Entry → Entry → Prop} (hR : ∀ e e', e'.key = e.key → r.get? e.key = some e.facets →
      r'.get? e.key = some e'.facets → R e e') :
    ∃ kept added, r'.entries = kept ++ added ∧ List.Forall₂ R r.entries kept ∧
      ∀ e ∈ added, e.key ∉ r.seen.keys := by
  let n := r.entries.length
  have hlength : n = r.seen.keys.length := by rw [← map_key_entries, List.length_map]
  have hkept : (r'.entries.take n).map Entry.key = r.entries.map Entry.key := by
    rw [List.map_take, map_key_entries, map_key_entries, hlength]
    exact (List.prefix_iff_eq_take.mp hkeys).symm
  refine ⟨r'.entries.take n, r'.entries.drop n, (List.take_append_drop n _).symm, ?_, ?_⟩
  · have hpaired : List.Forall₂ (fun e e' => e'.key = e.key) r.entries (r'.entries.take n) := by
      have hsame : List.Forall₂ (fun k k' => k' = k) (r.entries.map Entry.key)
          ((r'.entries.take n).map Entry.key) := by
        rw [hkept]
        exact List.forall₂_same.mpr fun _ _ => rfl
      exact List.forall₂_map_left_iff.mp (List.forall₂_map_right_iff.mp hsame)
    obtain ⟨hlengths, hzip⟩ := List.forall₂_iff_zip.mp hpaired
    refine List.forall₂_iff_zip.mpr ⟨hlengths, ?_⟩
    intro e e' hmem
    obtain ⟨he, he'⟩ := List.of_mem_zip hmem
    have hkey : e'.key = e.key := hzip hmem
    exact hR e e' hkey (get?_of_mem_entries he)
      (hkey ▸ get?_of_mem_entries (List.mem_of_mem_take he'))
  · intro e he hmem
    have hnodup : (r'.entries.map Entry.key).Nodup := by
      rw [map_key_entries]
      exact r'.seen.nodup_keys
    rw [← List.take_append_drop n r'.entries, List.map_append, hkept, map_key_entries] at hnodup
    exact List.disjoint_of_nodup_append hnodup hmem (List.mem_map_of_mem he)

end Registry

namespace Session

/-- Under scans the facets of an entry are those of its name and value, and it may be listed. -/
theorem unlisted_of_get?_run {u : Setup} (hread : u.host.readMarkup = MarkupResult.ofText)
    {ms : List Move} (hms : ∀ m ∈ ms, ¬ m.Restores) {k : Text} {f : Facets}
    (hf : (run (start u) ms).2.registry.get? k = some f) :
    f.unlisted = u.vocabulary.ownFacets (Entry.splitKey k).1 (Entry.splitKey k).2 := by
  rw [get?_run hms] at hf
  split at hf
  · next hk =>
      obtain rfl := Option.some.inj hf
      apply Snapshot.unlisted_facetsOf hk
      intro g hg
      obtain ⟨o, ho, hname, w, -, rfl, rfl⟩ := occurrence_of_mem_contributed hread hg
      rw [Entry.splitKey_keyOf w hname, Occurrence.eq_of_of? (of?_of_mem_found ho)]
      rfl
  · cases hf

theorem listed_of_get?_run {u : Setup} {ms more : List Move}
    (hms : ∀ m ∈ ms ++ more, ¬ m.Restores) {k : Text} {f f' : Facets}
    (hf : (run (start u) ms).2.registry.get? k = some f)
    (hf' : (run (start u) (ms ++ more)).2.registry.get? k = some f') (hlisted : f.listed = true) :
    f'.listed = true := by
  have hiff : ∀ cs : Snapshot, (cs.facetsOf k).listed = true ↔ ∃ g, (k, g) ∈ cs ∧ g.listed = true :=
    fun cs => Snapshot.facetsOf_eq_true_iff Facets.listed rfl fun _ _ => rfl
  rw [get?_run fun m hm => hms m (List.mem_append_left _ hm)] at hf
  rw [get?_run hms] at hf'
  split at hf
  · obtain rfl := Option.some.inj hf
    obtain ⟨g, hmem, hg⟩ := (hiff _).mp hlisted
    have hmem' : (k, g) ∈ u.contributed (ms ++ more) := by
      rw [Setup.contributed, List.flatMap_append, List.flatMap_append]
      exact List.mem_append_left _ hmem
    rw [if_pos (List.mem_map_of_mem hmem')] at hf'
    obtain rfl := Option.some.inj hf'
    exact (hiff _).mpr ⟨g, hmem', hg⟩
  · cases hf

theorem keys_prefix_run {u : Setup} {ms more : List Move}
    (hmore : ∀ m ∈ more, ¬ m.Restores)
    (hvocabulary : (run (start u) ms).2.registry.vocabulary = u.vocabulary) :
    (run (start u) ms).2.registry.seen.keys <+:
      (run (start u) (ms ++ more)).2.registry.seen.keys := by
  have hsetup : (run (start u) ms).2.setup = u := setup_run (start u) ms
  have hseen := (registry_moves (hvocabulary.trans (congrArg Setup.vocabulary hsetup).symm)
    hmore).2
  rw [run_append, hseen]
  exact Registry.keys_prefix_load _ _

theorem forced_render_run (u : Setup) (ms : List Move) :
    ((run (start u) ms).2.render true).1 =
      (run (start u) ms).2.registry.entries.flatMap
        (Entry.rule u.vocabulary.marker u.host.rules) := by
  rw [render_force, setup_run]
  rfl

/-- **A stylesheet only grows.**  Take two points of a run that restores nothing.  The entries of the
later one are those of the earlier one in their order, each with its key, its token and its
pseudo-class, and then new ones; and the stylesheet is made of the rules of the earlier point, some
of which have `~=` for `=` behind the attribute name now, and then the rules of the new entries. -/
theorem stylesheet_grows (u : Setup) (hread : u.host.readMarkup = MarkupResult.ofText)
    (ms more : List Move) (hms : ∀ m ∈ ms ++ more, ¬ m.Restores) :
    let marker := u.vocabulary.marker
    let rules := u.host.rules
    let earlier := (run (start u) ms).2
    let later := (run (start u) (ms ++ more)).2
    ∃ kept added,
      later.registry.entries = kept ++ added ∧
      List.Forall₂ (Entry.Becomes marker rules) earlier.registry.entries kept ∧
      (∀ e ∈ added, e.key ∉ earlier.registry.seen.keys) ∧
      (earlier.render true).1 = earlier.registry.entries.flatMap (Entry.rule marker rules) ∧
      (later.render true).1 =
        kept.flatMap (Entry.rule marker rules) ++ added.flatMap (Entry.rule marker rules) := by
  intro marker rules earlier later
  have hbefore : ∀ m ∈ ms, ¬ m.Restores := fun m hm => hms m (List.mem_append_left _ hm)
  have hmore : ∀ m ∈ more, ¬ m.Restores := fun m hm => hms m (List.mem_append_right _ hm)
  have hvocabulary : earlier.registry.vocabulary = u.vocabulary :=
    (registry_moves (s := start u) rfl hbefore).1
  have hbecomes : ∀ e e' : Entry, e'.key = e.key → earlier.registry.get? e.key = some e.facets →
      later.registry.get? e.key = some e'.facets → e.Becomes marker rules e' := by
    intro e e' hkey he he'
    have hsettled := unlisted_of_get?_run hread hbefore he
    have hsettled' := unlisted_of_get?_run hread hms he'
    exact Entry.becomes_of_unlisted_eq hkey (hsettled'.trans hsettled.symm)
      (listed_of_get?_run hms he he')
  obtain ⟨kept, added, hentries, hkept, hadded⟩ :=
    Registry.exists_append_of_prefix (keys_prefix_run hmore hvocabulary) hbecomes
  refine ⟨kept, added, hentries, hkept, hadded, forced_render_run u ms, ?_⟩
  calc (later.render true).1
      = later.registry.entries.flatMap (Entry.rule marker rules) :=
        forced_render_run u (ms ++ more)
    _ = kept.flatMap (Entry.rule marker rules) ++ added.flatMap (Entry.rule marker rules) := by
        rw [hentries, List.flatMap_append]

/-- A value that stood alone is listed by a later scan: its rule stays in front, and has `~=` now. -/
theorem stylesheet_grows_listed_later :
    let u := Setup.standard {}
    let ms : List Move := [.scan (.source "<template><i xe-m='10'></i></template>")]
    let more : List Move := [.render false,
      .scan (.source "<template><i xe-m='20 10'></i></template>")]
    let e : Entry := ⟨"xe-m=10", { marked := true }⟩
    let e' : Entry := ⟨"xe-m=10", { marked := true, listed := true }⟩
    (∀ m ∈ ms ++ more, ¬ m.Restores) ∧
      (run (start u) ms).2.registry.entries = [e] ∧
      (run (start u) (ms ++ more)).2.registry.entries =
        [e', ⟨"xe-m=20", { marked := true, listed := true }⟩] ∧
      e.Becomes "xe" Rule.builtin e' ∧ e'.rule "xe" Rule.builtin ≠ e.rule "xe" Rule.builtin := by
  intro u ms more e e'
  have hms : ∀ m ∈ ms ++ more, ¬ m.Restores := by simp [ms, more, Move.Restores]
  have hearlier : (run (start u) ms).2.registry.entries = [e] := by decide +kernel
  have hlater : (run (start u) (ms ++ more)).2.registry.entries =
      [e', ⟨"xe-m=20", { marked := true, listed := true }⟩] := by
    decide +kernel
  obtain ⟨kept, added, hentries, hkept, -⟩ := stylesheet_grows u rfl ms more hms
  rw [hearlier] at hkept
  obtain ⟨e₁, rest, hbecomes, hrest, rfl⟩ := List.forall₂_cons_left_iff.mp hkept
  rw [hlater] at hentries
  obtain rfl : e' = e₁ := (List.cons.inj hentries).1
  exact ⟨hms, hearlier, hlater, hbecomes, by decide +kernel⟩

end Session

end AttributeCss
