/-
The keys of what is found in a template.

A template that was read is in normal form, and in such a template no name
holds an equals sign.  That is all a key needs: the first equals sign in it
ends the name, so each entry that comes from the template splits into the name
and the value it was made of, and two of them have one key only if they have
one name and one value.
-/
import AttributeCss.Proofs.Markup.Normal
import AttributeCss.Proofs.Session.Found

namespace AttributeCss

open Markup

theorem eq_ok_of_toOption {ε α : Type} {x : Except ε α} {a : α} (h : x.toOption = some a) :
    x = .ok a := by
  cases x with
  | error e => cases h
  | ok b => exact congrArg Except.ok (Option.some.inj h)

/-! ## The keys there are -/

theorem Occurrence.mem_keys_contributions {v : Vocabulary} {found : List Occurrence} {k : Text} :
    k ∈ (found.flatMap (contributions v)).map Prod.fst ↔
      ∃ o ∈ found, ∃ w ∈ Registry.valuesOf o.value o.facets, k = Entry.keyOf o.name w := by
  constructor
  · intro hk
    obtain ⟨⟨k, f⟩, hmem, rfl⟩ := List.mem_map.mp hk
    obtain ⟨o, ho, hcontributed⟩ := List.mem_flatMap.mp hmem
    obtain ⟨w, hw, hkey, -⟩ := mem_contributions.mp hcontributed
    exact ⟨o, ho, w, hw, hkey⟩
  · rintro ⟨o, ho, w, hw, rfl⟩
    have hcontributed : (Entry.keyOf o.name w, o.facets ∪ v.valueFacets w) ∈ o.contributions v :=
      mem_contributions.mpr ⟨w, hw, rfl, rfl⟩
    exact List.mem_map.mpr ⟨_, List.mem_flatMap.mpr ⟨o, ho, hcontributed⟩, rfl⟩

namespace Session

theorem mem_keys_foldl_mergeOne {found : List Occurrence} {before : Registry} {k : Text} :
    k ∈ (found.foldl mergeOne (0, before)).2.seen.keys ↔ k ∈ before.seen.keys ∨
      ∃ o ∈ found, ∃ w ∈ Registry.valuesOf o.value o.facets, k = Entry.keyOf o.name w := by
  rw [(seen_foldl_mergeOne found (0, before)).2, Registry.keys_load, List.mem_eraseDups,
    List.mem_append, Occurrence.mem_keys_contributions]

theorem exists_entry_of_mem_keys {r : Registry} {k : Text} (h : k ∈ r.seen.keys) :
    ∃ e ∈ r.entries, e.key = k := by
  rw [← Registry.map_key_entries] at h
  exact List.mem_map.mp h

/-! ## The main statement -/

/-- **What was read is in normal form, and its entries can be told from their keys.**  Whatever the
source was: the template is in normal form, and its attributes are named as markup names them.
Merged into any registry, under any vocabulary, an entry that was not there before splits into the
name of an occurrence and one of the values the occurrence is counted for, each of these values has
its entry, and different names and values have different keys. -/
theorem read_normal {source : Text} {nodes : List Node} (h : read source = .ok nodes) :
    Normal nodes ∧ (∀ n ∈ nodes, n.Every Attribute.Named) ∧
    ∀ (v : Vocabulary) (before : Registry),
      let found := Occurrence.ofNodes v nodes
      let after := (found.foldl mergeOne (0, before)).2
      (∀ e ∈ after.entries, e.key ∈ before.seen.keys ∨
        ∃ o ∈ found, ∃ w ∈ Registry.valuesOf o.value o.facets, e.split = (o.name, w)) ∧
      (∀ o ∈ found, ∀ w ∈ Registry.valuesOf o.value o.facets,
        ∃ e ∈ after.entries, e.key = Entry.keyOf o.name w ∧ e.split = (o.name, w)) ∧
      ∀ o ∈ found, ∀ o' ∈ found, ∀ w w', (o.name, w) ≠ (o'.name, w') →
        Entry.keyOf o.name w ≠ Entry.keyOf o'.name w' := by
  refine ⟨normal_of_read h, ?_, ?_⟩
  · exact fun n hn => (written_of_read h n hn).imp fun _ => named_of_written
  intro v before found after
  have hsplit : ∀ o ∈ found, ∀ w, Entry.splitKey (Entry.keyOf o.name w) = (o.name, w) :=
    fun o ho w => Entry.splitKey_keyOf w (Occurrence.notMem_name_of_read h ho)
  refine ⟨?_, ?_, ?_⟩
  · intro e he
    have hkey : e.key ∈ after.seen.keys := by
      rw [← Registry.map_key_entries]
      exact List.mem_map_of_mem he
    refine (mem_keys_foldl_mergeOne.mp hkey).imp_right ?_
    rintro ⟨o, ho, w, hw, hkey⟩
    exact ⟨o, ho, w, hw, by rw [Entry.split, hkey, hsplit o ho w]⟩
  · intro o ho w hw
    obtain ⟨e, he, hkey⟩ := exists_entry_of_mem_keys
      (mem_keys_foldl_mergeOne.mpr (Or.inr ⟨o, ho, w, hw, rfl⟩))
    exact ⟨e, he, hkey, by rw [Entry.split, hkey, hsplit o ho w]⟩
  · intro o ho o' ho' w w' hne hkey
    refine hne ?_
    rw [← hsplit o ho w, hkey, hsplit o' ho' w']

/-- Texts around a list, in which a loop under a condition and its else branch, behind a comment,
have become one chain. -/
theorem read_normal_chain :
    let source : Text := "<ul>one <li v-if='a' v-for='x in xs' xe-m='1 2'></li><!-- c -->" ++
      "<li v-else :xe-p.sync=\"b ? '3' : '4'\"></li> two</ul>"
    let v := (Setup.standard {}).vocabulary
    ∃ nodes, read source = .ok nodes ∧ Normal nodes ∧ (∀ n ∈ nodes, n.Every Attribute.Named) ∧
      ∃ e ∈ ((Occurrence.ofNodes v nodes).foldl mergeOne (0, .empty v)).2.entries,
        e.split = ("xe-p".toList, "4".toList) := by
  intro source v
  let listed : Facets := { marked := true, listed := true }
  have hfound : (read source).toOption.map (Occurrence.ofNodes v) =
      some [⟨"xe-m", "1 2", listed⟩, ⟨"xe-p", "3 4", listed⟩] := by decide +kernel
  obtain ⟨nodes, hnodes, hoccurrences⟩ := Option.map_eq_some_iff.mp hfound
  have hread := eq_ok_of_toOption hnodes
  obtain ⟨hnormal, hnamed, hkeyed⟩ := read_normal hread
  obtain ⟨-, hsplit, -⟩ := hkeyed v (.empty v)
  have ho : ⟨"xe-p", "3 4", listed⟩ ∈ Occurrence.ofNodes v nodes := by
    rw [hoccurrences]
    simp
  obtain ⟨e, he, -, hparts⟩ := hsplit _ ho "4" (by decide)
  exact ⟨nodes, hread, hnormal, hnamed, e, he, hparts⟩

/-- Texts may be siblings: what stands between these two is a comment. -/
theorem read_texts_around_comment :
    ∃ nodes, read "x<!-- y -->z" = .ok nodes ∧ ¬ nodes.Pairwise Node.Parted := by
  have hread : (read "x<!-- y -->z").toOption.map (List.map Node.isText) =
      some [true, false, true] := by decide +kernel
  obtain ⟨nodes, hnodes, htexts⟩ := Option.map_eq_some_iff.mp hread
  refine ⟨nodes, eq_ok_of_toOption hnodes, fun hparted => ?_⟩
  have hpairs : (nodes.map Node.isText).Pairwise fun a b => a = true → b = false :=
    List.pairwise_map.mpr hparted
  rw [htexts] at hpairs
  exact absurd hpairs (by decide)

end Session

end AttributeCss
