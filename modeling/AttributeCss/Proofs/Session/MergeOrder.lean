/-
Occurrences may be merged in any order.

Scans end in no particular order, so neither are their occurrences merged in
one.  The order in which keys are first seen depends on it, and so does what a
single occurrence adds; but not the facets a key comes to have, how many keys
are added in all, or whether the registry becomes stale.  Facets are joined,
and joining does not know an order; the rest is a matter of the facets before
and after.
-/
import Mathlib.Data.List.Perm.Basic
import AttributeCss.Proofs.Session.Found

namespace AttributeCss

instance : Std.Commutative (fun f g : Facets => f ∪ g) := ⟨Facets.union_comm⟩

instance : Std.Associative (fun f g : Facets => f ∪ g) := ⟨Facets.union_assoc⟩

theorem Snapshot.facetsOf_perm {cs ds : Snapshot} (h : cs.Perm ds) (k : Text) :
    cs.facetsOf k = ds.facetsOf k :=
  ((h.filter _).map _).foldl_eq _

namespace Registry

theorem get?_load_perm (r : Registry) {cs ds : Snapshot} (h : cs.Perm ds) (k : Text) :
    (r.load cs).get? k = (r.load ds).get? k := by
  have hkeys : k ∈ cs.map Prod.fst ↔ k ∈ ds.map Prod.fst := (h.map Prod.fst).mem_iff
  rw [get?_load, get?_load, Snapshot.facetsOf_perm h k]
  simp only [hkeys]

theorem covers_perm {r : Registry} {cs ds : Snapshot} (h : cs.Perm ds) :
    r.Covers cs ↔ r.Covers ds := by
  simp only [Covers, h.mem_iff]

theorem get?_updates_perm (r : Registry) {us us' : List Update} (h : us.Perm us') (k : Text) :
    (r.updates us).get? k = (r.updates us').get? k := by
  rw [get?_congr (seen_updates r us) k, get?_congr (seen_updates r us') k]
  exact get?_load_perm r (h.flatMap_right _) k

/-! ## Registries with the same facets for each key -/

theorem nodup_entries (r : Registry) : r.entries.Nodup := by
  apply List.Nodup.of_map Entry.key
  rw [map_key_entries]
  exact r.seen.nodup_keys

/-- Registries that have the same facets for each key have the same entries, up to order. -/
theorem entries_perm {r r' : Registry} (h : ∀ k, r.get? k = r'.get? k) :
    r.entries.Perm r'.entries := by
  refine (List.perm_ext_iff_of_nodup (nodup_entries r) (nodup_entries r')).mpr ?_
  intro e
  constructor
  · intro he
    exact mem_entries_of_get? ((h e.key).symm.trans (get?_of_mem_entries he))
  · intro he
    exact mem_entries_of_get? ((h e.key).trans (get?_of_mem_entries he))

theorem size_eq_length_entries (r : Registry) : r.size = r.entries.length :=
  (List.length_map _).symm

end Registry

namespace Session

open Registry

/-! ## What merging adds up to -/

theorem size_foldl_mergeOne (found : List Occurrence) (st : Nat × Registry) :
    (found.foldl mergeOne st).2.size + st.1 = st.2.size + (found.foldl mergeOne st).1 := by
  induction found generalizing st with
  | nil => rfl
  | cons o found ih =>
      have hrest := ih (mergeOne st o)
      have hone := size_collect st.2 o.name o.value o.facets
      simp only [mergeOne] at hrest
      simp only [List.foldl_cons, mergeOne]
      omega

/-- Merging raises the flag just when some of what is merged is not covered. -/
theorem stale_foldl_mergeOne (found : List Occurrence) (st : Nat × Registry) :
    (found.foldl mergeOne st).2.stale = true ↔ st.2.stale = true ∨
      ¬ st.2.Covers (found.flatMap (Occurrence.contributions st.2.vocabulary)) := by
  apply stale_iff_not_covers (seen_foldl_mergeOne found st).2
  · exact foldl_eq_self mergeOne_eq_self found st
  · intro hcovers
    rw [foldl_mergeOne_of_covers hcovers]

/-- **Occurrences may be merged in any order.**  Starting from any registry, the same occurrences
in two orders give each key the same facets, add the same number of keys in all, and leave both
registries stale or both fresh; and the stylesheet for one order consists of the rules of the
entries for the other, in some order.  Where entries are restored in between, wherever that is,
each key still comes to have the same facets. -/
theorem merged_in_any_order (r : Registry) :
    (∀ found found' : List Occurrence, found.Perm found' →
      let a := found.foldl mergeOne (0, r)
      let b := found'.foldl mergeOne (0, r)
      (∀ k, a.2.get? k = b.2.get? k) ∧ a.2.stale = b.2.stale ∧ a.1 = b.1 ∧
      ∀ marker table, ∃ rules : List Text,
        rules.Perm (b.2.entries.map (Entry.rule marker table)) ∧
        stylesheet marker table a.2.entries = rules.flatten) ∧
    (∀ us us' : List Update, us.Perm us' →
      ∀ k, (r.updates us).get? k = (r.updates us').get? k) := by
  refine ⟨?_, fun us us' h => get?_updates_perm r h⟩
  intro found found' h a b
  have hcontributed : (found.flatMap (Occurrence.contributions r.vocabulary)).Perm
      (found'.flatMap (Occurrence.contributions r.vocabulary)) := h.flatMap_right _
  have hget : ∀ k, a.2.get? k = b.2.get? k := by
    intro k
    rw [get?_congr (seen_foldl_mergeOne found (0, r)).2 k,
      get?_congr (seen_foldl_mergeOne found' (0, r)).2 k]
    exact get?_load_perm r hcontributed k
  have hentries := entries_perm hget
  refine ⟨hget, ?_, ?_, ?_⟩
  · rw [Bool.eq_iff_iff, stale_foldl_mergeOne, stale_foldl_mergeOne, covers_perm hcontributed]
  · have hsize : a.2.size = b.2.size := by
      rw [size_eq_length_entries, size_eq_length_entries, hentries.length_eq]
    have ha : a.2.size + 0 = r.size + a.1 := size_foldl_mergeOne found (0, r)
    have hb : b.2.size + 0 = r.size + b.1 := size_foldl_mergeOne found' (0, r)
    omega
  · intro marker table
    refine ⟨a.2.entries.map (Entry.rule marker table), hentries.map _, ?_⟩
    rw [stylesheet, List.flatMap_def]

/-- Of two occurrences that share a declaration, the second adds one entry less, whichever it is; the
entries come in another order, and a restored one goes in front if it is restored first. -/
theorem merged_in_any_order_overlapping :
    let r := Registry.empty (Setup.standard {}).vocabulary
    let one : Occurrence := ⟨"xe", "m-10", { marked := true }⟩
    let two : Occurrence := ⟨"xe", "p-4 m-10", { marked := true, listed := true }⟩
    let a := [two, one].foldl mergeOne (0, r)
    let b := [one, two].foldl mergeOne (0, r)
    let found : Update := .collect one.name one.value one.facets
    let restored : Update := .load [("xe=p-4", { marked := true }), ("xe=m-10", { listed := true })]
    (a.2.entries ≠ b.2.entries ∧ a.1 = b.1 ∧ a.2.get? "xe=m-10" = b.2.get? "xe=m-10" ∧
      ∃ rules : List Text, rules.Perm (b.2.entries.map (Entry.rule "xe" Rule.builtin)) ∧
        stylesheet "xe" Rule.builtin a.2.entries = rules.flatten) ∧
    (r.updates [found, restored]).entries ≠ (r.updates [restored, found]).entries ∧
      (r.updates [found, restored]).get? "xe=m-10" =
        (r.updates [restored, found]).get? "xe=m-10" := by
  intro r one two a b found restored
  have hall := merged_in_any_order r
  obtain ⟨hget, -, hadded, hrules⟩ := hall.1 [two, one] [one, two] (.swap one two [])
  refine ⟨⟨by decide, hadded, hget _, hrules "xe" Rule.builtin⟩, by decide, ?_⟩
  exact hall.2 [found, restored] [restored, found] (.swap restored found []) _

end Session

end AttributeCss
