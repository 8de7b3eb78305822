/-
A session goes on where another one stopped.

What a session leaves in a store is the list of its entries, and a session that
is started with the same options and rules and loads that store has the same
entries in the same order (`loadCache_persisted`).  The document of the list
reads back as the list.  Loading adds its entries to an empty registry one after
the other, and as no key occurs in it twice none of them meets another.

The one thing that does not come back are bits that stand for no facet.  No rule
depends on them, and a session only has them if it was given them: scans and
stores bring none in (`isKnown_move`).

Nothing is asked of the first session: scans may be pending in it, and
renders may be under way.
-/
import AttributeCss.Proofs.Snapshot.Stored
import AttributeCss.Proofs.Session.Rescan

namespace AttributeCss

open Json

/-! ## Entries that are gathered already -/

namespace Snapshot

theorem facetsOf_of_find? {cs : Snapshot} (h : (cs.map Prod.fst).Nodup) {k : Text} {f : Facets}
    (hk : OrderedMap.find? k cs = some f) : cs.facetsOf k = f := by
  induction cs with
  | nil => cases hk
  | cons p cs ih =>
      obtain ⟨k', g⟩ := p
      obtain ⟨hfirst, hrest⟩ := List.nodup_cons.mp h
      by_cases hkey : k' = k
      · subst hkey
        obtain rfl : g = f := by simpa [OrderedMap.find?] using hk
        rw [facetsOf_cons_self, facetsOf_of_notMem hfirst, Facets.union_none]
      · rw [facetsOf_cons_of_ne hkey]
        exact ih hrest (by simpa [OrderedMap.find?, hkey] using hk)

theorem keys_known (s : Snapshot) : s.known.map Prod.fst = s.map Prod.fst := by
  simp [known]

theorem gathered_of_nodup {cs : Snapshot} (h : (cs.map Prod.fst).Nodup) : cs.gathered = cs := by
  rw [gathered, eraseDups_of_nodup h]
  symm
  apply OrderedMap.eq_of_find?_eq h
  · rw [List.map_map]
    exact (List.map_id _).symm
  · intro k
    rw [OrderedMap.find?_map_pair]
    split
    · next hk =>
        cases hfind : OrderedMap.find? k cs with
        | none => exact absurd hk (OrderedMap.find?_eq_none.mp hfind)
        | some f => rw [facetsOf_of_find? h hfind]
    · next hk => exact OrderedMap.find?_eq_none.mpr hk

end Snapshot

/-- Restoring what can be read of the snapshot of a registry in an empty one. -/
theorem Registry.snapshot_load_known (v : Vocabulary) (r : Registry) :
    ((empty v).load r.snapshot.known).snapshot = r.snapshot.known := by
  rw [snapshot_load_empty]
  apply Snapshot.gathered_of_nodup
  rw [Snapshot.keys_known]
  exact r.seen.nodup_keys

/-- No rule depends on bits that stand for no facet. -/
theorem Registry.rules_of_known {r r' : Registry} (h : r'.snapshot = r.snapshot.known)
    (marker : Text) (table : RuleTable) :
    r'.entries.flatMap (Entry.rule marker table) = r.entries.flatMap (Entry.rule marker table) := by
  have hrule (p : Text × Facets) :
      Entry.rule marker table ⟨p.1, p.2.known⟩ = Entry.rule marker table ⟨p.1, p.2⟩ := rfl
  calc r'.entries.flatMap (Entry.rule marker table)
      = r'.snapshot.flatMap fun p => Entry.rule marker table ⟨p.1, p.2⟩ := List.flatMap_map _ _ _
    _ = r.snapshot.flatMap fun p => Entry.rule marker table ⟨p.1, p.2⟩ := by
        simp only [h, Snapshot.known, List.flatMap_map, hrule]
    _ = r.entries.flatMap (Entry.rule marker table) := (List.flatMap_map _ _ _).symm

/-! ## Where unknown bits come from -/

theorem Facets.unknown_union_eq_none {f g : Facets} (hf : f.unknown = .none)
    (hg : g.unknown = .none) : (f ∪ g).unknown = .none := by
  show f.unknown.join g.unknown = .none
  rw [hf, hg, UnknownBits.none_join]

theorem Snapshot.unknown_of_pairOfJson? {v : Value} {p : Text × Facets}
    (h : pairOfJson? v = some p) : p.2.unknown = .none := by
  unfold pairOfJson? at h
  split at h
  · obtain ⟨key, -, hkey⟩ := Option.bind_eq_some_iff.mp h
    obtain ⟨f, hf, rfl⟩ := Option.map_eq_some_iff.mp hkey
    obtain ⟨number, -, rfl⟩ := Option.map_eq_some_iff.mp hf
    rfl
  · cases h

theorem Store.readSnapshot_written {store store' : Store} {snapshot : Snapshot}
    (h : store.writeSnapshot snapshot = .ok store') :
    store'.readSnapshot = .ok (some snapshot.known) := by
  cases store with
  | refusing reason => cases h
  | memory held =>
      obtain rfl : Store.memory (some snapshot.encode) = store' := Except.ok.inj h
      simp only [Store.readSnapshot, Store.read, Snapshot.decode?_encode_eq]

theorem Store.isKnown_of_readSnapshot {store : Store} {s : Snapshot}
    (h : store.readSnapshot = .ok (some s)) : s.IsKnown := by
  unfold readSnapshot at h
  split at h
  · cases h
  · cases h
  · next bytes hread =>
      split at h
      · next snapshot hdecode =>
          obtain rfl : snapshot = s := Option.some.inj (Except.ok.inj h)
          obtain ⟨t, -, ht⟩ := Option.bind_eq_some_iff.mp hdecode
          obtain ⟨v, -, hv⟩ := Option.bind_eq_some_iff.mp ht
          obtain ⟨items, -, hitems⟩ := Option.bind_eq_some_iff.mp hv
          intro p hp
          obtain ⟨item, -, hitem⟩ := exists_of_mem_mapM hitems hp
          exact Snapshot.unknown_of_pairOfJson? hitem
      · cases h

namespace Registry

theorem isKnown_load {r : Registry} (hr : r.snapshot.IsKnown) {cs : Snapshot} (hcs : cs.IsKnown) :
    (r.load cs).snapshot.IsKnown := by
  rintro ⟨k, f⟩ hmem
  have hget : (r.load cs).get? k = some f :=
    OrderedMap.find?_of_mem (r.load cs).seen.nodup_keys hmem
  rw [get?_load] at hget
  split at hget
  · next hk =>
      obtain rfl := Option.some.inj hget
      have hold : ((r.get? k).getD .none).unknown = .none := by
        cases hr' : r.get? k with
        | none => rfl
        | some g => exact hr (k, g) (OrderedMap.mem_of_find? hr')
      have hadded : (cs.facetsOf k).unknown = .none :=
        Snapshot.facetsOf_induction (P := (·.unknown = .none))
          (fun _ _ => Facets.unknown_union_eq_none) hk fun f hf => hcs (k, f) hf
      exact Facets.unknown_union_eq_none hold hadded
  · exact hr (k, f) (OrderedMap.mem_of_find? hget)

end Registry

theorem Occurrence.isKnown_contributions {v : Vocabulary} {name value : Text} {o : Occurrence}
    (h : of? v name value = some o) (w : Vocabulary) : (o.contributions w).IsKnown := by
  rintro ⟨k, f⟩ hmem
  obtain ⟨token, -, -, rfl⟩ := mem_contributions.mp hmem
  have hname : (v.nameFacets name).unknown = .none := by
    unfold Vocabulary.nameFacets
    split_ifs <;> rfl
  rw [eq_of_of? h]
  exact Facets.unknown_union_eq_none (Facets.unknown_union_eq_none hname rfl) rfl

namespace Session

/-- Only a snapshot that is restored brings in bits that stand for no facet. -/
theorem isKnown_move {s : Session} (hs : s.registry.snapshot.IsKnown) {m : Move}
    (hm : ∀ snapshot, m = .load snapshot → snapshot.IsKnown) :
    (s.move m).registry.snapshot.IsKnown := by
  cases m with
  | scan task =>
      -- a scan adds what its occurrences contribute, as if that were restored
      have hseen := (seen_foldl_mergeOne (s.setup.found task) (0, s.registry)).2
      have hsnapshot : (s.scan task).2.registry.snapshot = (s.registry.load
          ((s.setup.found task).flatMap
            (Occurrence.contributions s.registry.vocabulary))).snapshot := by
        rw [registry_scan]
        exact congrArg OrderedMap.toList hseen
      show (s.scan task).2.registry.snapshot.IsKnown
      rw [hsnapshot]
      refine Registry.isKnown_load hs fun p hp => ?_
      obtain ⟨o, ho, hmem⟩ := List.mem_flatMap.mp hp
      have hfound : o ∈ [Move.scan task].flatMap s.setup.foundBy := by
        simpa [Setup.foundBy] using ho
      exact Occurrence.isKnown_contributions (of?_of_mem_found hfound) _ p hmem
  | load snapshot => exact Registry.isKnown_load hs (hm snapshot rfl)
  | loadCache store =>
      show (s.loadCache store).2.registry.snapshot.IsKnown
      unfold loadCache
      split
      · next snapshot hread => exact Registry.isKnown_load hs (Store.isKnown_of_readSnapshot hread)
      · exact hs
      · exact hs
  | persistCache store => exact hs
  | render force =>
      show (s.render force).2.registry.snapshot.IsKnown
      by_cases h : s.Rewrites force
      · rw [render_of_rewrites h]
        exact hs
      · rw [render_of_not_rewrites h]
        exact hs

theorem isKnown_moves {s : Session} (hs : s.registry.snapshot.IsKnown) {ms : List Move}
    (hms : ∀ snapshot, .load snapshot ∈ ms → snapshot.IsKnown) :
    (run s ms).2.registry.snapshot.IsKnown := by
  induction ms generalizing s with
  | nil => exact hs
  | cons m ms ih =>
      rw [run_cons]
      have hfirst : ∀ snapshot, m = .load snapshot → snapshot.IsKnown := by
        rintro snapshot rfl
        exact hms snapshot List.mem_cons_self
      exact ih (isKnown_move hs hfirst) fun snapshot hmem =>
        hms snapshot (List.mem_cons_of_mem _ hmem)

/-! ## The main statement -/

theorem loadCache_of_writeSnapshot {store store' : Store} {snapshot : Snapshot}
    (h : store.writeSnapshot snapshot = .ok store') (s : Session) :
    s.loadCache store' = (snapshot.length, s.load snapshot.known) := by
  rw [loadCache, Store.readSnapshot_written h]
  simp only [Snapshot.known, List.length_map]

/-- **A session goes on where another one stopped.**  Any session `s` can be put into a store in
memory, whatever that store held before.  A session that is started with the options and rules of
`s` and loads the store counts as many entries as `s` has, and then has the snapshot of `s`, but for
bits that stand for no facet; it is stale, so that its next render writes the stylesheet, which is
the one `s` would write.  If all bits in `s` stand for facets, the snapshot is that of `s`, and put
into a store of its own it leaves the same bytes there.  This is so after any run in which no other
bits are restored. -/
theorem loadCache_persisted (s : Session) (u : Setup) (hoptions : u.options = s.setup.options)
    (hrules : u.host.rules = s.setup.host.rules) (held : Option ByteArray) :
    ∃ bytes, s.persistCache (.memory held) = .ok (.memory (some bytes)) ∧
      let loaded := (start u).loadCache (.memory (some bytes))
      loaded.1 = s.registry.size ∧
      loaded.2.registry.snapshot = s.registry.snapshot.known ∧
      loaded.2.registry.stale = true ∧
      (loaded.2.render false).1 = (s.render true).1 ∧
      (s.render true).1 =
        s.registry.entries.flatMap (Entry.rule u.vocabulary.marker u.host.rules) ∧
      (loaded.2.registry.snapshot = s.registry.snapshot ↔ s.registry.snapshot.IsKnown) ∧
      (s.registry.snapshot.IsKnown →
        ∀ held', loaded.2.persistCache (.memory held') = .ok (.memory (some bytes))) ∧
      ∀ w ms, s = (run (start w) ms).2 →
        (∀ snapshot, .load snapshot ∈ ms → snapshot.IsKnown) → s.registry.snapshot.IsKnown := by
  have hpersisted : s.persistCache (.memory held) =
      .ok (.memory (some s.registry.snapshot.encode)) := rfl
  refine ⟨_, hpersisted, ?_⟩
  intro loaded
  have hloaded : loaded =
      (s.registry.snapshot.length, (start u).load s.registry.snapshot.known) :=
    loadCache_of_writeSnapshot hpersisted _
  have hsnapshot : loaded.2.registry.snapshot = s.registry.snapshot.known := by
    rw [hloaded]
    exact Registry.snapshot_load_known u.vocabulary s.registry
  have hstale : loaded.2.registry.stale = true := by
    rw [hloaded]
    rfl
  have hsetup : loaded.2.setup = u := by
    rw [hloaded]
    rfl
  have hrender : (s.render true).1 =
      s.registry.entries.flatMap (Entry.rule u.vocabulary.marker u.host.rules) := by
    rw [render_force, hrules, Setup.vocabulary_eq hoptions]
  refine ⟨by rw [hloaded]; rfl, hsnapshot, hstale, ?_, hrender, ?_, ?_, ?_⟩
  · have hrewrites : loaded.2.Rewrites false := Or.inl hstale
    rw [render_of_rewrites hrewrites, hrender]
    show loaded.2.stylesheetOf loaded.2.registry.entries = _
    rw [stylesheetOf, hsetup]
    exact Registry.rules_of_known hsnapshot _ _
  · rw [hsnapshot]
    exact Snapshot.known_eq_self_iff
  · intro hknown held'
    rw [persistCache, hsnapshot, Snapshot.known_eq_self_iff.mpr hknown]
    rfl
  · rintro w ms rfl hms
    have hstart : (start w).registry.snapshot.IsKnown := List.forall_mem_nil _
    exact isKnown_moves hstart hms

/-- A run with an entry whose key has quotes, a line break and a character beyond the first plane,
put into a store that holds something else, and loaded by a session that keeps its diagnostics. -/
theorem loadCache_persisted_quoted_key :
    let ms : List Move := [
      .scan (.source "<template><i xe='m-10 hover:p-4' xe-fc-red></i></template>"), .render false,
      .load [("xe-f=\"😀\"\n", { listed := true })]]
    let s := (run (start (.standard {})) ms).2
    let u := Setup.standard { reporter := .recording }
    u.options = s.setup.options ∧ u.host.rules = s.setup.host.rules ∧
      (∀ snapshot, .load snapshot ∈ ms → snapshot.IsKnown) ∧
      ∃ bytes, s.persistCache (.memory (some (Text.toBytes "[]"))) = .ok (.memory (some bytes)) ∧
        let loaded := (start u).loadCache (.memory (some bytes))
        loaded.1 = 4 ∧ loaded.2.registry.snapshot = s.registry.snapshot ∧
          (loaded.2.render false).1 = (s.render true).1 ∧
          loaded.2.persistCache (.memory none) = .ok (.memory (some bytes)) := by
  intro ms s u
  have hsetup : s.setup = .standard {} := setup_run _ _
  have hoptions : u.options = s.setup.options := by
    rw [hsetup]
    rfl
  have hrules : u.host.rules = s.setup.host.rules := by
    rw [hsetup]
    rfl
  have hms : ∀ snapshot, .load snapshot ∈ ms → snapshot.IsKnown := by
    simp [ms, Snapshot.IsKnown]
  have hsize : s.registry.size = 4 := by decide +kernel
  obtain ⟨bytes, hpersisted, hcount, -, -, hrender, -, hsame, hagain, hrun⟩ :=
    loadCache_persisted s u hoptions hrules (some (Text.toBytes "[]"))
  have hknown := hrun (.standard {}) ms rfl hms
  exact ⟨hoptions, hrules, hms, bytes, hpersisted, hcount.trans hsize, hsame.mpr hknown, hrender,
    hagain hknown none⟩

/-- A session that was given the bits 0 and 7 leaves them in the store.  A session that loads it does
not have them, and leaves other bytes. -/
theorem loadCache_persisted_unknown :
    let s := (run (start (.standard {})) [.load [("xe-m=10", .ofWord 131#32)]]).2
    let bytes := Text.toBytes "[[\"xe-m=10\",131]]"
    let loaded := (start (.standard {})).loadCache (.memory (some bytes))
    let read : Snapshot := [("xe-m=10", { marked := true })]
    s.persistCache (.memory none) = .ok (.memory (some bytes)) ∧
      loaded.2.registry.snapshot = read ∧ loaded.2.registry.snapshot ≠ s.registry.snapshot ∧
      loaded.2.persistCache (.memory none) =
        .ok (.memory (some (Text.toBytes "[[\"xe-m=10\",2]]"))) ∧
      loaded.2.persistCache (.memory none) ≠ .ok (.memory (some bytes)) := by
  intro s bytes loaded read
  have hpersisted : s.persistCache (.memory none) = .ok (.memory (some bytes)) := by rfl
  have hloaded : loaded = (1, (start (.standard {})).load s.registry.snapshot.known) :=
    loadCache_of_writeSnapshot hpersisted _
  have hsnapshot : loaded.2.registry.snapshot = read := by
    rw [hloaded]
    rfl
  have hagain : loaded.2.persistCache (.memory none) =
      .ok (.memory (some (Text.toBytes "[[\"xe-m=10\",2]]"))) := by
    rw [persistCache, hsnapshot]
    rfl
  refine ⟨hpersisted, hsnapshot, ?_, hagain, ?_⟩
  · rw [hsnapshot]
    decide
  · -- the documents differ in length
    rw [hagain]
    intro h
    have hbytes := Option.some.inj (Store.memory.inj (Except.ok.inj h))
    exact absurd (congrArg ByteArray.size hbytes) (by decide)

end Session

end AttributeCss
