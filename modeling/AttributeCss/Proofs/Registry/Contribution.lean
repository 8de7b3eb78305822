/-
What a registry holds, as a function of what was contributed.

Occurrences and restored snapshots reach the registry on two paths, but both
contribute the same thing: keys with facets.  `Snapshot.gathered` says what a
list of contributions amounts to, without any registry: each key where it is
first contributed, with all facets contributed for it.

    (r.load cs).seen                    keys and facets, by `keys_load`, `get?_load`
    (r.collect name value f).2.seen     the same for `contributions name value f`

The main statement is about every sequence of updates from the empty registry
on.
-/
import AttributeCss.Proofs.Lists
import AttributeCss.Registry

namespace AttributeCss

namespace OrderedMap

variable {β : Type}

/-- A list of keyed values is known by its keys in order and the value found for each. -/
theorem eq_of_find?_eq : ∀ {l m : List (Text × β)}, (l.map Prod.fst).Nodup →
    l.map Prod.fst = m.map Prod.fst → (∀ k, find? k l = find? k m) → l = m
  | [], [], _, _, _ => rfl
  | [], _ :: _, _, hkeys, _ => absurd hkeys (by simp)
  | _ :: _, [], _, hkeys, _ => absurd hkeys (by simp)
  | (k, v) :: l, (k', v') :: m, hnodup, hkeys, hfind => by
      simp only [List.map_cons, List.cons.injEq] at hkeys
      obtain ⟨rfl, hrest⟩ := hkeys
      simp only [List.map_cons, List.nodup_cons] at hnodup
      have hv : v = v' := by simpa [find?] using hfind k
      subst hv
      have hl : l = m := by
        apply eq_of_find?_eq hnodup.2 hrest
        intro k'
        by_cases h : k = k'
        · subst h
          rw [find?_eq_none.mpr hnodup.1, find?_eq_none.mpr (hrest ▸ hnodup.1)]
        · simpa [find?, h] using hfind k'
      rw [hl]

theorem find?_map_pair (h : Text → β) (k : Text) (ks : List Text) :
    find? k (ks.map fun k => (k, h k)) = if k ∈ ks then some (h k) else none := by
  induction ks with
  | nil => rfl
  | cons c r ih =>
      by_cases hc : c = k
      · subst hc
        simp [find?]
      · simp [find?, hc, Ne.symm hc, ih]

theorem find?_of_mem {k : Text} {x : β} :
    ∀ {l : List (Text × β)}, (l.map Prod.fst).Nodup → (k, x) ∈ l → find? k l = some x
  | (k', x') :: l, hnodup, hmem => by
      rw [List.map_cons, List.nodup_cons] at hnodup
      rcases List.mem_cons.mp hmem with heq | hmem
      · obtain ⟨rfl, rfl⟩ := Prod.mk.inj heq
        simp [find?]
      · have hne : k' ≠ k := by
          rintro rfl
          exact hnodup.1 (List.mem_map.mpr ⟨_, hmem, rfl⟩)
        rw [find?, if_neg hne]
        exact find?_of_mem hnodup.2 hmem

theorem mem_of_find? {k : Text} {x : β} :
    ∀ {l : List (Text × β)}, find? k l = some x → (k, x) ∈ l
  | (k', x') :: l, h => by
      by_cases hk : k' = k
      · subst hk
        obtain rfl : x' = x := by simpa [find?] using h
        exact List.mem_cons_self
      · rw [find?, if_neg hk] at h
        exact List.mem_cons_of_mem _ (mem_of_find? h)

theorem length_keys (m : OrderedMap β) : m.keys.length = m.size := List.length_map _

end OrderedMap

namespace Snapshot

/-- The facets joined for a key. -/
def facetsOf (cs : Snapshot) (k : Text) : Facets :=
  ((cs.filter fun p => p.1 = k).map Prod.snd).foldl (· ∪ ·) .none

/-- Each key where it first occurs, with all facets it occurs with. -/
def gathered (cs : Snapshot) : Snapshot :=
  (cs.map Prod.fst).eraseDups.map fun k => (k, cs.facetsOf k)

theorem foldl_union (f : Facets) (fs : List Facets) :
    fs.foldl (· ∪ ·) f = f ∪ fs.foldl (· ∪ ·) .none := by
  induction fs generalizing f with
  | nil => simp
  | cons g r ih =>
      simp only [List.foldl_cons]
      rw [ih (f ∪ g), ih (Facets.none ∪ g), Facets.none_union, Facets.union_assoc]

@[simp] theorem facetsOf_nil (k : Text) : facetsOf [] k = .none := rfl

theorem facetsOf_cons_self (k : Text) (f : Facets) (cs : Snapshot) :
    facetsOf ((k, f) :: cs) k = f ∪ facetsOf cs k := by
  simp only [facetsOf, List.filter_cons, decide_true, if_true, List.map_cons, List.foldl_cons,
    Facets.none_union]
  exact foldl_union f _

theorem facetsOf_cons_of_ne {k k' : Text} (h : k' ≠ k) (f : Facets) (cs : Snapshot) :
    facetsOf ((k', f) :: cs) k = facetsOf cs k := by
  simp [facetsOf, h]

theorem facetsOf_of_notMem {k : Text} {cs : Snapshot} (h : k ∉ cs.map Prod.fst) :
    cs.facetsOf k = .none := by
  induction cs with
  | nil => rfl
  | cons p r ih =>
      obtain ⟨k', f⟩ := p
      simp only [List.map_cons, List.mem_cons, not_or] at h
      rw [facetsOf_cons_of_ne (Ne.symm h.1), ih h.2]

/-- What holds of all facets contributed for a key, and of two once they are joined, holds of those
joined for it. -/
theorem facetsOf_induction {P : Facets → Prop} (hunion : ∀ f g, P f → P g → P (f ∪ g)) {k : Text}
    {cs : Snapshot} (hk : k ∈ cs.map Prod.fst) (hcs : ∀ f, (k, f) ∈ cs → P f) :
    P (cs.facetsOf k) := by
  induction cs with
  | nil => cases hk
  | cons p cs ih =>
      obtain ⟨k', f⟩ := p
      have hrest : ∀ f, (k, f) ∈ cs → P f := fun f hf => hcs f (List.mem_cons_of_mem _ hf)
      by_cases hkk : k' = k
      · subst hkk
        have hf : P f := hcs f List.mem_cons_self
        rw [facetsOf_cons_self]
        by_cases hmem : k' ∈ cs.map Prod.fst
        · exact hunion f _ hf (ih hmem hrest)
        · rw [facetsOf_of_notMem hmem, Facets.union_none]
          exact hf
      · rw [facetsOf_cons_of_ne hkk]
        refine ih ?_ hrest
        rw [List.map_cons, List.mem_cons] at hk
        exact hk.resolve_left fun heq => hkk heq.symm

theorem facetsOf_eq_true_iff (facet : Facets → Bool) (hnone : facet .none = false)
    (hunion : ∀ f g, facet (f ∪ g) = (facet f || facet g)) {k : Text} {cs : Snapshot} :
    facet (cs.facetsOf k) = true ↔ ∃ f, (k, f) ∈ cs ∧ facet f = true := by
  induction cs with
  | nil => simp [hnone]
  | cons p cs ih =>
      obtain ⟨k', g⟩ := p
      by_cases hk : k' = k
      · subst hk
        rw [facetsOf_cons_self, hunion, Bool.or_eq_true, ih]
        constructor
        · rintro (hg | ⟨f, hmem, hf⟩)
          · exact ⟨g, List.mem_cons_self, hg⟩
          · exact ⟨f, List.mem_cons_of_mem _ hmem, hf⟩
        · rintro ⟨f, hmem, hf⟩
          rcases List.mem_cons.mp hmem with heq | hmem
          · exact Or.inl ((Prod.mk.inj heq).2 ▸ hf)
          · exact Or.inr ⟨f, hmem, hf⟩
      · rw [facetsOf_cons_of_ne hk, ih]
        constructor
        · rintro ⟨f, hmem, hf⟩
          exact ⟨f, List.mem_cons_of_mem _ hmem, hf⟩
        · rintro ⟨f, hmem, hf⟩
          rcases List.mem_cons.mp hmem with heq | hmem
          · exact absurd (Prod.mk.inj heq).1.symm hk
          · exact ⟨f, hmem, hf⟩

theorem bits_facetsOf (k : Text) (cs : Snapshot) :
    (cs.facetsOf k).bits =
      ((cs.filter fun p => p.1 = k).map fun p => p.2.bits).foldl (· ||| ·) 0 := by
  have hbits : ∀ (fs : List Facets) (f : Facets),
      (fs.foldl (· ∪ ·) f).bits = (fs.map Facets.bits).foldl (· ||| ·) f.bits := by
    intro fs
    induction fs with
    | nil => exact fun _ => rfl
    | cons g fs ih =>
        intro f
        rw [List.foldl_cons, ih, Facets.bits_union]
        rfl
  rw [facetsOf, hbits, List.map_map]
  rfl

end Snapshot

namespace Registry

/-! ## Entries by their keys -/

theorem map_key_entries (r : Registry) : r.entries.map Entry.key = r.seen.keys := by
  rw [entries, List.map_map]
  rfl

theorem get?_of_mem_entries {r : Registry} {e : Entry} (h : e ∈ r.entries) :
    r.get? e.key = some e.facets := by
  obtain ⟨⟨k, f⟩, hmem, rfl⟩ := List.mem_map.mp h
  exact OrderedMap.find?_of_mem r.seen.nodup_keys hmem

theorem mem_entries_of_get? {r : Registry} {k : Text} {f : Facets}
    (h : r.get? k = some f) : ⟨k, f⟩ ∈ r.entries :=
  List.mem_map.mpr ⟨(k, f), OrderedMap.mem_of_find? h, rfl⟩

/-! ## What restoring does to keys and facets -/

theorem eraseDups_keys (m : OrderedMap Facets) : m.keys.eraseDups = m.keys :=
  eraseDups_of_nodup m.nodup_keys

@[simp] theorem load_nil (r : Registry) : r.load [] = r := rfl

theorem load_cons (r : Registry) (p : Text × Facets) (cs : Snapshot) :
    r.load (p :: cs) = load { r with seen := r.seen.alter p.1 (merged p.2) } cs := rfl

theorem load_append (r : Registry) (a b : Snapshot) : r.load (a ++ b) = (r.load a).load b := by
  simp [load, List.foldl_append]

theorem keys_load (r : Registry) (cs : Snapshot) :
    (r.load cs).seen.keys = (r.seen.keys ++ cs.map Prod.fst).eraseDups := by
  induction cs generalizing r with
  | nil =>
      rw [List.map_nil, List.append_nil, load_nil, eraseDups_keys]
  | cons p cs ih =>
      rw [load_cons, ih, OrderedMap.keys_alter, List.map_cons]
      split
      · next hmem =>
          rw [List.eraseDups_append, List.eraseDups_append, List.cons_removeAll]
          simp [hmem]
      · rw [List.append_assoc, List.singleton_append]

theorem keys_prefix_load (r : Registry) (cs : Snapshot) :
    r.seen.keys <+: (r.load cs).seen.keys := by
  rw [keys_load, List.eraseDups_append, eraseDups_keys]
  exact List.prefix_append _ _

theorem get?_load (r : Registry) (cs : Snapshot) (k : Text) :
    (r.load cs).get? k =
      if k ∈ cs.map Prod.fst then some ((r.get? k).getD .none ∪ cs.facetsOf k) else r.get? k := by
  induction cs generalizing r with
  | nil => rfl
  | cons p cs ih =>
      obtain ⟨k', f⟩ := p
      rw [load_cons, ih]
      by_cases hk : k = k'
      · subst hk
        have hself : get? { r with seen := r.seen.alter k (merged f) } k =
            some ((r.get? k).getD .none ∪ f) := OrderedMap.get?_alter_self _ _ _
        rw [hself, Snapshot.facetsOf_cons_self]
        by_cases hmem : k ∈ cs.map Prod.fst
        · simp [hmem, Facets.union_assoc]
        · simp [hmem, Snapshot.facetsOf_of_notMem hmem]
      · have hother : get? { r with seen := r.seen.alter k' (merged f) } k = r.get? k :=
          OrderedMap.get?_alter_of_ne _ hk _
        rw [hother, Snapshot.facetsOf_cons_of_ne (Ne.symm hk)]
        simp only [List.map_cons, List.mem_cons, hk, false_or]

theorem snapshot_load_empty (v : Vocabulary) (cs : Snapshot) :
    ((empty v).load cs).snapshot = cs.gathered := by
  have hkeys : cs.gathered.map Prod.fst = (cs.map Prod.fst).eraseDups := by
    rw [Snapshot.gathered, List.map_map]
    exact List.map_id _
  have hload : ((empty v).load cs).snapshot.map Prod.fst = (cs.map Prod.fst).eraseDups :=
    keys_load (empty v) cs
  apply OrderedMap.eq_of_find?_eq (OrderedMap.nodup_keys _) (hload.trans hkeys.symm)
  intro k
  have hget := get?_load (empty v) cs k
  have hnone : (empty v).get? k = none := rfl
  rw [hnone, Option.getD_none, Facets.none_union] at hget
  rw [Snapshot.gathered, OrderedMap.find?_map_pair]
  simp only [List.mem_eraseDups]
  exact hget

end Registry

/-! ## Recording an occurrence is restoring its contributions -/

/-- What an occurrence contributes: its value, or each word of a listed one, with the occurrence's
facets and those of the value by itself. -/
def Vocabulary.contributions (v : Vocabulary) (name value : Text) (f : Facets) : Snapshot :=
  (if f.listed then Text.words value else [value]).map fun w =>
    (Entry.keyOf name w, f ∪ v.valueFacets w)

theorem Vocabulary.keys_contributions (v : Vocabulary) (name value : Text) (f : Facets) :
    (v.contributions name value f).map Prod.fst =
      (Registry.valuesOf value f).map (Entry.keyOf name) := List.map_map

namespace Registry

variable (name : Text) (f : Facets)

theorem size_note (r : Registry) (k : Text) (f : Facets) :
    (r.note k f).size = if (r.get? k).isNone then r.size + 1 else r.size := by
  rw [size, size, ← OrderedMap.length_keys, ← OrderedMap.length_keys]
  show (r.seen.alter k (merged f)).keys.length = _
  rw [OrderedMap.keys_alter]
  cases hk : r.get? k with
  | none =>
      have hmem : k ∉ r.seen.keys := OrderedMap.get?_eq_none.mp hk
      simp [hmem]
  | some g =>
      have hmem : k ∈ r.seen.keys := by
        by_contra h
        exact absurd (OrderedMap.get?_eq_none.mpr h) (by rw [show r.seen.get? k = _ from hk]; simp)
      simp [hmem]

theorem size_noteValue (st : Nat × Registry) (w : Text) :
    (noteValue name f st w).2.size + st.1 = st.2.size + (noteValue name f st w).1 := by
  simp only [noteValue, size_note]
  split <;> omega

/-- The registry after noting values one after the other, and how many keys they added. -/
theorem foldl_noteValue (ws : List Text) (st : Nat × Registry) :
    (ws.foldl (noteValue name f) st).2.vocabulary = st.2.vocabulary ∧
    (ws.foldl (noteValue name f) st).2.seen = (st.2.load (ws.map fun w =>
      (Entry.keyOf name w, f ∪ st.2.vocabulary.valueFacets w))).seen ∧
    (ws.foldl (noteValue name f) st).2.size + st.1 =
      st.2.size + (ws.foldl (noteValue name f) st).1 := by
  induction ws generalizing st with
  | nil => exact ⟨rfl, rfl, rfl⟩
  | cons w ws ih =>
      obtain ⟨hvocabulary, hseen, hsize⟩ := ih (noteValue name f st w)
      have hstep := size_noteValue name f st w
      refine ⟨hvocabulary, hseen, ?_⟩
      rw [List.foldl_cons]
      omega

theorem seen_collect (r : Registry) (name value : Text) (f : Facets) :
    (r.collect name value f).2.seen =
      (r.load (r.vocabulary.contributions name value f)).seen :=
  (foldl_noteValue name f (valuesOf value f) (0, r)).2.1

@[simp] theorem vocabulary_collect (r : Registry) (name value : Text) (f : Facets) :
    (r.collect name value f).2.vocabulary = r.vocabulary :=
  (foldl_noteValue name f (valuesOf value f) (0, r)).1

theorem size_collect (r : Registry) (name value : Text) (f : Facets) :
    (r.collect name value f).2.size = r.size + (r.collect name value f).1 :=
  (foldl_noteValue name f (valuesOf value f) (0, r)).2.2

theorem keys_collect (r : Registry) (name value : Text) (f : Facets) :
    (r.collect name value f).2.seen.keys =
      (r.seen.keys ++ (valuesOf value f).map (Entry.keyOf name)).eraseDups := by
  rw [seen_collect, keys_load, Vocabulary.keys_contributions]

/-- An entry an occurrence is recorded under gets its facets and those of the value. -/
theorem get?_collect_of_mem {r : Registry} {name value w : Text} {f : Facets}
    (hw : w ∈ valuesOf value f) :
    (r.collect name value f).2.get? (Entry.keyOf name w) =
      some ((r.get? (Entry.keyOf name w)).getD .none ∪ (f ∪ r.vocabulary.valueFacets w)) := by
  have hmem : Entry.keyOf name w ∈ (r.vocabulary.contributions name value f).map Prod.fst := by
    rw [Vocabulary.keys_contributions]
    exact List.mem_map_of_mem hw
  have hfacets : (r.vocabulary.contributions name value f).facetsOf (Entry.keyOf name w) =
      f ∪ r.vocabulary.valueFacets w := by
    refine Snapshot.facetsOf_induction (P := (· = f ∪ r.vocabulary.valueFacets w)) ?_ hmem ?_
    · rintro _ _ rfl rfl
      exact Facets.union_self _
    · intro g hg
      obtain ⟨w', -, hw'⟩ := List.mem_map.mp hg
      obtain ⟨hkey, rfl⟩ := Prod.mk.inj hw'
      obtain rfl : w' = w := (List.cons.inj (List.append_cancel_left hkey)).2
      rfl
  have hload := get?_load r (r.vocabulary.contributions name value f) (Entry.keyOf name w)
  rw [if_pos hmem, hfacets] at hload
  exact (congrArg (·.get? (Entry.keyOf name w)) (seen_collect r name value f)).trans hload

theorem get?_collect_of_notMem {r : Registry} {name value k : Text} {f : Facets}
    (hk : ∀ w ∈ valuesOf value f, k ≠ Entry.keyOf name w) :
    (r.collect name value f).2.get? k = r.get? k := by
  have hload := get?_load r (r.vocabulary.contributions name value f) k
  rw [if_neg] at hload
  · exact (congrArg (·.get? k) (seen_collect r name value f)).trans hload
  · rw [Vocabulary.keys_contributions]
    intro hmem
    obtain ⟨w, hw, rfl⟩ := List.mem_map.mp hmem
    exact hk w hw rfl

/-! ## Sequences of updates -/

/-- A way to change a registry. -/
inductive Update where
  | collect (name value : Text) (facets : Facets)
  | load (snapshot : Snapshot)
  | freshen

def update (r : Registry) : Update → Registry
  | .collect name value f => (r.collect name value f).2
  | .load s => r.load s
  | .freshen => r.freshened

def updates (r : Registry) (us : List Update) : Registry := us.foldl update r

def Update.contributions (v : Vocabulary) : Update → Snapshot
  | .collect name value f => v.contributions name value f
  | .load s => s
  | .freshen => []

@[simp] theorem vocabulary_update (r : Registry) (u : Update) :
    (r.update u).vocabulary = r.vocabulary := by
  cases u with
  | collect name value f => exact vocabulary_collect r name value f
  | load s => rfl
  | freshen => rfl

theorem seen_update (r : Registry) (u : Update) :
    (r.update u).seen = (r.load (u.contributions r.vocabulary)).seen := by
  cases u with
  | collect name value f => exact seen_collect r name value f
  | load s => rfl
  | freshen => rfl

theorem load_seen_congr {r r' : Registry} (h : r.seen = r'.seen) (cs : Snapshot) :
    (r.load cs).seen = (r'.load cs).seen := by
  simp only [load, h]

theorem seen_updates (r : Registry) (us : List Update) :
    (r.updates us).seen = (r.load (us.flatMap (Update.contributions r.vocabulary))).seen := by
  induction us generalizing r with
  | nil => rfl
  | cons u us ih =>
      rw [List.flatMap_cons, load_append]
      show ((r.update u).updates us).seen = _
      rw [ih, vocabulary_update]
      exact load_seen_congr (seen_update r u) _

/-- **The registry is the gathering of what was contributed to it.**  After any updates of the
empty registry the snapshot has each contributed key where it was first contributed, with exactly
the bits contributed for it; recording an occurrence returns by how much the registry grows; and no
update moves or drops a key. -/
theorem snapshot_updates_eq_gathered (v : Vocabulary) (us : List Update) :
    let cs : Snapshot := us.flatMap (Update.contributions v)
    let r := (empty v).updates us
    r.snapshot = (cs.map Prod.fst).eraseDups.map (fun k => (k, cs.facetsOf k)) ∧
    (∀ k, (cs.facetsOf k).bits =
      ((cs.filter fun p => p.1 = k).map fun p => p.2.bits).foldl (· ||| ·) 0) ∧
    (∀ name value f, (r.collect name value f).2.size = r.size + (r.collect name value f).1) ∧
    (∀ u, r.seen.keys <+: (r.update u).seen.keys) := by
  intro cs r
  have hseen : r.seen = ((empty v).load cs).seen := seen_updates (empty v) us
  refine ⟨?_, fun k => Snapshot.bits_facetsOf k cs, size_collect r, ?_⟩
  · show r.seen.toList = cs.gathered
    rw [hseen]
    exact snapshot_load_empty v cs
  · intro u
    rw [seen_update]
    exact keys_prefix_load r _

end Registry

end AttributeCss
