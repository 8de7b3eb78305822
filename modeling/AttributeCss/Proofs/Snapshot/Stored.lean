/-
What storage gives back.

A stored snapshot comes back with its keys in order and the facets of each:
its document is written and read again (`decode?_encode`).  Only bits that
stand for no facet are stored and then not read, so a snapshot without such
bits comes back as it was.

A file that was cut off while it was written gives nothing back
(`loadCache_cut`).  The cut may fall inside the bytes of a character, and then
what is left is no text.  Otherwise it is the start of the written text, and
that ends in the bracket which closes the array it starts with.
-/
import AttributeCss.Proofs.Json.Ended
import AttributeCss.Session.Basic

namespace AttributeCss

open Json

/-! ## Bytes -/

namespace Text

theorem exists_append_of_ofBytes? {b rest : ByteArray} {whole t : Text}
    (h : b ++ rest = toBytes whole) (ht : ofBytes? b = some t) :
    ∃ u, t ++ u = whole ∧ toBytes u = rest := by
  rw [← toBytes_of_ofBytes? ht, toBytes_eq, toBytes_eq] at h
  obtain ⟨u, rfl⟩ := List.isPrefix_of_utf8Encode_append_eq_utf8Encode rest h
  rw [List.utf8Encode_append, ByteArray.append_right_inj] at h
  exact ⟨u, rfl, h.symm⟩

end Text

/-! ## What was stored comes back -/

theorem Json.Value.text?_reread_ofText (t : Text) : (Value.ofText t).reread.text? = some t :=
  Literal.text?_reread t

theorem Facets.ofJson?_ofNat_bits (f : Facets) :
    ofJson? (Value.ofNat f.bits) = some f.known := by
  have hbound : f.bits < Nat.pow 2 32 := f.bits_lt
  simp [ofJson?, Value.ofNat, Value.word?, Text.isNumeral_numeral, hbound]

namespace Snapshot

/-- The snapshot without the bits that stand for no facet. -/
def known (s : Snapshot) : Snapshot := s.map fun p => (p.1, p.2.known)

/-- All bits of a snapshot stand for facets. -/
def IsKnown (s : Snapshot) : Prop := ∀ p ∈ s, p.2.unknown = .none

theorem known_eq_self_iff {s : Snapshot} : s.known = s ↔ s.IsKnown := by
  have hpair (p : Text × Facets) : (p.1, p.2.known) = p ↔ p.2.unknown = .none := by
    rw [← Facets.known_eq_self_iff, Prod.ext_iff]
    exact and_iff_right rfl
  calc s.known = s ↔ s.known = s.map id := by rw [List.map_id]
    _ ↔ ∀ p ∈ s, (p.1, p.2.known) = p := List.map_inj_left
    _ ↔ s.IsKnown := forall₂_congr fun p _ => hpair p

theorem writable_toJson (s : Snapshot) : (toJson s).Writable := by
  refine .array fun v hv => ?_
  obtain ⟨p, -, rfl⟩ := List.mem_map.mp hv
  refine .array (List.forall_mem_cons.mpr ⟨Value.writable_ofText p.1, ?_⟩)
  exact List.forall_mem_singleton.mpr (Value.writable_ofNat p.2.bits)

theorem pairOfJson?_reread (p : Text × Facets) :
    pairOfJson? (pairToJson p).reread = some (p.1, p.2.known) := by
  show ((Value.ofText p.1).reread.text?.bind fun key =>
    (Facets.ofJson? (Value.ofNat p.2.bits)).map fun f => (key, f)) = _
  rw [Value.text?_reread_ofText, Facets.ofJson?_ofNat_bits]
  rfl

theorem ofJson?_reread (s : Snapshot) : ofJson? (toJson s).reread = some s.known := by
  show (rereadItems (s.map pairToJson)).mapM pairOfJson? = some s.known
  induction s with
  | nil => rfl
  | cons p s ih =>
      rw [List.map_cons, rereadItems, List.mapM_cons, pairOfJson?_reread, ih]
      rfl

theorem decode?_encode_eq (s : Snapshot) : decode? s.encode = some s.known := by
  rw [decode?, encode, Text.ofBytes?_toBytes, Option.bind_some, read?, write,
    Value.read?_write (writable_toJson s)]
  exact ofJson?_reread s

/-- **A stored snapshot comes back,** its keys in order with the facets of each, and it comes back as
it was exactly if all its bits stand for facets. -/
theorem decode?_encode (s : Snapshot) :
    decode? s.encode = some s.known ∧ (decode? s.encode = some s ↔ s.IsKnown) := by
  have hdecode := decode?_encode_eq s
  refine ⟨hdecode, ?_⟩
  rw [hdecode, Option.some_inj, known_eq_self_iff]

/-- The bits 0 and 7 stand for no facet: they are stored and not read. -/
theorem decode?_encode_unknown :
    let s : Snapshot := [("k", .ofWord 131#32)]
    let read : Snapshot := [("k", { marked := true })]
    s.encode = Text.toBytes "[[\"k\",131]]" ∧ decode? s.encode = some read ∧
      decode? s.encode ≠ some s := by
  intro s read
  have hdecode : decode? s.encode = some read := decode?_encode_eq s
  refine ⟨by rfl, hdecode, ?_⟩
  rw [hdecode]
  decide

/-! ## What was cut off -/

theorem read?_nil : Value.read? [] = none := by
  rw [Value.read?, tokens?_nil]
  rfl

theorem read?_cut {t u : Text} {s : Snapshot} (h : t ++ u = s.write) (hu : u ≠ []) :
    Value.read? t = none := by
  cases t with
  | nil => exact read?_nil
  | cons c r =>
      have hwhole : c :: r ++ u = '[' :: writeItems (s.map pairToJson) ++ [']'] := h
      obtain ⟨rfl, -⟩ := List.cons.inj hwhole
      have hlast : ('[' :: r ++ u).getLast (List.append_ne_nil_of_right_ne_nil _ hu) = ']' := by
        simp only [hwhole, List.getLast_concat]
      rw [List.getLast_append_of_ne_nil _ hu] at hlast
      have hbracket : ']' ∈ u := hlast ▸ List.getLast_mem hu
      have hread : Value.read? ('[' :: r ++ u) = some (toJson s).reread := by
        rw [h, write, Value.read?_write (writable_toJson s)]
      exact Value.read?_eq_none_of_cut (by rfl) hread ⟨']', hbracket, by decide⟩

theorem decode?_cut {b rest : ByteArray} {s : Snapshot} (h : b ++ rest = s.encode)
    (hrest : rest ≠ ByteArray.empty) : decode? b = none := by
  rw [decode?, Option.bind_eq_none_iff]
  intro t ht
  obtain ⟨u, hu, rfl⟩ := Text.exists_append_of_ofBytes? h ht
  rw [read?, read?_cut hu]
  · rfl
  · rintro rfl
    exact hrest rfl

end Snapshot

/-- **A snapshot that was cut off is corrupt,** wherever the cut fell, and a session that loads it
stays as it is. -/
theorem Session.loadCache_cut (snapshot : Snapshot) {n : Nat} (hn : n < snapshot.encode.size) :
    Snapshot.decode? (snapshot.encode.extract 0 n) = none ∧
      ∀ store : Store, store.read = .ok (some (snapshot.encode.extract 0 n)) →
        store.readSnapshot = .error .corrupt ∧ ∀ s : Session, s.loadCache store = (0, s) := by
  have hsplit : snapshot.encode.extract 0 n ++ snapshot.encode.extract n snapshot.encode.size =
      snapshot.encode := by simp
  have hrest : snapshot.encode.extract n snapshot.encode.size ≠ ByteArray.empty := by
    intro hempty
    have hsize := congrArg ByteArray.size hempty
    rw [ByteArray.size_extract, ByteArray.size_empty] at hsize
    omega
  have hdecode := Snapshot.decode?_cut hsplit hrest
  refine ⟨hdecode, fun store hread => ?_⟩
  have hcorrupt : store.readSnapshot = .error .corrupt := by
    rw [Store.readSnapshot, hread]
    dsimp only
    rw [hdecode]
  exact ⟨hcorrupt, fun s => by rw [Session.loadCache, hcorrupt]⟩

/-- The cut may fall inside a character that takes four bytes. -/
theorem Session.loadCache_cut_inside_character :
    let snapshot : Snapshot := [("xe-f=\"😀\"", { marked := true })]
    let store : Store := .memory (some (snapshot.encode.extract 0 12))
    12 < snapshot.encode.size ∧ store.readSnapshot = .error .corrupt := by
  intro snapshot store
  have hn : 12 < snapshot.encode.size := by decide
  exact ⟨hn, ((Session.loadCache_cut snapshot hn).2 store rfl).1⟩

end AttributeCss
