/-
Records in documents.

What a document says is not how it is written.  A string stands for a text if it
holds its characters, each as itself or by its code units (`Literal.Spells`).  An
object gives a record if its members are the fields, in any order, with others
among them under other names (`Gives`).  Then each field is found under its name
(`record?_of_gives`), and no other member says anything.
-/
import AttributeCss.Json.Record
import AttributeCss.Proofs.Json.RoundTrip
import AttributeCss.Proofs.Lists

namespace AttributeCss.Json

/-! ## Values of fields -/

namespace Value

/-- The value is a string that stands for the text. -/
inductive Denotes : Value → Text → Prop
  | string {s : Literal} {t : Text} : s.Spells t → Denotes (.string s) t

/-- The value is null for no text, or a string that stands for the text. -/
inductive MayDenote : Value → Option Text → Prop
  | null : MayDenote .null none
  | text {v : Value} {t : Text} : v.Denotes t → MayDenote v (some t)

/-- The value is an array of strings that stand for the texts. -/
inductive Lists : Value → List Text → Prop
  | array {items : List Value} {ts : List Text} : List.Forall₂ Denotes items ts →
      Lists (.array items) ts

theorem denotes_reread_ofText (t : Text) : (ofText t).reread.Denotes t :=
  .string (Literal.spells_reread t)

theorem lists_reread_ofText (ts : List Text) : (array (ts.map ofText)).reread.Lists ts := by
  refine .array ?_
  induction ts with
  | nil => exact .nil
  | cons t ts ih => exact .cons (denotes_reread_ofText t) ih

theorem text?_of_denotes {v : Value} {t : Text} (h : v.Denotes t) : v.text? = some t := by
  obtain ⟨hs⟩ := h
  exact Literal.text?_of_spells hs

theorem nullable?_of_mayDenote {v : Value} {t : Option Text} (h : v.MayDenote t) :
    nullable? text? v = some t := by
  cases h with
  | null => rfl
  | text hv =>
      obtain ⟨hs⟩ := hv
      show (Literal.text? _).map some = _
      rw [Literal.text?_of_spells hs]
      rfl

theorem texts?_of_lists {v : Value} {ts : List Text} (h : v.Lists ts) : v.texts? = some ts := by
  obtain ⟨hitems⟩ := h
  exact mapM_eq_some_iff.mpr (hitems.imp fun _ _ => text?_of_denotes)

/-! ## Fields in any order -/

/-- The field of the name holds the value. -/
def Holds (fields : List (Text × Value)) (name : Text) (v : Value) : Prop := (name, v) ∈ fields

/-- The members are the fields in some order, with others among them that have none of the
names. -/
def Gives (names : List Text) (fields : List (Text × Value)) (members : List (Literal × Value)) :
    Prop :=
  ∃ others named : List (Text × Value), (∀ p ∈ others, p.1 ∉ names) ∧
    named.Perm (fields ++ others) ∧
    List.Forall₂ (fun m p => m.1.Spells p.1 ∧ m.2 = p.2) members named

variable {names : List Text} {fields : List (Text × Value)} {members : List (Literal × Value)}

theorem gives_reread_ofMembers (names : List Text) (fields : List (Text × Value)) :
    Gives names (fields.map fun p => (p.1, p.2.reread))
      (rereadMembers (fields.map fun p => (Literal.ofText p.1, p.2))) := by
  refine ⟨[], _, nofun, by rw [List.append_nil], ?_⟩
  induction fields with
  | nil => exact .nil
  | cons p fields ih => exact .cons ⟨Literal.spells_reread p.1, rfl⟩ ih

theorem decodedKeys?_of_forall₂ {named : List (Text × Value)}
    (h : List.Forall₂ (fun m p => m.1.Spells p.1 ∧ m.2 = p.2) members named) :
    decodedKeys? members = some named := by
  refine mapM_eq_some_iff.mpr (h.imp ?_)
  rintro ⟨k, v⟩ ⟨name, _⟩ ⟨hk, rfl⟩
  show k.text?.map _ = _
  rw [Literal.text?_of_spells hk]
  rfl

theorem filter_eq_lookup (hfields : (fields.map Prod.fst).Nodup) (name : Text) :
    fields.filter (fun p => p.1 = name) =
      ((fields.lookup name).map fun v => (name, v)).toList := by
  induction fields with
  | nil => rfl
  | cons p r ih =>
      obtain ⟨hp, hr⟩ := List.nodup_cons.mp hfields
      by_cases hname : p.1 = name
      · have hnone : r.filter (fun q => q.1 = name) = [] := by
          refine List.filter_eq_nil_iff.mpr fun q hq hqname => hp ?_
          rw [hname, ← of_decide_eq_true hqname]
          exact List.mem_map_of_mem hq
        obtain ⟨n, v⟩ := p
        obtain rfl : n = name := hname
        rw [List.filter_cons_of_pos (by simp), hnone, List.lookup_cons_self]
        rfl
      · have hne : (name == p.1) = false := by simpa using Ne.symm hname
        rw [List.filter_cons_of_neg (by simpa using hname), ih hr, List.lookup_cons, hne]

theorem only?_of_perm {others named : List (Text × Value)}
    (hfields : (fields.map Prod.fst).Nodup) (hothers : ∀ p ∈ others, p.1 ∉ names)
    (hperm : named.Perm (fields ++ others)) {name : Text} (hname : name ∈ names) :
    only? named name = some (fields.lookup name) := by
  have hnone : others.filter (fun p => p.1 = name) = [] := by
    refine List.filter_eq_nil_iff.mpr fun p hp hpname => hothers p hp ?_
    rwa [of_decide_eq_true hpname]
  have hfound := hperm.filter fun p => p.1 = name
  rw [List.filter_append, hnone, List.append_nil, filter_eq_lookup hfields] at hfound
  rw [only?]
  cases hlookup : fields.lookup name with
  | none =>
      rw [hlookup] at hfound
      rw [hfound.eq_nil]
  | some v =>
      rw [hlookup] at hfound
      rw [hfound.eq_singleton]

/-- **Each field is found under its name,** wherever it stands. -/
theorem record?_of_gives (hfields : (fields.map Prod.fst).Nodup)
    (h : Gives names fields members) (least : Nat) :
    record? least names (.object members) = some (names.map fun name => fields.lookup name) := by
  obtain ⟨others, named, hothers, hperm, hnamed⟩ := h
  rw [record?, decodedKeys?_of_forall₂ hnamed, Option.bind_some]
  refine mapM_eq_some_iff.mpr (List.forall₂_map_right_iff.mpr (List.forall₂_same.mpr ?_))
  exact fun name hname => only?_of_perm hfields hothers hperm hname

theorem exists_lookup {name : Text} (h : name ∈ fields.map Prod.fst) :
    ∃ v, fields.lookup name = some v ∧ Holds fields name v := by
  cases hlookup : fields.lookup name with
  | none =>
      rw [List.lookup_eq_none_iff] at hlookup
      obtain ⟨p, hp, rfl⟩ := List.mem_map.mp h
      simpa using hlookup p hp
  | some v =>
      obtain ⟨l, r, rfl, -⟩ := List.lookup_eq_some_iff.mp hlookup
      exact ⟨v, rfl, List.mem_append_right l List.mem_cons_self⟩

theorem field?_lookup {α : Type} {read : Value → Option α} {name : Text} {x : α} (default : α)
    (h : ∀ v, Holds fields name v → read v = some x) :
    field? default read (fields.lookup name) =
      some (if name ∈ fields.map Prod.fst then x else default) := by
  by_cases hname : name ∈ fields.map Prod.fst
  · obtain ⟨v, hlookup, hv⟩ := exists_lookup hname
    rw [hlookup, field?, h v hv, if_pos hname]
  · have hlookup : fields.lookup name = none := by
      refine List.lookup_eq_none_iff.mpr fun p hp => ?_
      have hne : name ≠ p.1 := fun heq => hname (heq ▸ List.mem_map_of_mem hp)
      simpa using hne
    rw [hlookup, field?, if_neg hname]

end Value

end AttributeCss.Json
