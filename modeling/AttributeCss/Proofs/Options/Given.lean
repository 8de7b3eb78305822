/-
Options given by a package document.

The document is an object whose field holds an object with some of the options,
each as it is, in any order and any spelling.  Both objects may have any other
members, whatever those hold (`GivenBy`).  The options that are read have the
values given and the defaults for the rest (`ofDocument_given`).
-/
import Mathlib
import AttributeCss.Options.Document
import AttributeCss.Proofs.Json.Fields
import AttributeCss.Proofs.Json.Recognized

namespace AttributeCss.Options

open Json

/-- The fields hold options as they are, each at most once. -/
structure Shows (o : Options) (fields : List (Text × Value)) : Prop where
  known : ∀ p ∈ fields, p.1 ∈ fieldNames
  once : (fields.map Prod.fst).Nodup
  marker : ∀ v, Value.Holds fields "prefix" v → v.Denotes o.marker
  pseudos : ∀ v, Value.Holds fields "pseudos" v → v.Lists o.pseudos
  requireTemplate : ∀ v, Value.Holds fields "requireTemplate" v → v = .bool o.requireTemplate
  cacheFile : ∀ v, Value.Holds fields "cacheFile" v → v.MayDenote o.cacheFile

/-- The text is a package document that gives the named options as they are, and no others. -/
def GivenBy (o : Options) (names : List Text) (t : Text) : Prop :=
  ∃ fields inner outer, o.Shows fields ∧ fields.map Prod.fst = names ∧
    Value.Gives fieldNames fields inner ∧
    Value.Gives [packageField] [(packageField, .object inner)] outer ∧
    (Value.object outer).PaddedAs t

/-- The options that are named, and the defaults of the others. -/
def only (o : Options) (names : List Text) : Options :=
  let defaults : Options := {}
  { marker := if ("prefix" : Text) ∈ names then o.marker else defaults.marker
    pseudos := if ("pseudos" : Text) ∈ names then o.pseudos else defaults.pseudos
    requireTemplate :=
      if ("requireTemplate" : Text) ∈ names then o.requireTemplate else defaults.requireTemplate
    cacheFile := if ("cacheFile" : Text) ∈ names then o.cacheFile else defaults.cacheFile }

theorem check_only {o : Options} (ho : o.check = .ok ()) (names : List Text) :
    (o.only names).check = .ok () := by
  obtain ⟨hmarker, hpseudos⟩ := check_eq_ok_iff.mp ho
  refine check_eq_ok_iff.mpr ⟨?_, ?_⟩
  · show (if ("prefix" : Text) ∈ names then o.marker else "xe") ≠ []
    split
    · exact hmarker
    · decide
  · show ∀ s ∈ if ("pseudos" : Text) ∈ names then o.pseudos else ["focus", "hover"],
      isPseudoName s = true
    split
    · exact hpseudos
    · decide

theorem ofJson?_of_gives {o : Options} {fields : List (Text × Value)}
    {members : List (Literal × Value)} (hfields : o.Shows fields)
    (h : Value.Gives fieldNames fields members) :
    ofJson? (.object members) = some (o.only (fields.map Prod.fst)) := by
  have hmarker : Value.field? ({} : Options).marker Value.text? (fields.lookup ("prefix" : Text)) =
      some (o.only (fields.map Prod.fst)).marker :=
    Value.field?_lookup _ fun v hv => Value.text?_of_denotes (hfields.marker v hv)
  have hpseudos : Value.field? ({} : Options).pseudos Value.texts?
      (fields.lookup ("pseudos" : Text)) = some (o.only (fields.map Prod.fst)).pseudos :=
    Value.field?_lookup _ fun v hv => Value.texts?_of_lists (hfields.pseudos v hv)
  have hrequire : Value.field? ({} : Options).requireTemplate Value.bool?
      (fields.lookup ("requireTemplate" : Text)) =
        some (o.only (fields.map Prod.fst)).requireTemplate := by
    refine Value.field?_lookup _ fun v hv => ?_
    rw [hfields.requireTemplate v hv, Value.bool?]
  have hcache : Value.field? ({} : Options).cacheFile (Value.nullable? Value.text?)
      (fields.lookup ("cacheFile" : Text)) = some (o.only (fields.map Prod.fst)).cacheFile :=
    Value.field?_lookup _ fun v hv => Value.nullable?_of_mayDenote (hfields.cacheFile v hv)
  rw [ofJson?, Value.record?_of_gives hfields.once h]
  simp only [fieldNames, List.map_cons, List.map_nil, bind, Option.bind_some, hmarker, hpseudos,
    hrequire, hcache, pure]

theorem ofPackage?_of_gives {o : Options} {fields : List (Text × Value)}
    {inner outer : List (Literal × Value)} (hfields : o.Shows fields)
    (hinner : Value.Gives fieldNames fields inner)
    (houter : Value.Gives [packageField] [(packageField, .object inner)] outer) :
    ofPackage? (.object outer) = some (o.only (fields.map Prod.fst)) := by
  have hread : Value.nullable? ofJson? (.object inner) =
      some (some (o.only (fields.map Prod.fst))) := by
    rw [Value.nullable?, ofJson?_of_gives hfields hinner, Option.map_some]
    nofun
  rw [ofPackage?, Value.record?_of_gives (by simp) houter]
  simp only [List.map_cons, List.map_nil, List.lookup_cons_self, bind, Option.bind_some,
    Value.field?, hread, pure, Option.getD_some]

theorem check_of_ofDocument {t : Text} {o : Options} (h : ofDocument t = .ok o) :
    o.check = .ok () := by
  unfold ofDocument at h
  split at h
  · cases h
  · next o' _ =>
      cases hcheck : o'.check with
      | error e =>
          rw [hcheck] at h
          cases h
      | ok u =>
          rw [hcheck] at h
          obtain rfl := Except.ok.inj h
          exact hcheck

/-- **Options come through their document:** those that are given are read as they are, whatever
else the document holds, the others are the defaults, and nothing is read that is not accepted. -/
theorem ofDocument_given :
    (∀ (o : Options) (names : List Text) (t : Text), o.check = .ok () → o.GivenBy names t →
        ofDocument t = .ok (o.only names)) ∧
      ∀ (t : Text) (o : Options), ofDocument t = .ok o → o.check = .ok () := by
  refine ⟨?_, fun _ _ => check_of_ofDocument⟩
  rintro o names t ho ⟨fields, inner, outer, hfields, rfl, hinner, houter, ht⟩
  rw [ofDocument, Value.read?_of_paddedAs ht, Option.bind_some,
    ofPackage?_of_gives hfields hinner houter]
  dsimp only
  rw [check_only ho]
  rfl

/-- Two options are given behind a member that says nothing, one of them spelled by a code unit. -/
theorem ofDocument_given_some :
    let o : Options := { marker := "ä", pseudos := ["active"], cacheFile := some "c.json" }
    let t : Text := "\x7b\"name\": \"\\ud800\", \"xeCss\": \x7b \"x\": [[null]],
      \"cacheFile\": \"c.json\", \"pre\\u0066ix\": \"\\u00e4\"\x7d\x7d"
    o.GivenBy ["cacheFile", "prefix"] t ∧
      ofDocument t = .ok { marker := "ä", cacheFile := some "c.json" } ∧
      check { marker := "ä", cacheFile := some "c.json" } = .ok () := by
  intro o t
  let marker : Value := .string [.code 0xe4]
  let cacheFile : Value := .ofText "c.json"
  let inner : List (Literal × Value) :=
    [(Literal.ofText "x", .array [.array [.null]]), (Literal.ofText "cacheFile", cacheFile),
      (Literal.ofText "pre" ++ .code 0x66 :: Literal.ofText "ix", marker)]
  let outer : List (Literal × Value) :=
    [(Literal.ofText "name", .string [.code 0xd800]), (Literal.ofText "xeCss", .object inner)]
  have hshows : o.Shows [("cacheFile", cacheFile), ("prefix", marker)] :=
    { known := by decide
      once := by decide
      marker := fun v hv => by
        obtain rfl : v = marker := by simpa [Value.Holds] using hv
        exact .string (.code (c := 'ä') .nil)
      pseudos := fun v hv => by simp [Value.Holds] at hv
      requireTemplate := fun v hv => by simp [Value.Holds] at hv
      cacheFile := fun v hv => by
        obtain rfl : v = cacheFile := by simpa [Value.Holds] using hv
        exact .text (.string (Literal.spells_ofText "c.json")) }
  have hinner : Value.Gives fieldNames [("cacheFile", cacheFile), ("prefix", marker)] inner := by
    have hspelled : Literal.Spells (Literal.ofText "pre" ++ .code 0x66 :: Literal.ofText "ix")
        "prefix" :=
      .char (.char (.char (.code (c := 'f') (Literal.spells_ofText "ix"))))
    refine ⟨[("x", .array [.array [.null]])],
      [("x", .array [.array [.null]]), ("cacheFile", cacheFile), ("prefix", marker)],
      by decide, (List.perm_append_singleton _ _).symm, ?_⟩
    exact .cons ⟨Literal.spells_ofText "x", rfl⟩
      (.cons ⟨Literal.spells_ofText "cacheFile", rfl⟩ (.cons ⟨hspelled, rfl⟩ .nil))
  have houter : Value.Gives [packageField] [(packageField, .object inner)] outer := by
    refine ⟨[("name", .string [.code 0xd800])],
      [("name", .string [.code 0xd800]), (packageField, .object inner)],
      by decide, (List.perm_append_singleton _ _).symm, ?_⟩
    exact .cons ⟨Literal.spells_ofText "name", rfl⟩
      (.cons ⟨Literal.spells_ofText "xeCss", rfl⟩ .nil)
  have hread : Value.read? t = some (.object outer) := by
    subst t outer inner cacheFile marker
    cbv
  have hgiven : o.GivenBy ["cacheFile", "prefix"] t :=
    ⟨_, inner, outer, hshows, rfl, hinner, houter, Value.read?_eq_some_iff.mp hread⟩
  have ho : o.check = .ok () := by decide
  have hdocument := ofDocument_given.1 o _ t ho hgiven
  exact ⟨hgiven, hdocument, ofDocument_given.2 t _ hdocument⟩

end AttributeCss.Options
