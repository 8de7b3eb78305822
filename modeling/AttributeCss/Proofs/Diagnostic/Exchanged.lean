/-
Diagnostics come through their documents.

A document gives a diagnostic if it is an object with its fields as they are, in
any order and any spelling, and with any other members among them (`GivenBy`).
Only an origin that is not known may be left out.  Every such document is read as
the diagnostic (`read?_given`), and the one that is written is one of them.
-/
import Mathlib
import AttributeCss.Diagnostic
import AttributeCss.Proofs.Json.Fields
import AttributeCss.Proofs.Json.Recognized

namespace AttributeCss.Diagnostic

open Json

/-- The fields are those of the diagnostic, each once; an origin that is not known may be
missing. -/
structure Shows (d : Diagnostic) (fields : List (Text × Value)) : Prop where
  known : ∀ p ∈ fields, p.1 ∈ fieldNames
  once : (fields.map Prod.fst).Nodup
  complete : ∀ name ∈ fieldNames,
    name ∈ fields.map Prod.fst ∨ name = "origin" ∧ d.origin = none
  kind : ∀ v, Value.Holds fields "kind" v → v.Denotes d.severity.name
  message : ∀ v, Value.Holds fields "message" v → v.Denotes d.message
  origin : ∀ v, Value.Holds fields "origin" v → v.MayDenote d.origin
  hints : ∀ v, Value.Holds fields "hints" v → v.Lists d.hints

/-- The text is a document that gives the diagnostic. -/
def GivenBy (d : Diagnostic) (t : Text) : Prop :=
  ∃ fields members, d.Shows fields ∧ Value.Gives fieldNames fields members ∧
    (Value.object members).PaddedAs t

theorem ofJson?_severity {v : Value} {severity : Severity} (h : v.Denotes severity.name) :
    Severity.ofJson? v = some severity := by
  obtain ⟨hs⟩ := h
  rw [Severity.ofJson?, Literal.text?_of_spells hs, Option.bind_some, Severity.ofName?_name]

theorem ofJson?_of_gives {d : Diagnostic} {fields : List (Text × Value)}
    {members : List (Literal × Value)} (hfields : d.Shows fields)
    (h : Value.Gives fieldNames fields members) : ofJson? (.object members) = some d := by
  have hpresent : ∀ name ∈ fieldNames, name ≠ "origin" → ∃ v, fields.lookup name = some v ∧
      Value.Holds fields name v := fun name hname hne =>
    Value.exists_lookup ((hfields.complete name hname).resolve_right fun h => hne h.1)
  obtain ⟨kind, hkind, hkindAt⟩ := hpresent "kind" (by decide) (by decide)
  obtain ⟨message, hmessage, hmessageAt⟩ := hpresent "message" (by decide) (by decide)
  obtain ⟨hints, hhints, hhintsAt⟩ := hpresent "hints" (by decide) (by decide)
  have horigin : Value.field? none (Value.nullable? Value.text?)
      (fields.lookup ("origin" : Text)) = some d.origin := by
    rw [Value.field?_lookup none fun v hv => Value.nullable?_of_mayDenote (hfields.origin v hv)]
    split
    · rfl
    · next hmissing =>
        obtain ⟨-, hnone⟩ := (hfields.complete "origin" (by decide)).resolve_left hmissing
        rw [hnone]
  rw [ofJson?, Value.record?_of_gives hfields.once h]
  simp only [fieldNames, List.map_cons, List.map_nil, hkind, hmessage, hhints, bind,
    Option.bind_some, ofJson?_severity (hfields.kind kind hkindAt),
    Value.text?_of_denotes (hfields.message message hmessageAt), horigin,
    Value.texts?_of_lists (hfields.hints hints hhintsAt), pure]

theorem read?_of_givenBy {d : Diagnostic} {t : Text} (h : d.GivenBy t) : read? t = some d := by
  obtain ⟨fields, members, hfields, hgives, ht⟩ := h
  rw [read?, Value.read?_of_paddedAs ht, Option.bind_some, ofJson?_of_gives hfields hgives]

/-! ## What is written -/

/-- The fields as they are written. -/
def fields (d : Diagnostic) : List (Text × Value) :=
  [("kind", .ofText d.severity.name), ("message", .ofText d.message),
    ("origin", originToJson d.origin), ("hints", .array (d.hints.map Value.ofText))]

theorem mayDenote_reread_originToJson (origin : Option Text) :
    (originToJson origin).reread.MayDenote origin := by
  cases origin with
  | none => exact .null
  | some t => exact .text (Value.denotes_reread_ofText t)

theorem shows_reread_fields (d : Diagnostic) :
    d.Shows (d.fields.map fun p => (p.1, p.2.reread)) where
  known := by simp [fields, fieldNames]
  once := by
    show fieldNames.Nodup
    decide
  complete _ hname := Or.inl hname
  kind v hv := by
    obtain rfl : v = (Value.ofText d.severity.name).reread := by
      simpa [Value.Holds, fields] using hv
    exact Value.denotes_reread_ofText _
  message v hv := by
    obtain rfl : v = (Value.ofText d.message).reread := by
      simpa [Value.Holds, fields] using hv
    exact Value.denotes_reread_ofText _
  origin v hv := by
    obtain rfl : v = (originToJson d.origin).reread := by
      simpa [Value.Holds, fields] using hv
    exact mayDenote_reread_originToJson _
  hints v hv := by
    obtain rfl : v = (Value.array (d.hints.map Value.ofText)).reread := by
      simpa [Value.Holds, fields] using hv
    exact Value.lists_reread_ofText _

theorem writable_originToJson (origin : Option Text) : (originToJson origin).Writable := by
  cases origin with
  | none => exact .null
  | some t => exact Value.writable_ofText t

theorem writable_toJson (d : Diagnostic) : d.toJson.Writable := by
  have hhints : (Value.array (d.hints.map Value.ofText)).Writable :=
    .array (List.forall_mem_map.mpr fun t _ => Value.writable_ofText t)
  refine .object (List.forall_mem_map.mpr fun p _ => Literal.sized_ofText p.1)
    (List.forall_mem_map.mpr ?_)
  simp only [List.forall_mem_cons]
  exact ⟨Value.writable_ofText _, Value.writable_ofText _, writable_originToJson _, hhints, nofun⟩

theorem givenBy_write (d : Diagnostic) : d.GivenBy d.write :=
  ⟨_, _, d.shows_reread_fields, Value.gives_reread_ofMembers fieldNames d.fields,
    .of_writtenAs (Value.writtenAs_write d.writable_toJson)⟩

/-- **Diagnostics come through their documents:** the one that is written, and any other that gives
the fields as they are. -/
theorem read?_given (d : Diagnostic) :
    read? d.write = some d ∧ d.GivenBy d.write ∧ ∀ t, d.GivenBy t → read? t = some d :=
  ⟨read?_of_givenBy d.givenBy_write, d.givenBy_write, fun _ => read?_of_givenBy⟩

/-- The fields may come in another order, be spelled by code units and have other members among
them, and an origin that is not known may be left out. -/
theorem read?_given_shuffled :
    let d : Diagnostic := { severity := .warning, message := "😀", hints := ["a", "é"] }
    let t : Text := "\x7b \"hints\": [\"a\", \"\\u00E9\"], \"n\":
      [\x7b\"kind\": \"\\ud800\"\x7d, -1e3],
      \"m\\u0065ssage\": \"\\ud83d\\ude00\", \"kind\": \"warning\"\x7d"
    d.GivenBy t ∧ read? t = some d := by
  intro d t
  let hints : Value := .array [.ofText "a", .string [.code 0xe9]]
  let message : Value := .string [.code 0xd83d, .code 0xde00]
  let kind : Value := .ofText "warning"
  let other : Value := .array [.ofMembers [("kind", .string [.code 0xd800])], .number "-1e3"]
  have hshows : d.Shows [("hints", hints), ("message", message), ("kind", kind)] :=
    { known := by decide
      once := by decide
      complete := by decide
      kind := fun v hv => by
        obtain rfl : v = kind := by simpa [Value.Holds] using hv
        exact .string (Literal.spells_ofText "warning")
      message := fun v hv => by
        obtain rfl : v = message := by simpa [Value.Holds] using hv
        exact .string (.code (c := '😀') .nil)
      origin := fun v hv => by simp [Value.Holds] at hv
      hints := fun v hv => by
        obtain rfl : v = hints := by simpa [Value.Holds] using hv
        exact .array (.cons (.string (Literal.spells_ofText "a"))
          (.cons (.string (.code (c := 'é') .nil)) .nil)) }
  let members : List (Literal × Value) :=
    [(Literal.ofText "hints", hints), (Literal.ofText "n", other),
      (.char 'm' :: .code 0x65 :: Literal.ofText "ssage", message),
      (Literal.ofText "kind", kind)]
  have hgives : Value.Gives fieldNames
      [("hints", hints), ("message", message), ("kind", kind)] members := by
    refine ⟨[("n", other)], [("hints", hints), ("n", other), ("message", message), ("kind", kind)],
      by decide, .cons _ (List.perm_append_singleton _ _).symm, ?_⟩
    exact .cons ⟨Literal.spells_ofText "hints", rfl⟩ (.cons ⟨Literal.spells_ofText "n", rfl⟩
      (.cons ⟨.char (.code (c := 'e') (Literal.spells_ofText "ssage")), rfl⟩
        (.cons ⟨Literal.spells_ofText "kind", rfl⟩ .nil)))
  have hread : Value.read? t = some (.object members) := by
    subst t members hints message kind other
    cbv
  have hgiven : d.GivenBy t := ⟨_, _, hshows, hgives, Value.read?_eq_some_iff.mp hread⟩
  exact ⟨hgiven, (read?_given d).2.2 t hgiven⟩

end AttributeCss.Diagnostic
