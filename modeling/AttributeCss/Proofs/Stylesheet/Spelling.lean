/-
All spellings of a declaration ask for the same.

The two parts of a token can be written in four ways (`Spelling`), with a
pseudo-class before the attribute name, before the value, or before none:

    xe-m-10    xe-m="10"    xe="m-10"    xe:10="m"

A marker may hold colons and dashes, and it may stand inside the name of a
pseudo-class, as `o` does in `focus`.  Then a segment is seen behind it that
none was meant to be (`Vocabulary.isAppended`), which does no harm: of a name
that has lost marker and pseudo-class no segment is left to move, unless it
was spelled with one.
-/
import AttributeCss.Proofs.Session.Stability
import AttributeCss.Proofs.Vocabulary.Literal

namespace AttributeCss

/-- What a token is made of: something that no cut falls into. -/
structure IsPart (t : Text) : Prop where
  ne_nil : t ≠ []
  colon : ':' ∉ t
  equals : '=' ∉ t
  space : ' ' ∉ t
  lineBreak : '\n' ∉ t

/-- Where the two parts of a token stand in an attribute. -/
inductive Spelling where
  /-- Both in the name. -/
  | whole
  /-- The first in the name, the second in the value. -/
  | named
  /-- Both in the value. -/
  | valued
  /-- The first in the value, the second in an appended segment of the name. -/
  | appended
deriving DecidableEq, Repr

/-- A text with a pseudo-class before it, or with none. -/
def withPseudo (pseudo : Option Text) (t : Text) : Text :=
  match pseudo with
  | none => t
  | some s => s ++ ':' :: t

namespace Spelling

variable (sp : Spelling) (a b : Text)

/-- What stands in the name behind the marker. -/
def behindMarker : Text :=
  match sp with
  | whole => '-' :: a ++ '-' :: b
  | named => '-' :: a
  | valued => []
  | appended => ':' :: b

/-- The value, without a pseudo-class. -/
def bareValue : Text :=
  match sp with
  | whole => []
  | named => b
  | valued => a ++ '-' :: b
  | appended => a

/-- The attribute name, with a pseudo-class before it or with none. -/
def name (marker : Text) (pseudo : Option Text) : Text :=
  withPseudo pseudo (marker ++ sp.behindMarker a b)

/-- The attribute value, with a pseudo-class before it or with none. -/
def value (pseudo : Option Text) : Text := withPseudo pseudo (sp.bareValue a b)

end Spelling

theorem exists_withPseudo (pseudo : Option Text) : ∃ lead, ∀ t, withPseudo pseudo t = lead ++ t := by
  cases pseudo with
  | none => exact ⟨[], fun _ => rfl⟩
  | some s => exact ⟨s ++ [':'], fun t => by simp [withPseudo]⟩

theorem notMem_withPseudo {pseudo : Option Text} (hpseudo : ∀ s ∈ pseudo, isPseudoName s = true)
    {t : Text} {c : Char} (hc : isPseudoNameChar c = false) (hcolon : c ≠ ':') (ht : c ∉ t) :
    c ∉ withPseudo pseudo t := by
  cases pseudo with
  | none => exact ht
  | some s =>
      intro hmem
      rcases List.mem_append.mp hmem with hmem | hmem
      · simp [isPseudoNameChar_of_mem (hpseudo s rfl) hmem] at hc
      · exact ht ((List.mem_cons.mp hmem).resolve_left hcolon)

namespace Spelling

variable {sp : Spelling} {a b : Text} {c : Char}

theorem notMem_behindMarker (ha : c ∉ a) (hb : c ∉ b) (hdash : c ≠ '-') (hcolon : c ≠ ':') :
    c ∉ sp.behindMarker a b := by
  cases sp <;> simp [behindMarker, ha, hb, hdash, hcolon]

theorem notMem_bareValue (ha : c ∉ a) (hb : c ∉ b) (hdash : c ≠ '-') :
    c ∉ sp.bareValue a b := by
  cases sp <;> simp [bareValue, ha, hb, hdash]

theorem equals_notMem_name (ha : IsPart a) (hb : IsPart b) {marker : Text} (hmarker : '=' ∉ marker)
    {pseudo : Option Text} (hpseudo : ∀ s ∈ pseudo, isPseudoName s = true) :
    '=' ∉ sp.name a b marker pseudo := by
  refine notMem_withPseudo hpseudo (by decide) (by decide) fun hmem => ?_
  rcases List.mem_append.mp hmem with hmem | hmem
  · exact hmarker hmem
  · exact notMem_behindMarker ha.equals hb.equals (by decide) (by decide) hmem

theorem notMem_value (ha : c ∉ a) (hb : c ∉ b) (hc : isPseudoNameChar c = false) (hcolon : c ≠ ':')
    {pseudo : Option Text} (hpseudo : ∀ s ∈ pseudo, isPseudoName s = true) :
    c ∉ sp.value a b pseudo := by
  refine notMem_withPseudo hpseudo hc hcolon (notMem_bareValue ha hb ?_)
  rintro rfl
  exact absurd hc (by decide)

end Spelling

/-! ## Classified -/

namespace Vocabulary

variable {v : Vocabulary}

theorem nameFacets_marker (tail : Text) :
    v.nameFacets (v.marker ++ tail) = { marked := true } := by
  rw [nameFacets, if_pos (List.isPrefixOf_iff_prefix.mpr (List.prefix_append _ _))]

/-- A marker that does not start the name it stands in behind a pseudo-class. -/
theorem not_prefix_append {s marker : Text} (h : ¬ marker <+: s ++ ':' :: marker) (tail : Text) :
    ¬ marker <+: s ++ ':' :: (marker ++ tail) := by
  intro hprefix
  have hshort : s ++ ':' :: marker <+: s ++ ':' :: (marker ++ tail) := ⟨tail, by simp⟩
  refine h (List.prefix_of_prefix_length_le hprefix hshort ?_)
  rw [List.length_append, List.length_cons]
  omega

theorem nameFacets_pseudo {s : Text} (hs : s ∈ v.pseudos)
    (h : ¬ v.marker <+: s ++ ':' :: v.marker) (tail : Text) :
    v.nameFacets (s ++ ':' :: (v.marker ++ tail)) = { pseudo := true } := by
  have hunmarked : ¬ v.marker.isPrefixOf (s ++ ':' :: (v.marker ++ tail)) = true := by
    rw [List.isPrefixOf_iff_prefix]
    exact not_prefix_append h tail
  rw [nameFacets, if_neg hunmarked, if_pos (startsWithPseudo_iff.mpr ⟨s, hs, _, rfl⟩)]

theorem isDeclaration_nameFacets {pseudo : Option Text}
    (hpseudo : ∀ s ∈ pseudo, s ∈ v.pseudos)
    (hmarker : ∀ s ∈ pseudo, ¬ v.marker <+: s ++ ':' :: v.marker) (tail : Text) :
    (v.nameFacets (withPseudo pseudo (v.marker ++ tail))).isDeclaration = true := by
  cases pseudo with
  | none =>
      rw [withPseudo, nameFacets_marker]
      rfl
  | some s =>
      rw [withPseudo, nameFacets_pseudo (hpseudo s rfl) (hmarker s rfl)]
      rfl

theorem startsWithPseudo_of_colon {t : Text} (h : ':' ∉ t) : v.startsWithPseudo t = false := by
  rw [Bool.eq_false_iff]
  intro hstarts
  obtain ⟨s, -, rest, rfl⟩ := startsWithPseudo_iff.mp hstarts
  simp at h

end Vocabulary

/-! ## Normalized -/

namespace Utility

theorem withoutMarker_append (marker tail : Text) :
    withoutMarker marker (marker ++ tail) = dropDash tail := by
  rw [withoutMarker, Text.behind?_append]

theorem withoutMarker_pseudo {marker s : Text} (hs : ':' ∉ s)
    (h : ¬ marker <+: s ++ ':' :: marker) (tail : Text) :
    withoutMarker marker (s ++ ':' :: (marker ++ tail)) = s ++ ':' :: dropDash tail := by
  rw [withoutMarker, Text.behind?_eq_none (Vocabulary.not_prefix_append h tail)]
  simp only [Text.cutFirst_append _ hs, Text.behind?_append]

variable {v : Vocabulary}

theorem takePseudo_name {pseudo : Option Text} (hpseudo : ∀ s ∈ pseudo, s ∈ v.pseudos)
    (hmarker : ∀ s ∈ pseudo, ¬ v.marker <+: s ++ ':' :: v.marker) (tail : Text) :
    takePseudo (v.nameFacets (withPseudo pseudo (v.marker ++ tail))).pseudo
      (withoutMarker v.marker (withPseudo pseudo (v.marker ++ tail))) =
        (pseudo, dropDash tail) := by
  cases pseudo with
  | none =>
      rw [withPseudo, Vocabulary.nameFacets_marker, withoutMarker_append, takePseudo_false]
  | some s =>
      have hs : s ∈ v.pseudos := hpseudo s rfl
      have hnamed : isPseudoName s = true := v.pseudos_named s hs
      rw [withPseudo, Vocabulary.nameFacets_pseudo hs (hmarker s rfl),
        withoutMarker_pseudo (colon_notMem_of_isPseudoName hnamed) (hmarker s rfl),
        takePseudo_of_isPseudoName hnamed]

theorem takePseudo_value {pseudo : Option Text} (hpseudo : ∀ s ∈ pseudo, s ∈ v.pseudos)
    {bare : Text} (hbare : ':' ∉ bare) :
    takePseudo (v.startsWithPseudo (withPseudo pseudo bare)) (withPseudo pseudo bare) =
      (pseudo, bare) := by
  cases pseudo with
  | none => rw [withPseudo, Vocabulary.startsWithPseudo_of_colon hbare, takePseudo_false]
  | some s =>
      have hs : s ∈ v.pseudos := hpseudo s rfl
      rw [withPseudo, Vocabulary.startsWithPseudo_iff.mpr ⟨s, hs, bare, rfl⟩,
        takePseudo_of_isPseudoName (v.pseudos_named s hs)]

theorem moveSegment_of_colon {name : Text} (h : ':' ∉ name) (appended : Bool) (value : Text) :
    moveSegment appended name value = (name, value) := by
  have hcut : cutSegment name = none := by rw [cutSegment, Text.cutLast_eq_none.mpr h]; rfl
  cases appended <;> simp [moveSegment, hcut]

theorem moveSegment_segment (a : Text) {b : Text} (hne : b ≠ []) (h : ':' ∉ b) (value : Text) :
    moveSegment true (a ++ ':' :: b) value = (a, value ++ '-' :: b) := by
  have hcut : cutSegment (a ++ ':' :: b) = some (a, b) :=
    Option.filter_eq_some_iff.mpr ⟨Text.cutLast_append a h, by simpa using hne⟩
  simp [moveSegment, hcut]

theorem hyphenated_of_ne {name value : Text} (hname : name ≠ []) (hvalue : value ≠ []) :
    hyphenated name value = name ++ '-' :: value := by
  simp [hyphenated, hname, hvalue]

theorem hyphenated_nil_left (value : Text) : hyphenated [] value = value := rfl

theorem hyphenated_nil_right (name : Text) : hyphenated name [] = name := by
  simp [hyphenated]

/-- The parts come together, whichever way they were spelled.  A segment may be seen that was not
meant to be one, but then there is none to move. -/
theorem hyphenated_moveSegment (sp : Spelling) {a b : Text} (ha : IsPart a) (hb : IsPart b)
    {appended : Bool} (happended : sp = .appended → appended = true) :
    let moved := moveSegment appended (dropDash (sp.behindMarker a b)) (sp.bareValue a b)
    hyphenated moved.1 moved.2 = a ++ '-' :: b := by
  intro moved
  cases sp with
  | whole =>
      have hcolon : ':' ∉ a ++ '-' :: b := by simp [ha.colon, hb.colon]
      have hmoved : moved = (a ++ '-' :: b, []) := moveSegment_of_colon hcolon appended []
      rw [hmoved, hyphenated_nil_right]
  | named =>
      have hmoved : moved = (a, b) := moveSegment_of_colon ha.colon appended b
      rw [hmoved, hyphenated_of_ne ha.ne_nil hb.ne_nil]
  | valued =>
      have hmoved : moved = ([], a ++ '-' :: b) :=
        moveSegment_of_colon List.not_mem_nil appended (a ++ '-' :: b)
      rw [hmoved, hyphenated_nil_left]
  | appended =>
      obtain rfl := happended rfl
      have hmoved : moved = ([], a ++ '-' :: b) := moveSegment_segment [] hb.ne_nil hb.colon a
      rw [hmoved, hyphenated_nil_left]

/-- What a spelling asks for, with the facets its name and value say it has. -/
theorem ofEntry_spelling {v : Vocabulary} (hmarker : '=' ∉ v.marker) (sp : Spelling) {a b : Text}
    (ha : IsPart a) (hb : IsPart b) {before inValue : Option Text}
    (hbefore : ∀ s ∈ before, s ∈ v.pseudos ∧ ¬ v.marker <+: s ++ ':' :: v.marker)
    (hvalue : ∀ s ∈ inValue, s ∈ v.pseudos) {f : Facets}
    (hf : f.unlisted = v.ownFacets (sp.name a b v.marker before) (sp.value a b inValue)) :
    ofEntry v.marker ⟨Entry.keyOf (sp.name a b v.marker before) (sp.value a b inValue), f⟩ =
      ⟨a ++ '-' :: b, inValue.or before⟩ := by
  generalize hname : sp.name a b v.marker before = name at hf ⊢
  generalize hval : sp.value a b inValue = value at hf ⊢
  have hsplit : Entry.splitKey (Entry.keyOf name value) = (name, value) := by
    rw [← hname]
    exact Entry.splitKey_keyOf value (Spelling.equals_notMem_name ha hb hmarker
      fun s hs => v.pseudos_named s (hbefore s hs).1)
  have hentryName : (⟨Entry.keyOf name value, f⟩ : Entry).name = name := congrArg Prod.fst hsplit
  have hentryValue : (⟨Entry.keyOf name value, f⟩ : Entry).value = value :=
    congrArg Prod.snd hsplit
  obtain ⟨hpseudo, hvaluePseudo, hsegment⟩ := Vocabulary.facets_of_unlisted_eq hf
  have htakeName : takePseudo (v.nameFacets name).pseudo (withoutMarker v.marker name) =
      (before, dropDash (sp.behindMarker a b)) :=
    hname ▸ takePseudo_name (fun s hs => (hbefore s hs).1) (fun s hs => (hbefore s hs).2) _
  have htakeValue : takePseudo (v.startsWithPseudo value) value = (inValue, sp.bareValue a b) :=
    hval ▸ takePseudo_value hvalue (Spelling.notMem_bareValue ha.colon hb.colon (by decide))
  have happended : sp = .appended → f.appended = true := by
    rintro rfl
    obtain ⟨lead, hlead⟩ := exists_withPseudo before
    have hwritten : name = lead ++ (v.marker ++ ':' :: b) := by rw [← hlead, ← hname]; rfl
    rw [hsegment, hwritten]
    have htail : Vocabulary.hasSegment (':' :: b) = true :=
      Vocabulary.hasSegment_append List.not_mem_nil hb.ne_nil hb.lineBreak
    exact Vocabulary.isAppended_iff.mpr ⟨lead, _, rfl, htail⟩
  simp only [ofEntry, hentryName, hentryValue, hpseudo, hvaluePseudo, htakeName, htakeValue,
    hyphenated_moveSegment sp ha hb happended]

end Utility

/-! ## Collected -/

theorem Entry.keyOf_inj {name value name' value' : Text} (hname : '=' ∉ name)
    (hvalue : '=' ∉ value) (h : keyOf name' value' = keyOf name value) :
    name' = name ∧ value' = value := by
  have hcount : (keyOf name' value').count '=' = 1 := by
    rw [h]
    simp [keyOf, List.count_eq_zero_of_not_mem hname, List.count_eq_zero_of_not_mem hvalue]
  have hname' : '=' ∉ name' := by
    rw [keyOf, List.count_append, List.count_cons_self] at hcount
    exact List.count_eq_zero.mp (by omega)
  have hsplit : splitKey (keyOf name' value') = splitKey (keyOf name value) := congrArg splitKey h
  rw [splitKey_keyOf value' hname', splitKey_keyOf value hname] at hsplit
  exact Prod.mk.inj hsplit

namespace Vocabulary

variable (v : Vocabulary)

/-- The occurrences among attributes. -/
def classified (attributes : List (Text × Text)) : List Occurrence :=
  attributes.filterMap fun (name, value) => Occurrence.of? v name value

/-- The registry after attributes were classified and collected one after the other. -/
def collected (attributes : List (Text × Text)) : Registry :=
  ((v.classified attributes).foldl Session.mergeOne (0, .empty v)).2

variable {v}

/-- What is seen for a key after collecting: all facets contributed for it. -/
theorem get?_collected_eq (attributes : List (Text × Text)) (k : Text) :
    let cs : Snapshot := (v.classified attributes).flatMap (Occurrence.contributions v)
    (v.collected attributes).get? k =
      if k ∈ cs.map Prod.fst then some (cs.facetsOf k) else none := by
  intro cs
  have hseen : (v.collected attributes).seen = ((Registry.empty v).load cs).seen :=
    (Session.seen_foldl_mergeOne (v.classified attributes) (0, .empty v)).2
  have hget := Registry.get?_load (Registry.empty v) cs k
  have hnone : (Registry.empty v).get? k = none := rfl
  rw [hnone, Option.getD_none, Facets.none_union] at hget
  exact (congrArg (·.get? k) hseen).trans hget

/-- A value that an attribute is counted for is collected, and listed if the attribute is; and where
name and value can be told from the key, with the facets they say they have and no others. -/
theorem get?_collected_of_counted {attributes : List (Text × Text)} {name value : Text}
    {o : Occurrence} (hmem : (name, value) ∈ attributes) (ho : Occurrence.of? v name value = some o)
    {w : Text} (hw : w ∈ Registry.valuesOf value o.facets) :
    ∃ f, (v.collected attributes).get? (Entry.keyOf name w) = some f ∧
      (o.facets.listed = true → f.listed = true) ∧
      ('=' ∉ name → '=' ∉ w → f.unlisted = v.ownFacets name w) := by
  let cs : Snapshot := (v.classified attributes).flatMap (Occurrence.contributions v)
  have hcontributed : (Entry.keyOf name w, o.facets ∪ v.valueFacets w) ∈ cs := by
    have hclassified : o ∈ v.classified attributes :=
      List.mem_filterMap.mpr ⟨(name, value), hmem, ho⟩
    refine List.mem_flatMap.mpr ⟨o, hclassified, Occurrence.mem_contributions.mpr ⟨w, ?_, ?_, rfl⟩⟩
    · rwa [Occurrence.eq_of_of? ho] at hw ⊢
    · rw [Occurrence.eq_of_of? ho]
  have hkey : Entry.keyOf name w ∈ cs.map Prod.fst := List.mem_map_of_mem hcontributed
  refine ⟨cs.facetsOf (Entry.keyOf name w), ?_, ?_, ?_⟩
  · rw [get?_collected_eq, if_pos hkey]
  · intro hlisted
    refine (Snapshot.facetsOf_eq_true_iff Facets.listed rfl fun _ _ => rfl).mpr
      ⟨_, hcontributed, ?_⟩
    show (o.facets.listed || _) = true
    rw [hlisted, Bool.true_or]
  · intro hname hvalue
    refine Snapshot.unlisted_facetsOf hkey fun f hf => ?_
    obtain ⟨o', ho', hone⟩ := List.mem_flatMap.mp hf
    obtain ⟨⟨n, x⟩, -, hof⟩ := List.mem_filterMap.mp ho'
    obtain ⟨w', -, heq, rfl⟩ := Occurrence.mem_contributions.mp hone
    obtain ⟨hn, rfl⟩ := Entry.keyOf_inj hname hvalue heq.symm
    rw [Occurrence.eq_of_of? hof] at hn ⊢
    obtain rfl := hn
    rfl

/-- An attribute whose key has one equals sign is collected with the facets its name and value say
it has, whatever else is collected; it may be listed besides. -/
theorem get?_collected {attributes : List (Text × Text)} {name value : Text} {o : Occurrence}
    (hmem : (name, value) ∈ attributes) (ho : Occurrence.of? v name value = some o)
    (hname : '=' ∉ name) (hvalue : '=' ∉ value) (hspace : ' ' ∉ value) :
    ∃ f, (v.collected attributes).get? (Entry.keyOf name value) = some f ∧
      f.unlisted = v.ownFacets name value := by
  have hlisted : o.facets.listed = false := by
    simpa [hspace] using (Occurrence.facets_of_of? ho).1
  have hcounted : value ∈ Registry.valuesOf value o.facets := by
    rw [Registry.valuesOf, hlisted]
    exact List.mem_singleton_self value
  obtain ⟨f, hget, -, hfacets⟩ := get?_collected_of_counted hmem ho hcounted
  exact ⟨f, hget, hfacets hname hvalue⟩

end Vocabulary

/-- **All spellings of a declaration ask for the same.**  Whatever attributes are collected, one
that spells the parts `a` and `b` is an entry for the token `a-b`, under the pseudo-class before its
value, or else before its name, or else under none. -/
theorem Utility.ofEntry_collected {o : Options} {v : Vocabulary} (haccepted : o.vocabulary = .ok v)
    (hmarker : '=' ∉ o.marker) (sp : Spelling) {a b : Text} (ha : IsPart a) (hb : IsPart b)
    {before inValue : Option Text}
    (hbefore : ∀ s ∈ before, s ∈ o.pseudos ∧ ¬ o.marker <+: s ++ ':' :: o.marker)
    (hvalue : ∀ s ∈ inValue, s ∈ o.pseudos) {attributes : List (Text × Text)}
    (hmem : (sp.name a b o.marker before, sp.value a b inValue) ∈ attributes) :
    ∃ e ∈ (v.collected attributes).entries,
      e.key = Entry.keyOf (sp.name a b o.marker before) (sp.value a b inValue) ∧
      Utility.ofEntry o.marker e = ⟨a ++ '-' :: b, inValue.or before⟩ := by
  obtain ⟨hm, hp⟩ := Options.eq_of_vocabulary haccepted
  rw [← hm] at hmarker hbefore hmem ⊢
  rw [← hp] at hbefore hvalue
  have hnamed : ∀ s ∈ before, isPseudoName s = true :=
    fun s hs => v.pseudos_named s (hbefore s hs).1
  have hvalueNamed : ∀ s ∈ inValue, isPseudoName s = true :=
    fun s hs => v.pseudos_named s (hvalue s hs)
  obtain ⟨occurrence, hclassified⟩ : ∃ occurrence, Occurrence.of? v (sp.name a b v.marker before)
      (sp.value a b inValue) = some occurrence := by
    have hdeclares := Vocabulary.isDeclaration_nameFacets (fun s hs => (hbefore s hs).1)
      (fun s hs => (hbefore s hs).2) (sp.behindMarker a b)
    exact ⟨_, if_pos hdeclares⟩
  obtain ⟨f, hget, hfacets⟩ := Vocabulary.get?_collected hmem hclassified
    (Spelling.equals_notMem_name ha hb hmarker hnamed)
    (Spelling.notMem_value ha.equals hb.equals (by decide) (by decide) hvalueNamed)
    (Spelling.notMem_value ha.space hb.space (by decide) (by decide) hvalueNamed)
  refine ⟨⟨_, f⟩, Registry.mem_entries_of_get? hget, rfl, ?_⟩
  exact Utility.ofEntry_spelling hmarker sp ha hb hbefore hvalue hfacets

/-- The marker stands in the name of the pseudo-class too, and a declaration without segment is
collected beside the one with a segment. -/
theorem Utility.ofEntry_collected_marker_in_pseudo :
    let o : Options := { marker := "o", pseudos := ["focus"] }
    ∃ v, o.vocabulary = .ok v ∧
      ∃ e ∈ (v.collected [("focus:o-m", "10"), ("focus:o:10", "m")]).entries,
        e.key = "focus:o:10=m".toList ∧
          Utility.ofEntry o.marker e = ⟨"m-10".toList, some "focus".toList⟩ := by
  intro o
  have ha : IsPart "m".toList := by constructor <;> decide
  have hb : IsPart "10".toList := by constructor <;> decide
  have hbefore : ∀ s ∈ some "focus".toList,
      s ∈ o.pseudos ∧ ¬ o.marker <+: s ++ ':' :: o.marker := by
    rintro s ⟨⟩
    decide
  let v : Vocabulary := ⟨"o", ["focus"], by decide, by decide⟩
  have haccepted : o.vocabulary = .ok v := rfl
  have hvalue : ∀ s ∈ (none : Option Text), s ∈ o.pseudos := by simp
  exact ⟨v, haccepted, Utility.ofEntry_collected haccepted (by decide) .appended ha hb hbefore hvalue
    (List.mem_cons_of_mem _ List.mem_cons_self)⟩

end AttributeCss
