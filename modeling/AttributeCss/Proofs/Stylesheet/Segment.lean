/-
What an appended segment is joined to.

A segment of the name is put behind the value, with a dash before it, and the
name before that, with another dash.  The first dash is written without a look
at the value.  So the parts come together as they should where there is a value
(`token_of_segment`); where there is none, the token has a dash too many, and
a number behind it is read as a negative one:

    xe-m:10    m--10    margin:-10px
-/
import AttributeCss.Proofs.Stylesheet.Spelling
import AttributeCss.Rule.Builtin

namespace AttributeCss

/-- The name of an attribute with an appended segment, behind a part of its own or behind none. -/
def segmentName (marker part segment : Text) : Text :=
  marker ++ ((if part = [] then [] else '-' :: part) ++ ':' :: segment)

/-- A text that no cut falls into; it may be empty. -/
structure IsUncut (t : Text) : Prop where
  colon : ':' ∉ t
  equals : '=' ∉ t
  space : ' ' ∉ t
  lineBreak : '\n' ∉ t

theorem equals_notMem_segmentName {marker part segment : Text} (hmarker : '=' ∉ marker)
    (hpart : IsUncut part) (hsegment : IsPart segment) :
    '=' ∉ segmentName marker part segment := by
  unfold segmentName
  split <;> simp [hmarker, hpart.equals, hsegment.equals]

namespace Utility

variable {part value segment : Text}

/-- Without a dash in front, what stands behind the marker is the part, a colon and the segment. -/
theorem dropDash_segment (part segment : Text) :
    dropDash ((if part = [] then [] else '-' :: part) ++ ':' :: segment) =
      part ++ ':' :: segment := by
  split
  · next hnil => rw [hnil]; rfl
  · rfl

theorem length_hyphenated {a b : Text} (hb : b ≠ []) :
    (hyphenated a b).length = a.length + (if a = [] then 0 else 1) + b.length := by
  by_cases ha : a = []
  · rw [ha, hyphenated_nil_left]
    simp
  · rw [hyphenated_of_ne ha hb, if_neg ha, List.length_append, List.length_cons]
    omega

theorem hyphenated_segment_iff (part value : Text) (hsegment : segment ≠ []) :
    hyphenated part (value ++ '-' :: segment) = hyphenated part (hyphenated value segment) ↔
      value ≠ [] := by
  constructor
  · rintro heq rfl
    have hlength := congrArg List.length heq
    rw [hyphenated_nil_left, length_hyphenated hsegment, length_hyphenated (by simp)] at hlength
    simp at hlength
  · intro hvalue
    rw [hyphenated_of_ne hvalue hsegment]

/-- What an attribute with an appended segment asks for, with the facets its name and value say it
has. -/
theorem ofEntry_segment {v : Vocabulary} (hmarker : '=' ∉ v.marker) (hpart : IsUncut part)
    (hvalue : IsUncut value) (hsegment : IsPart segment) {f : Facets}
    (hf : f.unlisted = v.ownFacets (segmentName v.marker part segment) value) :
    ofEntry v.marker ⟨Entry.keyOf (segmentName v.marker part segment) value, f⟩ =
      ⟨hyphenated part (value ++ '-' :: segment), none⟩ := by
  have hsplit : Entry.splitKey (Entry.keyOf (segmentName v.marker part segment) value) =
      (segmentName v.marker part segment, value) :=
    Entry.splitKey_keyOf value (equals_notMem_segmentName hmarker hpart hsegment)
  generalize hname : segmentName v.marker part segment = name at hf hsplit ⊢
  have hentryName : (⟨Entry.keyOf name value, f⟩ : Entry).name = name := congrArg Prod.fst hsplit
  have hentryValue : (⟨Entry.keyOf name value, f⟩ : Entry).value = value :=
    congrArg Prod.snd hsplit
  obtain ⟨hpseudo, hvaluePseudo, hsegmented⟩ := Vocabulary.facets_of_unlisted_eq hf
  have htakeName : takePseudo (v.nameFacets name).pseudo (withoutMarker v.marker name) =
      (none, part ++ ':' :: segment) := by
    rw [← hname, segmentName, Vocabulary.nameFacets_marker, withoutMarker_append, takePseudo_false,
      dropDash_segment]
  have htakeValue : takePseudo (v.startsWithPseudo value) value = (none, value) := by
    rw [Vocabulary.startsWithPseudo_of_colon hvalue.colon, takePseudo_false]
  have happended : f.appended = true := by
    have htail : Vocabulary.hasSegment ((if part = [] then [] else '-' :: part) ++ ':' :: segment) =
        true := by
      refine Vocabulary.hasSegment_append ?_ hsegment.ne_nil hsegment.lineBreak
      split <;> simp [hpart.lineBreak]
    rw [hsegmented, ← hname]
    exact Vocabulary.isAppended_iff.mpr ⟨[], _, rfl, htail⟩
  have hmoved : moveSegment true (part ++ ':' :: segment) value = (part, value ++ '-' :: segment) :=
    moveSegment_segment part hsegment.ne_nil hsegment.colon value
  simp only [ofEntry, hentryName, hentryValue, hpseudo, hvaluePseudo, htakeName, htakeValue,
    happended, hmoved, Option.or_none]

/-- **An appended segment comes with a dash of its own.**  Whatever attributes are collected, one
whose name is the marker, a part or none, and a segment, is an entry for its part, its value and its
segment with dashes between them, and a dash before the segment if there is no value as well: so a
valueless `xe-a:t` asks for `a--t`, and `xe:t` for `-t`.  The token is the three with a dash between
those that are there just if there is a value. -/
theorem token_of_segment {o : Options} {v : Vocabulary} (haccepted : o.vocabulary = .ok v)
    (hmarker : '=' ∉ o.marker) (hpart : IsUncut part) (hvalue : IsUncut value)
    (hsegment : IsPart segment) {attributes : List (Text × Text)}
    (hmem : (segmentName o.marker part segment, value) ∈ attributes) :
    ∃ e ∈ (v.collected attributes).entries,
      e.key = Entry.keyOf (segmentName o.marker part segment) value ∧
      let token := (ofEntry o.marker e).token
      token = hyphenated part (value ++ '-' :: segment) ∧
      (value = [] → token = (if part = [] then [] else part ++ ['-']) ++ '-' :: segment) ∧
      (token = hyphenated part (hyphenated value segment) ↔ value ≠ []) := by
  obtain ⟨hm, -⟩ := Options.eq_of_vocabulary haccepted
  rw [← hm] at hmarker hmem ⊢
  obtain ⟨occurrence, hclassified⟩ : ∃ occurrence,
      Occurrence.of? v (segmentName v.marker part segment) value = some occurrence := by
    have hdeclares : (v.nameFacets (segmentName v.marker part segment)).isDeclaration = true := by
      rw [segmentName, Vocabulary.nameFacets_marker]
      rfl
    exact ⟨_, if_pos hdeclares⟩
  obtain ⟨f, hget, hfacets⟩ := Vocabulary.get?_collected hmem hclassified
    (equals_notMem_segmentName hmarker hpart hsegment) hvalue.equals hvalue.space
  have hasks := ofEntry_segment hmarker hpart hvalue hsegment hfacets
  refine ⟨⟨_, f⟩, Registry.mem_entries_of_get? hget, rfl, ?_⟩
  intro token
  have htoken : token = hyphenated part (value ++ '-' :: segment) := congrArg Utility.token hasks
  refine ⟨htoken, fun hnil => ?_, ?_⟩
  · rw [htoken, hnil]
    by_cases hempty : part = []
    · rw [hempty]
      rfl
    · rw [List.nil_append, hyphenated_of_ne hempty (List.cons_ne_nil _ _), if_neg hempty]
      simp
  · rw [htoken]
    exact hyphenated_segment_iff part value hsegment.ne_nil

/-- A part and a segment without a value, collected beside the same with one. -/
theorem token_of_segment_valueless :
    ∃ v, ({} : Options).vocabulary = .ok v ∧
      ∃ e ∈ (v.collected [("xe-m:10", "auto"), ("xe-m:10", [])]).entries,
        e.key = "xe-m:10=".toList ∧ (ofEntry "xe" e).token = "m--10".toList := by
  let v : Vocabulary := ⟨"xe", ["focus", "hover"], by decide, by decide⟩
  have haccepted : ({} : Options).vocabulary = .ok v := rfl
  have hpart : IsUncut "m".toList := by constructor <;> decide
  have hvalue : IsUncut [] := by constructor <;> decide
  have hsegment : IsPart "10".toList := by constructor <;> decide
  obtain ⟨e, he, hkey, -, htoken, -⟩ := token_of_segment haccepted (by decide) hpart hvalue hsegment
    (List.mem_cons_of_mem ("xe-m:10".toList, "auto".toList) List.mem_cons_self)
  exact ⟨v, haccepted, e, he, hkey, htoken rfl⟩

/-- A valueless margin of ten comes out as a negative one. -/
theorem not_token_of_valueless :
    let v : Vocabulary := ⟨"xe", ["focus", "hover"], by decide, by decide⟩
    let entries := (v.collected [("xe-m:10", [])]).entries
    (¬ ∃ e ∈ entries, (ofEntry v.marker e).token = "m-10".toList) ∧
      stylesheet v.marker Rule.builtin entries =
        "[xe-m\\:10] \x7b margin:-10px!important; \x7d " := by
  decide +kernel

end Utility

end AttributeCss
