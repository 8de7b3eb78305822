/-
Markers and pseudo-classes that overlap.

Options are accepted if the marker is not empty and every pseudo-class is a
name; nothing is asked about the two together.  A name with a pseudo-class
before the marker is read from the front, and the marker is looked for first:

    marker o, pseudo-class focus    focus:o-m="10"    m-10 under focus
    marker h, pseudo-class hover    hover:h-m="10"    over-10-h-m under none

So a pseudo-class can be written before a name just if the name does not start
with the marker then.  How far the two overlap is seen without what stands
behind the marker (`marker_starts_iff`).  The other thing that may be in the
way is an equals sign in the marker: the key of an entry is cut there.
-/
import AttributeCss.Proofs.Stylesheet.Spelling

namespace AttributeCss

/-- A text that is not cut as part of a key, nor for a pseudo-class; spaces and line breaks may be
in it. -/
structure IsSolid (t : Text) : Prop where
  ne_nil : t ≠ []
  colon : ':' ∉ t
  equals : '=' ∉ t

theorem IsSolid.of_mem_words {t w : Text} (ht : IsSolid t) (hw : w ∈ Text.words t) : IsSolid w where
  ne_nil := Text.ne_nil_of_mem_words hw
  colon hmem := ht.colon (Text.mem_of_mem_splitOn (List.mem_of_mem_filter hw) hmem)
  equals hmem := ht.equals (Text.mem_of_mem_splitOn (List.mem_of_mem_filter hw) hmem)

/-! ## Classified -/

namespace Vocabulary

theorem marker_starts_iff {s marker : Text} (tail : Text) :
    marker <+: withPseudo (some s) (marker ++ tail) ↔ marker <+: s ++ ':' :: marker := by
  constructor
  · exact fun h => Decidable.not_not.mp fun hnot => not_prefix_append hnot tail h
  · exact fun h => h.trans ⟨tail, by simp [withPseudo]⟩

variable {v : Vocabulary} {s : Text}

/-- A name that starts with a pseudo-class declares, whether it is seen to carry one or not. -/
theorem isDeclaration_withPseudo (hs : s ∈ v.pseudos) (t : Text) :
    (v.nameFacets (withPseudo (some s) t)).isDeclaration = true := by
  unfold nameFacets
  split
  · rfl
  · have hstarts : v.startsWithPseudo (withPseudo (some s) t) = true :=
      startsWithPseudo_iff.mpr ⟨s, hs, t, rfl⟩
    rw [if_pos hstarts]
    rfl

theorem nameFacets_eq_pseudo_iff (hs : s ∈ v.pseudos) (tail : Text) :
    v.nameFacets (withPseudo (some s) (v.marker ++ tail)) = { pseudo := true } ↔
      ¬ v.marker <+: s ++ ':' :: v.marker := by
  constructor
  · intro hfacets hstarts
    have hmarker : v.marker <+: withPseudo (some s) (v.marker ++ tail) :=
      (marker_starts_iff tail).mpr hstarts
    rw [nameFacets, if_pos (List.isPrefixOf_iff_prefix.mpr hmarker)] at hfacets
    cases hfacets
  · exact fun h => nameFacets_pseudo hs h tail

end Vocabulary

/-! ## Normalized -/

theorem equals_notMem_withPseudo {v : Vocabulary} {s : Text} (hs : s ∈ v.pseudos) {t : Text}
    (ht : '=' ∉ t) : '=' ∉ withPseudo (some s) t :=
  notMem_withPseudo (fun _ h => Option.some.inj h ▸ v.pseudos_named s hs) (by decide) (by decide) ht

namespace Utility

variable {v : Vocabulary} {s a w : Text} {f : Facets}

/-- A pseudo-class is cut off in front of the last equals sign, if no colon stands behind it. -/
theorem equals_mem_takePseudo {front : Text} (hw : ':' ∉ w) (carries : Bool) :
    '=' ∈ (takePseudo carries (front ++ '=' :: w)).2 := by
  unfold takePseudo
  split
  · next name rest hcut =>
      cases carries with
      | false => cases hcut
      | true =>
          obtain ⟨hfirst, -⟩ := Option.filter_eq_some_iff.mp (if_pos rfl ▸ hcut)
          have hrest : ':' :: rest <:+ front ++ '=' :: w :=
            ⟨name, (Text.eq_of_cutFirst hfirst).1.symm⟩
          have hequals : '=' :: w <:+ front ++ '=' :: w := List.suffix_append _ _
          rcases List.suffix_or_suffix_of_suffix hequals hrest with hin | hin
          · exact (List.mem_cons.mp (hin.mem List.mem_cons_self)).resolve_left (by decide)
          · have hcolon := List.mem_cons.mp (hin.mem List.mem_cons_self)
            exact absurd (hcolon.resolve_left (by decide)) hw
  · simp

/-- An equals sign in the marker comes to the token, whatever facets were seen. -/
theorem equals_mem_token (hs : s ∈ v.pseudos) (hw : ':' ∉ w) (hmarker : '=' ∈ v.marker)
    (f : Facets) :
    '=' ∈ (ofEntry v.marker
      (Entry.of (withPseudo (some s) (v.marker ++ '-' :: a)) w f)).token := by
  obtain ⟨lead, rest, hcut⟩ : ∃ lead rest, Text.cutFirst '=' v.marker = some (lead, rest) := by
    cases hcut : Text.cutFirst '=' v.marker with
    | none => exact absurd hmarker (Text.cutFirst_eq_none.mp hcut)
    | some cut => exact ⟨cut.1, cut.2, rfl⟩
  obtain ⟨heq, hlead⟩ := Text.eq_of_cutFirst hcut
  have hkey : Entry.keyOf (withPseudo (some s) (v.marker ++ '-' :: a)) w =
      Entry.keyOf (withPseudo (some s) lead) (rest ++ '-' :: a ++ '=' :: w) := by
    simp [Entry.keyOf, withPseudo, heq]
  have hvalue : (Entry.of (withPseudo (some s) (v.marker ++ '-' :: a)) w f).value =
      rest ++ '-' :: a ++ '=' :: w := by
    rw [Entry.value, Entry.split, Entry.of, hkey,
      Entry.splitKey_keyOf _ (equals_notMem_withPseudo hs hlead)]
  refine mem_token ?_
  rw [hvalue]
  exact equals_mem_takePseudo hw _

/-- What an entry asks for whose value carries no pseudo-class: it is under the one taken off the
name, and what is left of the name makes the token with the value, if no segment is in it. -/
theorem ofEntry_eq_of_takePseudo {name : Text} {pseudo : Option Text} (hname : '=' ∉ name)
    (hw : IsSolid w) (hf : f.unlisted = v.ownFacets name w)
    (htake : takePseudo f.pseudo (withoutMarker v.marker name) = (pseudo, a)) :
    (ofEntry v.marker (Entry.of name w f)).pseudo = pseudo ∧
      (IsSolid a → (ofEntry v.marker (Entry.of name w f)).token = a ++ '-' :: w) := by
  have hsplit : (Entry.of name w f).split = (name, w) := Entry.splitKey_keyOf w hname
  obtain ⟨-, hvaluePseudo, -⟩ := Vocabulary.facets_of_unlisted_eq hf
  have hvalue : takePseudo f.valuePseudo w = (none, w) := by
    rw [hvaluePseudo, Vocabulary.startsWithPseudo_of_colon hw.colon, takePseudo_false]
  have hasks : ofEntry v.marker (Entry.of name w f) =
      ⟨hyphenated (moveSegment f.appended a w).1 (moveSegment f.appended a w).2, pseudo⟩ := by
    unfold ofEntry
    simp only [Entry.name, Entry.value, hsplit]
    simp only [Entry.of, htake, hvalue, Option.none_or]
  refine ⟨by rw [hasks], fun ha => ?_⟩
  rw [hasks, moveSegment_of_colon ha.colon, hyphenated_of_ne ha.ne_nil hw.ne_nil]

/-- With a pseudo-class before the name and none before the value, an entry asks for its two parts
under the pseudo-class, unless the marker holds an equals sign or starts the name. -/
theorem ofEntry_withPseudo_iff (hs : s ∈ v.pseudos) (ha : IsSolid a) (hw : IsSolid w)
    (hf : '=' ∉ v.marker →
      f.unlisted = v.ownFacets (withPseudo (some s) (v.marker ++ '-' :: a)) w) :
    ofEntry v.marker (Entry.of (withPseudo (some s) (v.marker ++ '-' :: a)) w f) =
        ⟨a ++ '-' :: w, some s⟩ ↔
      '=' ∉ v.marker ∧ ¬ v.marker <+: s ++ ':' :: v.marker := by
  constructor
  · intro hasks
    have hequals : '=' ∉ v.marker := by
      intro hmem
      have htoken := equals_mem_token (a := a) hs hw.colon hmem f
      rw [hasks] at htoken
      simp [ha.equals, hw.equals] at htoken
    refine ⟨hequals, fun hstarts => ?_⟩
    have hunseen : f.pseudo = false := by
      rw [(Vocabulary.facets_of_unlisted_eq (hf hequals)).1, Vocabulary.nameFacets,
        if_pos (List.isPrefixOf_iff_prefix.mpr ((Vocabulary.marker_starts_iff _).mpr hstarts))]
    have hunder := (ofEntry_eq_of_takePseudo
      (equals_notMem_withPseudo hs (by simp [hequals, ha.equals])) hw (hf hequals)
      (hunseen ▸ takePseudo_false _)).1
    rw [hasks] at hunder
    cases hunder
  · rintro ⟨hequals, hstarts⟩
    have htake : takePseudo f.pseudo
        (withoutMarker v.marker (withPseudo (some s) (v.marker ++ '-' :: a))) = (some s, a) := by
      rw [(Vocabulary.facets_of_unlisted_eq (hf hequals)).1]
      exact takePseudo_name (fun _ h => Option.some.inj h ▸ hs)
        (fun _ h => Option.some.inj h ▸ hstarts) ('-' :: a)
    obtain ⟨hunder, htoken⟩ := ofEntry_eq_of_takePseudo
      (equals_notMem_withPseudo hs (by simp [hequals, ha.equals])) hw (hf hequals) htake
    exact congrArg₂ Utility.mk (htoken ha) hunder

end Utility

/-- **When a pseudo-class can be written before a name.**  Take accepted options, one of their
pseudo-classes and an attribute named by the pseudo-class, a colon, the marker and a part.  The
pseudo-class is seen just if pseudo-class, colon and marker do not start with the marker.  And
whatever attributes are collected with this one, its value, or each word of a value with spaces, has
an entry, and the entry asks for part and word under the pseudo-class just if, besides, the marker
holds no equals sign. -/
theorem Vocabulary.pseudo_usable_iff {o : Options} {v : Vocabulary}
    (haccepted : o.vocabulary = .ok v) {s a x : Text} (hs : s ∈ o.pseudos) (ha : IsSolid a)
    (hx : IsSolid x) :
    let name := withPseudo (some s) (o.marker ++ '-' :: a)
    (v.nameFacets name = { pseudo := true } ↔ ¬ o.marker <+: s ++ ':' :: o.marker) ∧
    ∀ attributes, (name, x) ∈ attributes → ∀ w ∈ (if ' ' ∈ x then Text.words x else [x]),
      ∃ e ∈ (v.collected attributes).entries, e.key = Entry.keyOf name w ∧
        (Utility.ofEntry o.marker e = ⟨a ++ '-' :: w, some s⟩ ↔
          '=' ∉ o.marker ∧ ¬ o.marker <+: s ++ ':' :: o.marker) := by
  intro name
  obtain ⟨hm, hp⟩ := Options.eq_of_vocabulary haccepted
  rw [← hp] at hs
  have hname : name = withPseudo (some s) (v.marker ++ '-' :: a) := by rw [hm]
  rw [← hm, hname]
  refine ⟨nameFacets_eq_pseudo_iff hs _, fun attributes hmem w hw => ?_⟩
  obtain ⟨occurrence, hclassified⟩ : ∃ occurrence,
      Occurrence.of? v (withPseudo (some s) (v.marker ++ '-' :: a)) x = some occurrence :=
    ⟨_, if_pos (isDeclaration_withPseudo hs _)⟩
  have hlisted : occurrence.facets.listed = decide (' ' ∈ x) := by
    rw [(Occurrence.facets_of_of? hclassified).1, List.contains_eq_mem]
  have hcounted : w ∈ Registry.valuesOf x occurrence.facets := by
    simpa [Registry.valuesOf, hlisted] using hw
  have hsolid : IsSolid w := by
    split at hw
    · exact hx.of_mem_words hw
    · exact List.mem_singleton.mp hw ▸ hx
  obtain ⟨f, hget, -, hfacets⟩ := get?_collected_of_counted hmem hclassified hcounted
  refine ⟨⟨_, f⟩, Registry.mem_entries_of_get? hget, rfl, ?_⟩
  refine Utility.ofEntry_withPseudo_iff hs ha hsolid fun hequals => hfacets ?_ hsolid.equals
  exact equals_notMem_withPseudo hs (by simp [hequals, ha.equals])

/-- The marker stands in the pseudo-class, but not at its start. -/
theorem Vocabulary.pseudo_usable_iff_marker_inside :
    let o : Options := { marker := "o", pseudos := ["focus"] }
    ∃ v, o.vocabulary = .ok v ∧ v.nameFacets "focus:o-m" = { pseudo := true } ∧
      ∃ e ∈ (v.collected [("focus:o-m", "10 20")]).entries, e.key = "focus:o-m=20".toList ∧
        Utility.ofEntry o.marker e = ⟨"m-20".toList, some "focus".toList⟩ := by
  intro o
  let v : Vocabulary := ⟨"o", ["focus"], by decide, by decide⟩
  have haccepted : o.vocabulary = .ok v := rfl
  have ha : IsSolid "m".toList := by constructor <;> decide
  have hx : IsSolid "10 20".toList := by constructor <;> decide
  obtain ⟨hseen, hasks⟩ :=
    pseudo_usable_iff haccepted (s := "focus".toList) (by decide) ha hx
  obtain ⟨e, he, hkey, hiff⟩ := hasks [("focus:o-m", "10 20")] (by decide) "20".toList (by decide)
  exact ⟨v, haccepted, hseen.mpr (by decide), e, he, hkey, hiff.mpr (by decide)⟩

/-- The marker starts the pseudo-class: the name is seen as marked, and the rest of the pseudo-class
comes to the token. -/
theorem Vocabulary.not_pseudo_usable_of_marker_in_front :
    let o : Options := { marker := "h", pseudos := ["hover"] }
    ∃ v, o.vocabulary = .ok v ∧ v.nameFacets "hover:h-m" = { marked := true } ∧
      (v.collected [("hover:h-m", "10")]).entries.map (Utility.ofEntry o.marker) =
        [⟨"over-10-h-m".toList, none⟩] := by
  exact ⟨⟨"h", ["hover"], by decide, by decide⟩, rfl, by decide, by decide⟩

end AttributeCss
