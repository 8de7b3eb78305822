/-
Values laid out on several lines.

A value is split at space characters, and only a value with such a space is
split at all.  To those who write it, and to a selector for one of several
values, a tab or a line break separates words as well:

    xe="m-10 p-4"           m-10 and p-4, both with a rule
    xe="m-10\np-4"          one entry, with no rule
    xe="m-10 p-4\nw-50%"    m-10, and what stands behind it, with no rule

With spaces for the tabs and line breaks (`Text.flattened`) each word has its
entry.  The words between spaces keep their rules then, and others may come to
one (`styledWords_flattened`).
-/
import AttributeCss.Proofs.Stylesheet.Spelling

namespace AttributeCss

/-! ## Words between spaces of any kind -/

namespace Text

/-- The words of a text between spaces, tabs and line breaks. -/
def laidWords (t : Text) : List Text := (t.splitOnP isSpace).filter fun w => !w.isEmpty

/-- The text with spaces for its tabs and line breaks. -/
def flattened (t : Text) : Text := t.map fun c => if isSpace c then ' ' else c

/-- It makes no difference whether a text is flattened before it is split, by whatever splits at a
space and not within words. -/
theorem splitOnP_flattened {p : Char → Bool} (hspace : p ' ' = true)
    (hp : ∀ c, isSpace c = false → p c = false) (t : Text) :
    (flattened t).splitOnP p = t.splitOnP isSpace := by
  induction t with
  | nil => rfl
  | cons c t ih =>
      rw [flattened] at ih
      rw [flattened, List.map_cons, List.splitOnP_cons_eq_if_modifyHead,
        List.splitOnP_cons_eq_if_modifyHead, ih]
      cases hc : isSpace c with
      | true => simp [hspace]
      | false => simp [hp c hc]

theorem words_flattened (t : Text) : words (flattened t) = laidWords t := by
  rw [words_eq, splitOnP_flattened (by decide), laidWords]
  intro c hc
  simp only [isSpace, Bool.or_eq_false_iff, decide_eq_false_iff_not] at hc
  simpa using hc.1.1.1

theorem laidWords_flattened (t : Text) : laidWords (flattened t) = laidWords t := by
  rw [laidWords, splitOnP_flattened (by decide) fun _ => id, laidWords]

theorem ne_nil_of_mem_laidWords {t w : Text} (h : w ∈ laidWords t) : w ≠ [] :=
  ne_nil_of_mem_words (words_flattened t ▸ h)

end Text

theorem Registry.mem_valuesOf_iff {value w : Text} {f : Facets}
    (hf : f.listed = value.contains ' ') (hw : w ≠ []) :
    w ∈ valuesOf value f ↔ w ∈ Text.words value := by
  by_cases hspace : ' ' ∈ value
  · rw [valuesOf, if_pos (by simpa [hf] using hspace)]
  · rw [valuesOf, if_neg (by simpa [hf] using hspace), List.mem_singleton]
    by_cases hempty : value = []
    · subst hempty
      exact iff_of_false hw List.not_mem_nil
    · rw [Text.words_of_no_space hspace hempty, List.mem_singleton]

theorem Occurrence.of?_of_isDeclaration {v : Vocabulary} {name : Text}
    (h : (v.nameFacets name).isDeclaration = true) (value : Text) :
    of? v name value = some ⟨name, value, v.nameFacets name ∪ v.occurrenceFacets name value⟩ :=
  if_pos h

namespace Entry

theorem keyOf_right_inj {name w w' : Text} (h : keyOf name w = keyOf name w') : w = w' :=
  (List.cons.inj (List.append_cancel_left h)).2

variable {marker : Text} {table : RuleTable} {e e' : Entry}

theorem rule_eq_nil_iff :
    e.rule marker table = [] ↔
      (table.apply (Utility.ofEntry marker e).token).declarations.isEmpty = true := by
  constructor
  · intro hrule
    cases hempty : (table.apply (Utility.ofEntry marker e).token).declarations.isEmpty with
    | true => rfl
    | false =>
        obtain ⟨body, hbody⟩ := exists_rule hempty
        rw [hbody e rfl, Selector.write] at hrule
        cases hrule
  · intro hempty
    rw [rule, if_pos hempty]

theorem rule_eq_nil_congr (hkey : e'.key = e.key)
    (hfacets : e'.facets.unlisted = e.facets.unlisted) :
    e'.rule marker table = [] ↔ e.rule marker table = [] := by
  rw [rule_eq_nil_iff, rule_eq_nil_iff, Utility.ofEntry_congr hkey hfacets]

end Entry

namespace Vocabulary

variable {v : Vocabulary}

/-! ## Entries after collecting -/

/-- Where no name holds an equals sign, every entry comes from an attribute and one of the values it
is counted for, and has the facets these say they have; it may be listed besides. -/
theorem exists_of_mem_collected {attributes : List (Text × Text)}
    (hnames : ∀ p ∈ attributes, '=' ∉ p.1) {e : Entry} (he : e ∈ (v.collected attributes).entries) :
    ∃ name value, (name, value) ∈ attributes ∧
      ∃ w ∈ Registry.valuesOf value (v.occurrenceFacets name value),
        e.key = Entry.keyOf name w ∧ e.facets.unlisted = v.ownFacets name w := by
  let cs : Snapshot := (v.classified attributes).flatMap (Occurrence.contributions v)
  have hfrom {k : Text} {f : Facets} (hmem : (k, f) ∈ cs) : ∃ name value,
      (name, value) ∈ attributes ∧
      ∃ w ∈ Registry.valuesOf value (v.occurrenceFacets name value),
        k = Entry.keyOf name w ∧ f.unlisted = v.ownFacets name w := by
    obtain ⟨o, ho, hone⟩ := List.mem_flatMap.mp hmem
    obtain ⟨⟨name, value⟩, hattribute, hof⟩ := List.mem_filterMap.mp ho
    obtain ⟨w, hw, rfl, rfl⟩ := Occurrence.mem_contributions.mp hone
    obtain rfl := Occurrence.eq_of_of? hof
    refine ⟨name, value, hattribute, w, ?_, rfl, rfl⟩
    have hlisted := (Occurrence.facets_of_of? hof).1
    rw [Registry.valuesOf, hlisted] at hw
    rwa [Registry.valuesOf, occurrenceFacets]
  have hget : (v.collected attributes).get? e.key = some e.facets :=
    Registry.get?_of_mem_entries he
  rw [get?_collected_eq] at hget
  split at hget
  · next hkey =>
      obtain ⟨⟨k, f⟩, hmem, rfl⟩ := List.mem_map.mp hkey
      obtain ⟨name, value, hattribute, w, hw, hk, -⟩ := hfrom hmem
      refine ⟨name, value, hattribute, w, hw, hk, ?_⟩
      rw [← Option.some.inj hget]
      refine Snapshot.unlisted_facetsOf hkey fun g hg => ?_
      -- another contribution for the key is of the same name and value
      obtain ⟨name', value', hattribute', w', -, hk', hfacets⟩ := hfrom hg
      have hsplit := congrArg Entry.splitKey (hk.symm.trans hk')
      rw [Entry.splitKey_keyOf w (hnames _ hattribute),
        Entry.splitKey_keyOf w' (hnames _ hattribute')] at hsplit
      obtain ⟨rfl, rfl⟩ := Prod.mk.inj hsplit
      exact hfacets
  · cases hget

theorem not_separates_of_collected {attributes : List (Text × Text)}
    (hnames : ∀ p ∈ attributes, '=' ∉ p.1) {e : Entry} (he : e ∈ (v.collected attributes).entries)
    (hrule : e.rule v.marker Rule.builtin ≠ []) : ∀ c ∈ e.value, Text.separates c = false := by
  obtain ⟨name, value, hattribute, w, -, hkey, hfacets⟩ := exists_of_mem_collected hnames he
  have hsplit : e.split = (name, w) :=
    (congrArg Entry.splitKey hkey).trans (Entry.splitKey_keyOf w (hnames _ hattribute))
  refine Entry.not_separates_of_rule (v := v) (fun hpseudo => ?_) hrule
  rw [(facets_of_unlisted_eq hfacets).2.1] at hpseudo
  rwa [Entry.value, hsplit]

/-! ## Words with a rule -/

/-- Collected with an attribute name, the word has a rule. -/
def styles (v : Vocabulary) (attributes : List (Text × Text)) (name w : Text) : Bool :=
  (v.collected attributes).entries.any fun e =>
    e.key = Entry.keyOf name w && e.rule v.marker Rule.builtin ≠ []

/-- The words of a value, between spaces of any kind, that have a rule when the attribute is
collected. -/
def styledWords (v : Vocabulary) (name value : Text) : List Text :=
  (Text.laidWords value).filter (v.styles [(name, value)] name)

/-- A word has a rule if it stands between spaces and its name and itself ask for something, however
the value goes on. -/
theorem styles_iff {name value w : Text} (hname : '=' ∉ name)
    (hdeclares : (v.nameFacets name).isDeclaration = true) (hw : w ≠ []) :
    v.styles [(name, value)] name w = true ↔
      w ∈ Text.words value ∧
        (Entry.of name w (v.ownFacets name w)).rule v.marker Rule.builtin ≠ [] := by
  have hnames : ∀ p ∈ [(name, value)], '=' ∉ p.1 := by simpa using hname
  -- the only entry for the word comes from the attribute itself
  have hown {e : Entry} (he : e ∈ (v.collected [(name, value)]).entries)
      (hkey : e.key = Entry.keyOf name w) :
      w ∈ Registry.valuesOf value (v.occurrenceFacets name value) ∧
        e.facets.unlisted = v.ownFacets name w := by
    obtain ⟨name', value', hattribute, w', hcounted, hkey', hfacets⟩ :=
      exists_of_mem_collected hnames he
    obtain ⟨rfl, rfl⟩ := Prod.mk.inj (List.mem_singleton.mp hattribute)
    obtain rfl := Entry.keyOf_right_inj (hkey.symm.trans hkey')
    exact ⟨hcounted, hfacets⟩
  have hrule {e : Entry} (hkey : e.key = Entry.keyOf name w)
      (hfacets : e.facets.unlisted = v.ownFacets name w) :
      e.rule v.marker Rule.builtin = [] ↔
        (Entry.of name w (v.ownFacets name w)).rule v.marker Rule.builtin = [] :=
    Entry.rule_eq_nil_congr (e := Entry.of name w (v.ownFacets name w)) hkey hfacets
  simp only [styles, List.any_eq_true, Bool.and_eq_true, decide_eq_true_eq]
  constructor
  · rintro ⟨e, he, hkey, hnonempty⟩
    obtain ⟨hcounted, hfacets⟩ := hown he hkey
    exact ⟨(Registry.mem_valuesOf_iff rfl hw).mp hcounted, mt (hrule hkey hfacets).mpr hnonempty⟩
  · rintro ⟨hmem, hnonempty⟩
    have hclassified := Occurrence.of?_of_isDeclaration hdeclares value
    have hcounted :=
      (Registry.mem_valuesOf_iff (Occurrence.facets_of_of? hclassified).1 hw).mpr hmem
    obtain ⟨f, hget, -⟩ := get?_collected_of_counted List.mem_cons_self hclassified hcounted
    have he : ⟨Entry.keyOf name w, f⟩ ∈ (v.collected [(name, value)]).entries :=
      Registry.mem_entries_of_get? hget
    exact ⟨_, he, rfl, mt (hrule rfl (hown he rfl).2).mp hnonempty⟩

/-- **What the layout of a value changes.**  Take an attribute that declares.  If its value has a
space, every word between spaces has an entry of its own, listed, whatever is collected besides.
The value of an entry with a rule holds no space, tab or line break.  The words with a rule are those
that have one with spaces for the tabs and line breaks, as far as they stand between spaces before;
so they are the same just if all those stand between spaces. -/
theorem styledWords_flattened (v : Vocabulary) {name : Text} (hname : '=' ∉ name)
    (hdeclares : (v.nameFacets name).isDeclaration = true) (value : Text) :
    (' ' ∈ value → ∀ attributes, (name, value) ∈ attributes → ∀ w ∈ Text.words value,
      ∃ e ∈ (v.collected attributes).entries,
        e.key = Entry.keyOf name w ∧ e.facets.listed = true) ∧
    (∀ e ∈ (v.collected [(name, value)]).entries, e.rule v.marker Rule.builtin ≠ [] →
      ∀ c ∈ e.value, Text.isSpace c = false) ∧
    v.styledWords name value =
      (v.styledWords name (Text.flattened value)).filter (· ∈ Text.words value) ∧
    (v.styledWords name value = v.styledWords name (Text.flattened value) ↔
      ∀ w ∈ v.styledWords name (Text.flattened value), w ∈ Text.words value) := by
  have hkept : v.styledWords name value =
      (v.styledWords name (Text.flattened value)).filter (· ∈ Text.words value) := by
    rw [styledWords, styledWords, Text.laidWords_flattened, List.filter_filter]
    refine List.filter_congr fun w hw => ?_
    have hne := Text.ne_nil_of_mem_laidWords hw
    rw [Bool.eq_iff_iff, Bool.and_eq_true, decide_eq_true_eq, styles_iff hname hdeclares hne,
      styles_iff hname hdeclares hne, Text.words_flattened, and_iff_right hw]
  refine ⟨fun hspace attributes hmem w hw => ?_, fun e he hrule c hc => ?_, hkept, ?_⟩
  · have hclassified := Occurrence.of?_of_isDeclaration hdeclares value
    have hcontains : value.contains ' ' = true := by simpa using hspace
    have hlisted := (Occurrence.facets_of_of? hclassified).1.trans hcontains
    obtain ⟨f, hget, hkeeps, -⟩ := get?_collected_of_counted hmem hclassified (w := w)
      (by rwa [Registry.valuesOf, if_pos hlisted])
    exact ⟨_, Registry.mem_entries_of_get? hget, rfl, hkeeps hlisted⟩
  · have hfree := not_separates_of_collected (by simpa using hname) he hrule c hc
    exact ((Bool.or_eq_false_iff ..).mp hfree).1
  · rw [hkept, List.filter_eq_self]
    simp

/-- Two of four words have a rule as the value is laid out, those with spaces around them or an end;
with a space for the line break all have one. -/
theorem styledWords_flattened_two_lines :
    let v : Vocabulary := ⟨"xe", ["focus", "hover"], by decide, by decide⟩
    let value : Text := "m-10 p-4\nw-50% hover:m-4"
    (∃ e ∈ (v.collected [("xe-w", "50%"), ("xe", value)]).entries,
      e.key = "xe=hover:m-4".toList ∧ e.facets.listed = true) ∧
      v.styledWords "xe" value = ["m-10".toList, "hover:m-4".toList] ∧
      v.styledWords "xe" (Text.flattened value) =
        ["m-10".toList, "p-4".toList, "w-50%".toList, "hover:m-4".toList] := by
  intro v value
  have hname : '=' ∉ "xe".toList := by decide
  obtain ⟨hlisted, -, hkept, -⟩ := styledWords_flattened v hname (by decide) value
  have hall : v.styledWords "xe" (Text.flattened value) =
      ["m-10".toList, "p-4".toList, "w-50%".toList, "hover:m-4".toList] := by decide +kernel
  refine ⟨?_, ?_, hall⟩
  · exact hlisted (by decide) [("xe-w", "50%"), ("xe", value)] (by decide) "hover:m-4".toList
      (by decide)
  · rw [hkept, hall]
    decide

/-- A line break alone between two words: there is one entry, not listed, with no rule. -/
theorem not_styledWords_of_lineBreak :
    let v : Vocabulary := ⟨"xe", ["focus", "hover"], by decide, by decide⟩
    let value : Text := "m-10\np-4"
    (v.collected [("xe", value)]).entries = [⟨"xe=m-10\np-4".toList, { marked := true }⟩] ∧
      v.styledWords "xe" value = [] ∧
      v.styledWords "xe" (Text.flattened value) = ["m-10".toList, "p-4".toList] := by
  decide +kernel

end Vocabulary

end AttributeCss
