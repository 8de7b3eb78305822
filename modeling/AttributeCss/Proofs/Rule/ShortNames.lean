/-
Short names behind `flex-`.

The separators of the flex pattern are optional and its value may be any run of
letters and dashes.  So a short name does not have to be a segment of its own:
where a word starts with one, the name is taken for it and the rest of the word
for a value (`flex_words_read`), and `flex-direction` sets the direction to
`irection` (`flex_word_cut`).  The words that start with no short name are
those that only make a flex container.
-/
import AttributeCss.Proofs.Rule.Forms
import AttributeCss.Proofs.Text.Marks

namespace AttributeCss.Rule

open Css Piece

/-- A word of lower-case letters, alone or with a dash and more letters and dashes behind it. -/
structure FlexWord where
  word : Text
  value : Option Text
  ne_nil : word ≠ []
  lower : ∀ c ∈ word, c.isLower = true
  value_lower : ∀ v ∈ value, ∀ c ∈ v, c.isLower = true ∨ c = '-'

/-- What stands behind the word. -/
def FlexWord.tail (f : FlexWord) : Text :=
  match f.value with
  | none => []
  | some v => '-' :: v

def FlexWord.text (f : FlexWord) : Text := "flex-" ++ (f.word ++ f.tail)

/-- The words that `flex` knows. -/
def shortNames : List Text := "center".toList :: flexNames

/-- The properties that have a short name. -/
def shortened : List Text := flexProperties.map Prod.snd

/-- The table declares the property for the token. -/
def Gives (token property : Text) : Prop :=
  ∃ rule d, RuleTable.apply builtin token = .matched rule d ∧ property ∈ d.keys

def flex : Rule :=
  ⟨"flex", whole [word "flex", maybe '-', opt (group flexKind), maybe '-', group flexValue],
    declareFlex⟩

theorem flex_mem : flex ∈ builtin := List.mem_of_getElem? (i := 7) rfl

/-! ## What stands behind the word -/

theorem FlexWord.spelled (f : FlexWord) {c : Char} (hc : c ∈ f.word ++ f.tail) :
    c.isLower = true ∨ c = '-' := by
  obtain ⟨w, value, hne, hlower, hvalue⟩ := f
  rcases List.mem_append.mp hc with hc | hc
  · exact Or.inl (hlower c hc)
  · cases value with
    | none => cases hc
    | some v =>
        rcases List.mem_cons.mp hc with rfl | hc
        · exact Or.inr rfl
        · exact hvalue v rfl c hc

/-- A text without dashes at the start of word and tail is at the start of the word. -/
theorem FlexWord.prefix_word (f : FlexWord) {t : Text} (hdash : '-' ∉ t)
    (h : t <+: f.word ++ f.tail) : t <+: f.word := by
  rw [tail] at h
  split at h
  · rwa [List.append_nil] at h
  · exact Text.prefix_of_prefix_append hdash h

/-! ## How the rule reads -/

theorem match?_flex {kind value : Text} {g : Option Text}
    (hkind : (opt (group flexKind)).ReadsFirst kind [g] value) (hdash : value.head? ≠ some '-')
    (hchars : ∀ c ∈ value, c.isLower = true ∨ c = '-') :
    flex.pattern.match? ("flex-" ++ (kind ++ value)) =
      some ⟨"flex-" ++ (kind ++ value), [g, some value]⟩ := by
  have hset : ∀ c ∈ value, (CharSet.lower ++ CharSet.ofChars ['-']).holds c = true := by
    intro c hc
    refine holds_append.mpr ((hchars c hc).imp holds_lower_iff.mpr ?_)
    rintro rfl
    rfl
  have hvalue : (run (CharSet.lower ++ CharSet.ofChars ['-']) 0 none).ReadsFirst value [] [] :=
    readsFirst_run hset Text.stops_nil (Nat.zero_le _) fun _ hn => by cases hn
  have hmiddle : (maybe '-').ReadsFirst [] [] value :=
    readsFirst_opt_absent (readings_char_of_head? hdash)
  rw [← List.append_nil value] at hkind hmiddle
  have hread := (readsFirst_word "flex" _).seq
    ((readsFirst_char '-' _).opt.seq (hkind.seq (hmiddle.seq hvalue.group)))
  exact Pattern.match?_of_readsFirst rfl hread

/-- The short names start with different letters, so one of them at most stands at a place. -/
theorem readsFirst_shortName {name : Text} (h : name ∈ shortNames) (rest : Text) :
    flexKind.ReadsFirst name [] rest := by
  simp only [shortNames, flexNames, List.mem_cons, List.not_mem_nil, or_false] at h
  rcases h with rfl | rfl | rfl | rfl | rfl <;>
    simp [ReadsFirst, flexKind, choice, Piece.word, Piece.sequence, readings, groupCount]

theorem FlexWord.readings_flexKind {f : FlexWord} (h : ∀ name ∈ shortNames, ¬ name <+: f.word) :
    flexKind.readings (f.word ++ f.tail) = [] := by
  refine List.eq_nil_iff_forall_not_mem.mpr fun x hx => ?_
  have hfits := fits_of_mem_readings hx
  have hstart : x.taken <+: f.word ++ f.tail := ⟨x.rest, taken_append_rest hx⟩
  have hspelled : ∀ c ∈ x.taken, c.isLower = true ∨ c = '-' :=
    fun c hc => f.spelled (hstart.subset hc)
  have hno : x.taken ∉ shortNames := by
    intro hname
    have hdashes : ∀ name ∈ shortNames, '-' ∉ name := by decide
    exact h _ hname (f.prefix_word (hdashes _ hname) hstart)
  have hne : x.taken ≠ [] := fun hnil => nomatch isOptional_of_fits_nil hfits hnil
  obtain ⟨c, hc⟩ := List.exists_mem_of_ne_nil _ hne
  rcases cases_of_fits_flexKind (.present hfits) with hk | hk | hk | hk | hk
  · exact hne hk
  · rw [hk] at hspelled
    exact absurd (hspelled '~' (by decide)) (by decide)
  · exact hno (List.mem_cons_of_mem _ hk)
  · exact hno (hk ▸ List.mem_cons_self)
  · have hdigit : c.isDigit = true := List.all_eq_true.mp hk c hc
    rcases hspelled c hc with hlower | rfl
    · have hapart : CharSet.digits.apart CharSet.lower = true := rfl
      have hnot := CharSet.not_holds_of_apart hapart (holds_digits_iff.mpr hdigit)
      exact absurd (holds_lower_iff.mpr hlower) (by simp [hnot])
    · cases hdigit

/-! ## What the rule declares -/

/-- What stands behind a short name in a longer word starts with a letter. -/
theorem FlexWord.head?_rest {f : FlexWord} {name rest : Text} (hrest : rest ≠ [])
    (h : f.word = name ++ rest) : (rest ++ f.tail).head? ≠ some '-' := by
  obtain ⟨c, r, rfl⟩ := List.exists_cons_of_ne_nil hrest
  have hlower : c.isLower = true := f.lower c (by simp [h])
  rintro hdash
  obtain rfl : c = '-' := Option.some.inj hdash
  cases hlower

theorem FlexWord.match?_of_name {f : FlexWord} {name rest : Text} (hname : name ∈ shortNames)
    (hrest : rest ≠ []) (h : f.word = name ++ rest) :
    flex.pattern.match? f.text = some ⟨f.text, [some name, some (rest ++ f.tail)]⟩ := by
  have hbehind : f.word ++ f.tail = name ++ (rest ++ f.tail) := by rw [h, List.append_assoc]
  have htext : f.text = "flex-" ++ (name ++ (rest ++ f.tail)) :=
    congrArg ("flex-".toList ++ ·) hbehind
  have hchars : ∀ c ∈ rest ++ f.tail, c.isLower = true ∨ c = '-' :=
    fun c hc => f.spelled (hbehind ▸ List.mem_append_right name hc)
  rw [htext]
  exact match?_flex (readsFirst_shortName hname _).group.opt (head?_rest hrest h) hchars

theorem FlexWord.match?_of_no_name {f : FlexWord}
    (h : ∀ name ∈ shortNames, ¬ name <+: f.word) :
    flex.pattern.match? f.text = some ⟨f.text, [none, some (f.word ++ f.tail)]⟩ := by
  have hkind : (opt (group flexKind)).ReadsFirst [] [none] (f.word ++ f.tail) :=
    readsFirst_opt_absent (readings_group_of_nil (f.readings_flexKind h))
  have hdash : (f.word ++ f.tail).head? ≠ some '-' :=
    head?_rest f.ne_nil (List.nil_append f.word).symm
  exact match?_flex hkind hdash fun c hc => f.spelled hc

theorem declareFlex_of_property {m : Match} {property : Text}
    (hname : (m.group 1, property) ∈ flexProperties) (hvalue : m.group 2 ≠ []) :
    declareFlex m = some
      (Declarations.single property ((flexValues.lookup (m.group 2)).getD (m.group 2))) := by
  have hnames : ∀ p ∈ flexProperties, ¬ (p.1.isEmpty || p.1 = "~".toList) = true ∧
      ¬ p.1 = "center" ∧ ¬ p.1.all Char.isDigit = true ∧
        flexProperties.lookup p.1 = some p.2 := by decide
  obtain ⟨hplain, hcenter, hdigits, hproperty⟩ := hnames _ hname
  dsimp only at hplain hcenter hdigits hproperty
  have hfull : ¬ (m.group 2).isEmpty = true := by simpa using hvalue
  unfold declareFlex
  dsimp only
  rw [if_neg hplain, if_neg hcenter, if_neg hdigits, hproperty, Option.map_some, if_neg hfull]

/-- The flex rule takes a short name at the start of a longer word, with the rest for its value. -/
theorem FlexWord.declares_of_property {f : FlexWord} {name property rest : Text}
    (hname : (name, property) ∈ flexProperties) (hrest : rest ≠ []) (h : f.word = name ++ rest) :
    Declares "flex" f.text
      [(property, (flexValues.lookup (rest ++ f.tail)).getD (rest ++ f.tail))] := by
  have hshort : ∀ p ∈ flexProperties, p.1 ∈ shortNames := by decide
  have hvalue : rest ++ f.tail ≠ [] := List.append_ne_nil_of_left_ne_nil hrest f.tail
  have hmatch := f.match?_of_name (hshort _ hname) hrest h
  exact declares_of_match flex_mem hmatch (declareFlex_of_property hname hvalue)

theorem FlexWord.declares_of_center {f : FlexWord} {rest : Text} (hrest : rest ≠ [])
    (h : f.word = "center" ++ rest) : Declares "flex" f.text
      [("display", "flex"), ("justify-content", "center"), ("align-items", "center")] :=
  declares_of_match flex_mem (f.match?_of_name List.mem_cons_self hrest h) rfl

theorem FlexWord.declares_of_no_name {f : FlexWord}
    (h : ∀ name ∈ shortNames, ¬ name <+: f.word) :
    Declares "flex" f.text [("display", "flex")] :=
  declares_of_match flex_mem (f.match?_of_no_name h) rfl

theorem Declares.gives_iff {rule token property : Text} {pairs : List (Text × Text)}
    (h : Declares rule token pairs) : Gives token property ↔ property ∈ pairs.map Prod.fst := by
  obtain ⟨d, hd, rfl⟩ := h
  constructor
  · rintro ⟨rule', d', hd', hmem⟩
    cases hd.symm.trans hd'
    exact hmem
  · exact fun hmem => ⟨rule, d, hd, hmem⟩

/-- **Words behind `flex-`.**  Where the word is not a short name itself, a flex property is
declared for it just if a short name starts it.  The rest of the word is then the start of the
value.  Otherwise the token makes a flex container. -/
theorem flex_words_read (f : FlexWord) (hword : f.word ∉ shortNames) :
    ((∃ property ∈ shortened, Gives f.text property) ↔ ∃ name ∈ shortNames, name <+: f.word) ∧
    (∀ name property rest, (name, property) ∈ flexProperties → f.word = name ++ rest →
      Declares "flex" f.text
        [(property, (flexValues.lookup (rest ++ f.tail)).getD (rest ++ f.tail))]) ∧
    (∀ rest, f.word = "center" ++ rest → Declares "flex" f.text
      [("display", "flex"), ("justify-content", "center"), ("align-items", "center")]) ∧
    ((∀ name ∈ shortNames, ¬ name <+: f.word) → Declares "flex" f.text [("display", "flex")]) := by
  -- the word is longer than any name it starts with, so there is a value
  have hlonger {name rest : Text} (hname : name ∈ shortNames) (h : f.word = name ++ rest) :
      rest ≠ [] := by
    rintro rfl
    exact hword (by rwa [h, List.append_nil])
  have hproperty {name property rest : Text} (hname : (name, property) ∈ flexProperties)
      (h : f.word = name ++ rest) : Declares "flex" f.text
        [(property, (flexValues.lookup (rest ++ f.tail)).getD (rest ++ f.tail))] := by
    have hshort : ∀ p ∈ flexProperties, p.1 ∈ shortNames := by decide
    exact f.declares_of_property hname (hlonger (hshort _ hname) h) h
  have hcenter {rest : Text} (h : f.word = "center" ++ rest) : Declares "flex" f.text
      [("display", "flex"), ("justify-content", "center"), ("align-items", "center")] :=
    f.declares_of_center (hlonger List.mem_cons_self h) h
  refine ⟨⟨?_, ?_⟩, fun name property rest => hproperty, fun rest => hcenter,
    f.declares_of_no_name⟩
  · rintro ⟨property, hshortened, hgives⟩
    by_contra hnone
    push Not at hnone
    have hplain := (f.declares_of_no_name hnone).gives_iff.mp hgives
    obtain rfl := List.mem_singleton.mp hplain
    exact absurd hshortened (by decide)
  · rintro ⟨name, hname, rest, hrest⟩
    have hcases : name = "center" ∨ ∃ property, (name, property) ∈ flexProperties := by
      have hall : ∀ name ∈ shortNames, name = "center" ∨
          ∃ p ∈ flexProperties, p.1 = name := by decide
      refine (hall name hname).imp_right ?_
      rintro ⟨p, hp, rfl⟩
      exact ⟨p.2, hp⟩
    rcases hcases with rfl | ⟨property, hmem⟩
    · exact ⟨"align-items", by decide, (hcenter hrest.symm).gives_iff.mpr (by decide)⟩
    · exact ⟨property, List.mem_map_of_mem hmem, (hproperty hmem hrest.symm).gives_iff.mpr
        List.mem_cons_self⟩

theorem flex_words_read_wrapper : ∃ f : FlexWord, f.text = "flex-wrapper-reverse" ∧
    f.word ∉ shortNames ∧ Declares "flex" f.text [("flex-wrap", "per-reverse")] := by
  have hvalue : ∀ v ∈ some "reverse".toList, ∀ c ∈ v, c.isLower = true ∨ c = '-' := by
    rintro v ⟨⟩ c hc
    exact Or.inl (List.all_eq_true.mp rfl c hc)
  let f : FlexWord :=
    ⟨"wrapper", some "reverse", by decide, List.all_eq_true.mp rfl, hvalue⟩
  have hword : "wrapper".toList ∉ shortNames := by decide
  have hread := (flex_words_read f hword).2.1 "wrap" "flex-wrap" "per" (by decide) rfl
  exact ⟨f, rfl, hword, hread⟩

/-- A short name need not be a whole word: `flex-direction` is read as `d` and `irection`. -/
theorem flex_word_cut : ¬ ∀ f : FlexWord, f.word ∉ shortNames →
    ∀ property ∈ shortened, ¬ Gives f.text property := by
  intro hwhole
  let f : FlexWord := ⟨"direction", none, by decide, List.all_eq_true.mp rfl, nofun⟩
  have hname : ("d".toList, "flex-direction".toList) ∈ flexProperties := by decide
  have hrest : "irection".toList ≠ [] := by decide
  have hcut : Declares "flex" f.text [("flex-direction", "irection")] :=
    f.declares_of_property hname hrest rfl
  have hgives : Gives f.text "flex-direction" := hcut.gives_iff.mpr List.mem_cons_self
  exact hwhole f (by decide) "flex-direction" (by decide) hgives

end AttributeCss.Rule
