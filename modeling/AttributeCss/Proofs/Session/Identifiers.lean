/-
Whether a selector names an attribute.

In a selector the name of an attribute has to be an identifier, and what no
identifier can hold stands behind a backslash.  The library puts one before
colons and slashes.  Two more characters come to a name, since the rules can
read them in a token and a token may stand in the name as a whole:

    xe-w-50%      [xe-w-50%]
    xe-flex-~     [xe-flex-~]

These rules are written, but a reader of stylesheets passes them over.  All
other names that have a rule are written as identifiers (`identifier_iff_run`).
-/
import AttributeCss.Proofs.Session.Confined
import AttributeCss.Proofs.Session.Settled

namespace AttributeCss

/-! ## Identifiers -/

namespace Css

/-- A character that may stand in an identifier as it is: ASCII letters and digits, the dash, the
underscore and all that is not ASCII. -/
def isIdentChar (c : Char) : Bool := c.isAlphanum || c = '-' || c = '_' || 128 ≤ c.toNat

/-- Whatever cannot stand in an identifier as it is stands behind a backslash. -/
def isIdentifier : Text → Bool
  | [] => true
  | [c] => isIdentChar c
  | c :: d :: r =>
      if c = Text.backslash then isIdentifier r else isIdentChar c && isIdentifier (d :: r)

theorem isIdentifier_cons {c : Char} (hc : c ≠ Text.backslash) (t : Text) :
    isIdentifier (c :: t) = (isIdentChar c && isIdentifier t) := by
  cases t with
  | nil => simp [isIdentifier]
  | cons d r => rw [isIdentifier, if_neg hc]

theorem isIdentifier_backslash (c : Char) (t : Text) :
    isIdentifier (Text.backslash :: c :: t) = isIdentifier t := by
  rw [isIdentifier, if_pos rfl]

theorem isIdentChar_of_isPseudoNameChar {c : Char} (h : isPseudoNameChar c = true) :
    isIdentChar c = true := by
  simp only [isPseudoNameChar, Bool.or_eq_true] at h
  rcases h with h | h <;> simp [isIdentChar, h]

end Css

open Css

/-- Escaped, a text is an identifier if all its characters are colons, slashes or such that may
stand in one. -/
theorem Selector.isIdentifier_escape {t : Text} (hback : Text.backslash ∉ t) :
    isIdentifier (escape t) = true ↔ ∀ c ∈ t, isIdentChar c = true ∨ c = ':' ∨ c = '/' := by
  induction t with
  | nil => simp [escape, isIdentifier]
  | cons c t ih =>
      obtain ⟨hne, hrest⟩ := not_or.mp (mt List.mem_cons.mpr hback)
      rw [List.forall_mem_cons, ← ih hrest]
      by_cases hspecial : c = ':' ∨ c = '/'
      · have hescape : escape (c :: t) = Text.backslash :: c :: escape t := by
          rcases hspecial with rfl | rfl <;> simp [escape]
        rw [hescape, isIdentifier_backslash]
        simp [hspecial]
      · obtain ⟨hcolon, hslash⟩ := not_or.mp hspecial
        rw [escape_cons_of_ne hcolon hslash, isIdentifier_cons (Ne.symm hne), Bool.and_eq_true]
        simp [hcolon, hslash]

/-! ## Names with a rule -/

/-- What a rule can read and no identifier can hold. -/
def Rule.specials : List Char := [':', '/', '%', '~']

theorem Rule.isIdentChar_of_alphabet {c : Char} (h : alphabet.holds c = true) :
    isIdentChar c = true ∨ c ∈ specials := by
  simp only [alphabet, CharSet.holds, List.any_cons, List.any_nil, SetItem.holds, Bool.or_false,
    Bool.or_eq_true, Bool.and_eq_true, decide_eq_true_eq] at h
  rcases h with h | h | rfl | rfl | rfl | rfl
  · have hlower : c.isLower = true :=
      (Bool.and_eq_true ..).mpr ⟨decide_eq_true h.1, decide_eq_true h.2⟩
    have hletter : c.isAlpha = true := (Bool.or_eq_true ..).mpr (Or.inr hlower)
    simp [isIdentChar, Char.isAlphanum, hletter]
  · have hdigit : c.isDigit = true :=
      (Bool.and_eq_true ..).mpr ⟨decide_eq_true h.1, decide_eq_true h.2⟩
    simp [isIdentChar, Char.isAlphanum, hdigit]
  all_goals decide

/-- Of the special characters of rules the colon and the slash are escaped, and the other two are
not. -/
theorem Selector.isIdentifier_escape_iff {t : Text}
    (ht : ∀ c ∈ t, isIdentChar c = true ∨ c ∈ Rule.specials) :
    isIdentifier (escape t) = true ↔ '%' ∉ t ∧ '~' ∉ t := by
  have hback : Text.backslash ∉ t := fun hmem => absurd (ht _ hmem) (by decide)
  rw [isIdentifier_escape hback]
  constructor
  · intro hall
    exact ⟨fun hmem => absurd (hall _ hmem) (by decide),
      fun hmem => absurd (hall _ hmem) (by decide)⟩
  · rintro ⟨hpercent, htilde⟩ c hc
    refine (ht c hc).imp_right fun hspecial => ?_
    simp only [Rule.specials, List.mem_cons, List.not_mem_nil, or_false] at hspecial
    rcases hspecial with rfl | rfl | rfl | rfl
    · exact Or.inl rfl
    · exact Or.inr rfl
    · exact absurd hc hpercent
    · exact absurd hc htilde

namespace Entry

variable {v : Vocabulary} {e : Entry}

/-- Under a marker that may stand in an identifier, a name with a rule holds nothing else but what
rules can read. -/
theorem isIdentChar_of_rule (hmarker : ∀ c ∈ v.marker, isIdentChar c = true)
    (hpseudo : e.facets.pseudo = (v.nameFacets e.name).pseudo)
    (hrule : e.rule v.marker Rule.builtin ≠ []) :
    ∀ c ∈ e.name, isIdentChar c = true ∨ c ∈ Rule.specials := by
  intro c hc
  rcases Utility.mem_token_of_mem_name hpseudo hc with htoken | hmem | hclass | rfl
  · exact Rule.isIdentChar_of_alphabet
      (RuleTable.holds_of_declarations Rule.builtin_spells (declarations_of_rule hrule) htoken)
  · exact Or.inl (hmarker c hmem)
  · exact Or.inl (isIdentChar_of_isPseudoNameChar hclass)
  · exact Or.inr (by decide)

theorem exists_rule_name {marker : Text} {table : RuleTable} (hrule : e.rule marker table ≠ []) :
    ∃ rest, (rest.head? = some ']' ∨ rest.head? = some '=' ∨ ['~', '='] <+: rest) ∧
      e.rule marker table = '[' :: Selector.escape e.name ++ rest := by
  obtain ⟨body, hbody⟩ := exists_rule (declarations_of_rule hrule)
  rw [hbody e rfl, Selector.ofEntry]
  split
  · refine ⟨']' :: (((Utility.ofEntry marker e).pseudo.map (':' :: ·)).getD [] ++ body),
      Or.inl rfl, ?_⟩
    rw [Selector.write_eq]
    simp only [Selector.condition, List.append_assoc, List.cons_append]
  · obtain ⟨rest, hwrite⟩ :=
      Selector.exists_write e.name e.value (Utility.ofEntry marker e).pseudo
    rw [hwrite, List.append_assoc, List.append_assoc]
    refine ⟨_, Or.inr ?_, rfl⟩
    cases e.facets.listed with
    | false => exact Or.inl rfl
    | true => exact Or.inr ⟨rest ++ body, rfl⟩

end Entry

/-! ## Names in a run -/

/-- The text starts with an ASCII letter. -/
def StartsWithLetter (t : Text) : Prop := ∃ c ∈ t.head?, c.isAlpha = true

theorem StartsWithLetter.of_leading {s t : Text} (hs : StartsWithLetter s) (h : s <+: t) :
    StartsWithLetter t := by
  obtain ⟨c, hc, hletter⟩ := hs
  obtain ⟨rest, rfl⟩ := h
  exact ⟨c, List.mem_head?_append_of_mem_head? hc, hletter⟩

theorem startsWithLetter_of_isPseudoName {s : Text} (h : isPseudoName s = true) :
    StartsWithLetter s := by
  cases s with
  | nil => cases h
  | cons c r => exact ⟨c, rfl, ((Bool.and_eq_true ..).mp h).1⟩

theorem Vocabulary.startsWithLetter_of_isDeclaration {v : Vocabulary} {name : Text}
    (hmarker : StartsWithLetter v.marker) (h : (v.nameFacets name).isDeclaration = true) :
    StartsWithLetter name := by
  unfold nameFacets at h
  split at h
  · next hprefix => exact hmarker.of_leading (List.isPrefixOf_iff_prefix.mp hprefix)
  · split at h
    · next hpseudo =>
        obtain ⟨s, hs, hprefix⟩ := exists_leads_of_startsWithPseudo hpseudo
        exact (startsWithLetter_of_isPseudoName (v.pseudos_named s hs)).of_leading
          ((List.prefix_append s [':']).trans hprefix)
    · cases h

/-- **Which selectors name an attribute.**  Take a marker of an ASCII letter and characters that may
stand in an identifier, the built-in rules, any run that restores nothing, with the library's own
reader, and an entry it leaves that has a rule.  The rule starts with a bracket and the escaped name
of the entry, up to the sign before the value or the closing bracket.  The name starts with a letter
and holds nothing that cannot stand in an identifier, but colons, slashes, percent signs and tildes;
and escaped it is an identifier just if it holds no percent sign and no tilde. -/
theorem Session.identifier_iff_run (u : Setup) (hread : u.host.readMarkup = MarkupResult.ofText)
    (hrules : u.host.rules = Rule.builtin) (hletter : StartsWithLetter u.vocabulary.marker)
    (hmarker : ∀ c ∈ u.vocabulary.marker, isIdentChar c = true) (ms : List Move)
    (hms : ∀ m ∈ ms, ¬ m.Restores) (e : Entry) (he : e ∈ (run (start u) ms).2.registry.entries)
    (hrule : e.rule u.vocabulary.marker u.host.rules ≠ []) :
    (∃ rest, (rest.head? = some ']' ∨ rest.head? = some '=' ∨ ['~', '='] <+: rest) ∧
      e.rule u.vocabulary.marker u.host.rules = '[' :: Selector.escape e.name ++ rest) ∧
    StartsWithLetter e.name ∧
    (∀ c ∈ e.name, isIdentChar c = true ∨ c ∈ [':', '/', '%', '~']) ∧
    (isIdentifier (Selector.escape e.name) = true ↔ '%' ∉ e.name ∧ '~' ∉ e.name) := by
  obtain ⟨hkey, hequals, o, ho, honame, -⟩ := exists_found_of_mem_entries hread hms he
  have hdeclares : (u.vocabulary.nameFacets e.name).isDeclaration = true :=
    honame ▸ Occurrence.isDeclaration_of_of? (of?_of_mem_found ho)
  obtain ⟨hpseudo, -⟩ := Vocabulary.facets_of_unlisted_eq
    (unlisted_of_get?_run hread hms (Registry.get?_of_mem_entries he))
  have hchars : ∀ c ∈ e.name, isIdentChar c = true ∨ c ∈ Rule.specials :=
    Entry.isIdentChar_of_rule hmarker hpseudo (hrules ▸ hrule)
  exact ⟨Entry.exists_rule_name hrule,
    Vocabulary.startsWithLetter_of_isDeclaration hletter hdeclares, hchars,
    Selector.isIdentifier_escape_iff hchars⟩

/-- A name with two colons is written as an identifier; the same width as a value and in the name is
written as one and not as one. -/
theorem Session.identifier_iff_run_segment :
    let u := Setup.standard {}
    let ms : List Move := [.scan (.source "<template><i hover:xe:10='m' xe-w='50%'></i></template>")]
    let e : Entry := ⟨"hover:xe:10=m", { pseudo := true, appended := true }⟩
    let e' : Entry := ⟨"xe-w=50%", { marked := true }⟩
    (run (start u) ms).2.registry.entries = [e, e'] ∧
      isIdentifier (Selector.escape e.name) = true ∧
      isIdentifier (Selector.escape e'.name) = true := by
  intro u ms e e'
  have hms : ∀ m ∈ ms, ¬ m.Restores := by simp [ms, Move.Restores]
  have hentries : (run (start u) ms).2.registry.entries = [e, e'] := by decide +kernel
  have hmarker : ∀ c ∈ u.vocabulary.marker, isIdentChar c = true :=
    List.all_eq_true.mp (by decide : u.vocabulary.marker.all isIdentChar = true)
  have he := identifier_iff_run u rfl rfl ⟨'x', rfl, by decide⟩ hmarker ms hms e
    (by simp [hentries]) (by decide +kernel)
  have he' := identifier_iff_run u rfl rfl ⟨'x', rfl, by decide⟩ hmarker ms hms e'
    (by simp [hentries]) (by decide +kernel)
  exact ⟨hentries, he.2.2.2.mpr (by decide), he'.2.2.2.mpr (by decide)⟩

/-- A width in the name of an attribute has a rule, and the name in it is no identifier. -/
theorem Session.not_identifier_of_percent :
    let u := Setup.standard {}
    let ms : List Move := [.scan (.source "<template><i xe-w-50%></i></template>")]
    let e : Entry := ⟨"xe-w-50%=", { marked := true }⟩
    (run (start u) ms).2.registry.entries = [e] ∧
      e.rule u.vocabulary.marker u.host.rules = "[xe-w-50%] \x7b width:50%!important; \x7d " ∧
      isIdentifier (Selector.escape e.name) = false := by
  decide +kernel

end AttributeCss
