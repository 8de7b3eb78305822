/-
No text of a template gets out of its place.

A rule is written from the name and the value of an attribute as they stand in
the template, and only colons and slashes are escaped.  Still nothing in them
can end the selector or start a rule: of a name and its value everything comes
to the token, but for the marker, a pseudo-class, colons and dashes, and if
there is a rule the token was spelled in the characters of the table.

`IsRule` says what a rule looks like, and where in it such text stands.
-/
import AttributeCss.Proofs.Rule.Inert
import AttributeCss.Proofs.Session.Stability
import AttributeCss.Proofs.Stylesheet.Token

namespace AttributeCss

open Css

/-! ## What a rule looks like -/

/-- What may stand between the square brackets of a rule: a name, or a name and a value in quotation
marks; backslashes stand before colons and slashes. -/
inductive IsCondition : Text → Prop
  | name {name : Text} : name.Inert → IsCondition (Selector.escape name)
  | value {name sign value : Text} : name.Inert → sign = ['='] ∨ sign = ['~', '='] → value.Inert →
      IsCondition (Selector.escape name ++ sign ++
        Text.quoteMark :: Selector.escape value ++ [Text.quoteMark])

/-- The text of a rule that applies under pseudo-classes of a vocabulary only. -/
inductive IsRule (v : Vocabulary) : Text → Prop
  | rule {condition : Text} {pseudo : Option Text} {body : List (Text × Text)} :
      IsCondition condition → (∀ s ∈ pseudo, s ∈ v.pseudos) → body ≠ [] →
      (∀ d ∈ body, d.1.Inert ∧ d.2.Inert) →
      IsRule v ('[' :: condition ++ ']' :: (pseudo.map (':' :: ·)).getD [] ++ " \x7b ".toList ++
        body.flatMap (fun d => d.1 ++ ':' :: d.2 ++ "!important;".toList) ++ " \x7d ".toList)

namespace Selector

theorem write_eq (s : Selector) :
    s.write = '[' :: escape s.condition ++ ']' :: (s.pseudo.map (':' :: ·)).getD [] := by
  obtain ⟨_, _, pseudo⟩ := s
  cases pseudo <;> rfl

theorem escape_cons_of_ne {c : Char} (hcolon : c ≠ ':') (hslash : c ≠ '/') (t : Text) :
    escape (c :: t) = c :: escape t := by
  simp [escape, hcolon, hslash]

theorem isCondition {e : Entry} (hname : e.name.Inert) (hvalue : e.value.Inert)
    (pseudo : Option Text) : IsCondition (escape (ofEntry e pseudo).condition) := by
  unfold ofEntry
  split
  · exact .name hname
  · show IsCondition (escape (e.name ++ (if e.facets.listed then ['~', '='] else ['=']) ++
      Text.quoteMark :: e.value ++ [Text.quoteMark]))
    have hsign : escape (if e.facets.listed then ['~', '='] else ['=']) =
        if e.facets.listed then ['~', '='] else ['='] := by
      cases e.facets.listed <;> decide
    have hquote : ∀ t, escape (Text.quoteMark :: t) = Text.quoteMark :: escape t :=
      escape_cons_of_ne (by decide) (by decide)
    rw [escape_append, escape_append, escape_append, hsign, hquote, hquote]
    exact .value hname (by cases e.facets.listed <;> simp) hvalue

end Selector

/-! ## Where the characters of a name go -/

namespace Utility

theorem mem_dropDash {t : Text} {c : Char} (h : c ∈ t) : c ∈ dropDash t ∨ c = '-' := by
  unfold dropDash
  split
  · exact (List.mem_cons.mp h).symm
  · exact Or.inl h

theorem mem_withoutMarker {marker name : Text} {c : Char} (h : c ∈ name) :
    c ∈ withoutMarker marker name ∨ c ∈ marker ∨ c = '-' := by
  unfold withoutMarker
  split
  · next r hr =>
      rw [Text.eq_of_behind? hr] at h
      rcases List.mem_append.mp h with h | h
      · exact Or.inr (Or.inl h)
      · rcases mem_dropDash h with h | h
        · exact Or.inl h
        · exact Or.inr (Or.inr h)
  · split
    · exact Or.inl h
    · next lead rest hcut =>
        split
        · next r hr =>
            rw [(Text.eq_of_cutFirst hcut).1, Text.eq_of_behind? hr] at h
            simp only [List.mem_append, List.mem_cons] at h ⊢
            rcases h with h | h | h | h
            · exact Or.inl (Or.inl h)
            · exact Or.inl (Or.inr (Or.inl h))
            · exact Or.inr (Or.inl h)
            · rcases mem_dropDash h with h | h
              · exact Or.inl (Or.inr (Or.inr h))
              · exact Or.inr (Or.inr h)
        · exact Or.inl h

variable {v : Vocabulary}

theorem startsWithPseudo_withoutMarker {name : Text} (h : (v.nameFacets name).pseudo = true) :
    v.startsWithPseudo (withoutMarker v.marker name) = true := by
  obtain ⟨hmarker, s, hs⟩ := Vocabulary.exists_leads_of_nameFacets h
  obtain ⟨rest, heq⟩ := (leads_withoutMarker hmarker hs).exists_rest
  exact Vocabulary.startsWithPseudo_iff.mpr ⟨s, hs.1, rest, heq⟩

theorem mem_moveSegment_name {appended : Bool} {name value : Text} {c : Char} (h : c ∈ name) :
    c ∈ (moveSegment appended name value).1 ∨ c ∈ (moveSegment appended name value).2 ∨
      c = ':' := by
  unfold moveSegment
  split
  · next rest segment hcut =>
      have hsegment : cutSegment name = some (rest, segment) := by
        cases appended
        · cases hcut
        · exact hcut
      rw [Text.eq_of_cutLast (Option.filter_eq_some_iff.mp hsegment).1] at h
      rcases List.mem_append.mp h with h | h
      · exact Or.inl h
      · rcases List.mem_cons.mp h with h | h
        · exact Or.inr (Or.inr h)
        · exact Or.inr (Or.inl (List.mem_append_right _ (List.mem_cons_of_mem _ h)))
  · exact Or.inl h

theorem mem_hyphenated_name {name value : Text} {c : Char} (h : c ∈ name) :
    c ∈ hyphenated name value := by
  unfold hyphenated
  split <;> exact List.mem_append_left _ h

/-- A character of the name comes to the token, or it belongs to the marker or a pseudo-class. -/
theorem mem_token_of_mem_name {e : Entry}
    (hpseudo : e.facets.pseudo = (v.nameFacets e.name).pseudo) {c : Char} (hc : c ∈ e.name) :
    c ∈ (ofEntry v.marker e).token ∨ c ∈ v.marker ∨ isPseudoNameChar c = true ∨ c = ':' := by
  have hcarries : e.facets.pseudo = true →
      v.startsWithPseudo (withoutMarker v.marker e.name) = true :=
    fun h => startsWithPseudo_withoutMarker (hpseudo ▸ h)
  rcases mem_withoutMarker hc with hc | hc | rfl
  · rcases (takePseudo_spec hcarries).2 c hc with hc | hc
    · rcases mem_moveSegment_name hc with hc | hc | hc
      · exact Or.inl (mem_hyphenated_name hc)
      · exact Or.inl (mem_hyphenated hc)
      · exact Or.inr (Or.inr (Or.inr hc))
    · exact Or.inr (Or.inr hc)
  · exact Or.inr (Or.inl hc)
  · exact Or.inr (Or.inr (Or.inl (by decide)))

theorem pseudo_mem {e : Entry} (hpseudo : e.facets.pseudo = (v.nameFacets e.name).pseudo)
    (hvaluePseudo : e.facets.valuePseudo = v.startsWithPseudo e.value) :
    ∀ s ∈ (ofEntry v.marker e).pseudo, s ∈ v.pseudos := by
  intro s hs
  have hname : e.facets.pseudo = true →
      v.startsWithPseudo (withoutMarker v.marker e.name) = true :=
    fun h => startsWithPseudo_withoutMarker (hpseudo ▸ h)
  rcases Option.or_eq_some_iff.mp hs with hs | ⟨-, hs⟩
  · exact (takePseudo_spec fun h => hvaluePseudo ▸ h).1 s hs
  · exact (takePseudo_spec hname).1 s hs

end Utility

/-! ## Rules of a run -/

theorem Entry.rule_of_ownFacets {v : Vocabulary} (hmarker : v.marker.Inert) {e : Entry}
    (hfacets : e.facets.unlisted = v.ownFacets e.name e.value) :
    e.rule v.marker Rule.builtin = [] ∨ IsRule v (e.rule v.marker Rule.builtin) := by
  by_cases hrule : e.rule v.marker Rule.builtin = []
  · exact Or.inl hrule
  have hdeclared := declarations_of_rule hrule
  obtain ⟨hpseudo, hvaluePseudo, -⟩ := Vocabulary.facets_of_unlisted_eq hfacets
  have htoken : (Utility.ofEntry v.marker e).token.Inert := Rule.inert_token hdeclared
  have hcolon : ':' ∉ Text.delimiters := by decide
  have hclass : ∀ c, isPseudoNameChar c = true → c ∉ Text.delimiters :=
    fun _ => Text.notMem_delimiters_of (by decide)
  have hname : e.name.Inert := by
    intro c hc
    rcases Utility.mem_token_of_mem_name hpseudo hc with hc | hc | hc | rfl
    · exact htoken c hc
    · exact hmarker c hc
    · exact hclass c hc
    · exact hcolon
  have hvalue : e.value.Inert := by
    intro c hc
    rcases Utility.mem_token_or_pseudo v.marker (fun h => hvaluePseudo ▸ h) hc with hc | hc | rfl
    · exact htoken c hc
    · exact hclass c hc
    · exact hcolon
  have hbody : (RuleTable.apply Rule.builtin (Utility.ofEntry v.marker e).token).declarations.toList
      ≠ [] := by
    simpa [OrderedMap.isEmpty] using hdeclared
  have hwritten := IsRule.rule (Selector.isCondition hname hvalue (Utility.ofEntry v.marker e).pseudo)
    (Utility.pseudo_mem hpseudo hvaluePseudo) hbody (Rule.inert_declarations _)
  refine Or.inr ?_
  rw [rule, if_neg (by simp [hdeclared]), Selector.write_eq]
  exact hwritten

/-- **No text of a template gets out of its place.**  In a run that restores nothing, with a marker
without delimiters and the built-in rules, an entry has no rule, or its rule is a condition in
brackets, a pseudo-class of the vocabulary or none, and declarations in braces.  No delimiter stands
in it but these, the quotation marks around the value, the backslashes before colons and slashes,
and the semicolons behind the declarations. -/
theorem Session.isRule_run (u : Setup) (hread : u.host.readMarkup = MarkupResult.ofText)
    (hrules : u.host.rules = Rule.builtin) (hmarker : u.vocabulary.marker.Inert) (ms : List Move)
    (hms : ∀ m ∈ ms, ¬ m.Restores) :
    ∀ e ∈ (run (start u) ms).2.registry.entries,
      e.rule u.vocabulary.marker u.host.rules = [] ∨
        IsRule u.vocabulary (e.rule u.vocabulary.marker u.host.rules) := by
  intro e he
  rw [hrules]
  exact Entry.rule_of_ownFacets hmarker
    (unlisted_of_get?_run hread hms (Registry.get?_of_mem_entries he))

/-- A slash of the value is escaped; a value that would end the rule has none. -/
theorem Session.isRule_run_slash_and_brace :
    let u := Setup.standard {}
    let ms : List Move :=
      [.scan (.source "<template><i hover:xe-bg='red/40' xe-m='1;\x7d'></i></template>")]
    let e : Entry := ⟨"hover:xe-bg=red/40", { pseudo := true }⟩
    let e' : Entry := ⟨"xe-m=1;\x7d", { marked := true }⟩
    u.vocabulary.marker.Inert ∧ (∀ m ∈ ms, ¬ m.Restores) ∧
      (run (start u) ms).2.registry.entries = [e, e'] ∧
      IsRule u.vocabulary (e.rule u.vocabulary.marker u.host.rules) ∧
      e'.rule u.vocabulary.marker u.host.rules = [] := by
  intro u ms e e'
  have hmarker : u.vocabulary.marker.Inert := by decide
  have hms : ∀ m ∈ ms, ¬ m.Restores := by simp [ms, Move.Restores]
  have hentries : (run (start u) ms).2.registry.entries = [e, e'] := by decide +kernel
  have hrule := isRule_run u rfl rfl hmarker ms hms e (hentries ▸ List.mem_cons_self)
  exact ⟨hmarker, hms, hentries, hrule.resolve_left (by decide +kernel), by decide +kernel⟩

end AttributeCss
