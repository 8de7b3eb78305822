/-
What becomes of a rule when its entry is listed.

Scans add one facet only to an entry that is there already: it is listed.
Token and pseudo-class of an entry do not depend on that facet, so neither do
its declarations.  What does is the sign behind the attribute name in the
selector, which is `=` or, for a listed entry, `~=`.
-/
import AttributeCss.Stylesheet

namespace AttributeCss

/-- The facets without that of being listed. -/
def Facets.unlisted (f : Facets) : Facets := { f with listed := false }

theorem Facets.unlisted_union (f g : Facets) : (f ∪ g).unlisted = f.unlisted ∪ g.unlisted := rfl

theorem Utility.ofEntry_congr {e e' : Entry} (hkey : e'.key = e.key)
    (hfacets : e'.facets.unlisted = e.facets.unlisted) (marker : Text) :
    ofEntry marker e' = ofEntry marker e := by
  have hsplit : e'.split = e.split := congrArg Entry.splitKey hkey
  have hname : e'.name = e.name := congrArg Prod.fst hsplit
  have hvalue : e'.value = e.value := congrArg Prod.snd hsplit
  obtain ⟨-, hpseudo, hvaluePseudo, happended, -⟩ := Facets.mk.inj hfacets
  simp only [ofEntry, hname, hvalue, hpseudo, hvaluePseudo, happended]

namespace Selector

theorem escape_append (s t : Text) : escape (s ++ t) = escape s ++ escape t := by
  simp [escape]

/-- Whether a value stands alone or among others shows in the sign of its selector only. -/
theorem exists_write (name value : Text) (pseudo : Option Text) :
    ∃ rest, ∀ among, (⟨name, some (among, value), pseudo⟩ : Selector).write =
      '[' :: escape name ++ (if among then ['~', '='] else ['=']) ++ rest := by
  refine ⟨escape (Text.quoteMark :: value ++ [Text.quoteMark]) ++
    ']' :: (pseudo.map (':' :: ·)).getD [], ?_⟩
  intro among
  have hsign : escape (if among then ['~', '='] else ['=']) =
      if among then ['~', '='] else ['='] := by
    cases among <;> decide
  have hcondition : (⟨name, some (among, value), pseudo⟩ : Selector).condition =
      name ++ ((if among then ['~', '='] else ['=']) ++
        (Text.quoteMark :: value ++ [Text.quoteMark])) := by
    simp only [condition, List.append_assoc]
  rw [write, hcondition, escape_append, escape_append, hsign]
  cases pseudo with
  | none => simp only [List.append_assoc, List.cons_append, Option.map_none, Option.getD_none]
  | some name => simp only [List.append_assoc, List.cons_append, Option.map_some, Option.getD_some]

end Selector

namespace Entry

/-- What scans make of the entry `e`: an entry `e'` with the same key, which asks for the same, and
whose rule is the one of `e`, or that rule with `~=` for the `=` behind the attribute name. -/
structure Becomes (marker : Text) (table : RuleTable) (e e' : Entry) : Prop where
  key : e'.key = e.key
  utility : Utility.ofEntry marker e' = Utility.ofEntry marker e
  rule : e'.rule marker table = e.rule marker table ∨
    ∃ rest, e.rule marker table = '[' :: Selector.escape e.name ++ '=' :: rest ∧
      e'.rule marker table = '[' :: Selector.escape e.name ++ '~' :: '=' :: rest

variable {marker : Text} {table : RuleTable} {e e' : Entry}

/-- Where something is declared, the rule is the selector and then what depends on the utility
alone. -/
theorem exists_rule
    (h : (table.apply (Utility.ofEntry marker e).token).declarations.isEmpty = false) :
    ∃ body, ∀ e', Utility.ofEntry marker e' = Utility.ofEntry marker e →
      e'.rule marker table =
        (Selector.ofEntry e' (Utility.ofEntry marker e).pseudo).write ++ body := by
  refine ⟨" \x7b ".toList ++
    (table.apply (Utility.ofEntry marker e).token).declarations.write ++ " \x7d ".toList, ?_⟩
  intro e' hutility
  simp only [rule, hutility, h, Bool.false_eq_true, if_false, List.append_assoc]

theorem becomes_of_unlisted_eq (hkey : e'.key = e.key)
    (hfacets : e'.facets.unlisted = e.facets.unlisted)
    (hlisted : e.facets.listed = true → e'.facets.listed = true) :
    e.Becomes marker table e' := by
  have hutility := Utility.ofEntry_congr hkey hfacets marker
  refine ⟨hkey, hutility, ?_⟩
  have hsplit : e'.split = e.split := congrArg splitKey hkey
  have hname : e'.name = e.name := congrArg Prod.fst hsplit
  have hvalue : e'.value = e.value := congrArg Prod.snd hsplit
  cases hdeclared : (table.apply (Utility.ofEntry marker e).token).declarations.isEmpty with
  | true =>
      have hnone : e.rule marker table = [] := by simp [rule, hdeclared]
      have hnone' : e'.rule marker table = [] := by simp [rule, hutility, hdeclared]
      exact Or.inl (hnone'.trans hnone.symm)
  | false =>
      obtain ⟨body, hbody⟩ := exists_rule hdeclared
      have hrule := hbody e rfl
      have hrule' := hbody e' hutility
      rw [Selector.ofEntry, hname, hvalue] at hrule'
      rw [Selector.ofEntry] at hrule
      by_cases hempty : e.value = []
      · -- the selector only asks for the attribute
        rw [hempty] at hrule hrule'
        exact Or.inl (hrule'.trans hrule.symm)
      · rw [if_neg (by simpa using hempty)] at hrule hrule'
        obtain ⟨rest, hwrite⟩ :=
          Selector.exists_write e.name e.value (Utility.ofEntry marker e).pseudo
        rw [hwrite] at hrule hrule'
        cases hbefore : e.facets.listed with
        | true =>
            rw [hbefore] at hrule
            rw [hlisted hbefore] at hrule'
            exact Or.inl (hrule'.trans hrule.symm)
        | false =>
            rw [hbefore] at hrule
            cases hafter : e'.facets.listed with
            | false =>
                rw [hafter] at hrule'
                exact Or.inl (hrule'.trans hrule.symm)
            | true =>
                rw [hafter] at hrule'
                refine Or.inr ⟨rest ++ body, hrule.trans ?_, hrule'.trans ?_⟩ <;> simp

end Entry

end AttributeCss
