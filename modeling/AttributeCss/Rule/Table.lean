/-
Rules and rule tables.

A rule claims the tokens its pattern matches and turns the match into
declarations.  A table is tried in order: the first rule that claims a token
answers for it, even when it then has nothing to say.
-/
import AttributeCss.Css.Declarations
import AttributeCss.Rule.Pattern

namespace AttributeCss

open Css

/-- A rule: a named pattern and what a match of it declares. -/
structure Rule where
  name : Text
  pattern : Pattern
  /-- The declarations for a match, or nothing if the rule can make no sense of it. -/
  declare : Match → Option Declarations

/-- What a table says about a token. -/
inductive Outcome where
  | matched (rule : Text) (declarations : Declarations)
  /-- The rule claimed the token and could make no sense of it. -/
  | rejected (rule : Text)
  | unmatched

/-- The declarations made for a token. -/
def Outcome.declarations : Outcome → Declarations
  | matched _ d => d
  | rejected _ | unmatched => OrderedMap.empty

/-- Rules in the order in which they are tried. -/
abbrev RuleTable := List Rule

/-- What a rule says about a match of its pattern. -/
def Rule.answer (rule : Rule) (m : Match) : Outcome :=
  match rule.declare m with
  | some d => .matched rule.name d
  | none => .rejected rule.name

namespace RuleTable

/-- What the first rule that claims the token says about it. -/
def apply (table : RuleTable) (token : Text) : Outcome :=
  match table with
  | [] => .unmatched
  | rule :: rest =>
      match rule.pattern.match? token with
      | some m => rule.answer m
      | none => apply rest token

/-- The names of the rules in order. -/
def names (table : RuleTable) : List Text := table.map Rule.name

def claimants (table : RuleTable) (token : Text) : List Rule :=
  table.filter fun rule => (rule.pattern.match? token).isSome

/-! ## Only the first claimant speaks -/

theorem apply_eq_unmatched_of_claimants {table : RuleTable} {token : Text}
    (h : claimants table token = []) : apply table token = .unmatched := by
  induction table with
  | nil => rfl
  | cons rule rest ih =>
    cases hm : rule.pattern.match? token with
    | some m => simp [claimants, hm] at h
    | none =>
      have hr : claimants rest token = [] := by simpa [claimants, hm] using h
      simp only [apply, hm]
      exact ih hr

theorem apply_eq_answer_of_claimants {table : RuleTable} {token : Text} {rule : Rule}
    {others : List Rule} (h : claimants table token = rule :: others) :
    ∃ m, rule.pattern.match? token = some m ∧ apply table token = rule.answer m := by
  induction table with
  | nil => simp [claimants] at h
  | cons first rest ih =>
    cases hm : first.pattern.match? token with
    | some m =>
      simp only [claimants, List.filter_cons, hm, Option.isSome_some, if_true,
        List.cons.injEq] at h
      obtain ⟨rfl, -⟩ := h
      exact ⟨m, hm, by simp [apply, hm]⟩
    | none =>
      have hr : claimants rest token = rule :: others := by simpa [claimants, hm] using h
      obtain ⟨m, h1, h2⟩ := ih hr
      exact ⟨m, h1, by simpa [apply, hm] using h2⟩

end RuleTable

end AttributeCss
