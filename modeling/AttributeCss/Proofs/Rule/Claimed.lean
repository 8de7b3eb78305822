/-
Which rule claims a token, and what it then declares.

The built-in rules are apart, so a token that fits the pattern of a rule is
claimed by this rule only.  What the groups of a match hold is settled by the
best reading of the pattern.  `Piece.ReadsFirst` says which that is for a text
put together from the texts of the pieces:

    p.ReadsFirst t gs rest      of the readings of p where t stands before rest,
                                the best takes t, with the groups gs

The language of a rule and its answers then come together in `Rule.Speaks`:
the rule claims the texts of a family of forms and no other, and for each of
them it declares the pairs of the form.
-/
import Mathlib.Data.List.Nodup
import Mathlib.Data.List.Pairwise
import AttributeCss.Proofs.Rule.Disjoint
import AttributeCss.Proofs.Text.Runs

namespace AttributeCss

namespace Piece

/-! ## Best readings -/

/-- Where `t` stands before `rest`, the best reading of the piece takes `t` and has the groups
`gs`. -/
def ReadsFirst (p : Piece) (t : Text) (gs : List (Option Text)) (rest : Text) : Prop :=
  (p.readings (t ++ rest)).head? = some ⟨t, gs, rest⟩

variable {a b : Piece} {t u rest : Text} {gs hs : List (Option Text)}

theorem readsFirst_char (c : Char) (rest : Text) : (char c).ReadsFirst [c] [] rest := by
  simp [ReadsFirst, readings]

theorem readsFirst_oneOf {set : CharSet} {c : Char} (hc : set.holds c = true) (rest : Text) :
    (oneOf set).ReadsFirst [c] [] rest := by
  simp [ReadsFirst, readings, hc]

/-- A run takes the characters that are there for it, if what follows does not go on with them. -/
theorem readsFirst_run {set : CharSet} {least : Nat} {most : Option Nat}
    (hchars : ∀ c ∈ t, set.holds c = true) (hstops : Text.Stops set.holds rest)
    (hleast : least ≤ t.length) (hmost : ∀ n ∈ most, t.length ≤ n) :
    (run set least most).ReadsFirst t [] rest := by
  have htaken : runOf set most (t ++ rest) = t := by
    have hwhile : (t ++ rest).takeWhile set.holds = t := Text.takeWhile_append_stops hchars hstops
    cases most with
    | none => exact hwhile
    | some n =>
        rw [runOf, hwhile]
        exact List.take_of_length_le (hmost n rfl)
  simp [ReadsFirst, readings, htaken, hleast]

/-- Of the readings of the first piece the best that lets the second piece read is taken. -/
theorem ReadsFirst.seq_of_dead_ends {ends others : List Reading}
    (ha : a.readings (t ++ (u ++ rest)) = ends ++ ⟨t, gs, u ++ rest⟩ :: others)
    (hends : ∀ x ∈ ends, b.readings x.rest = []) (hb : b.ReadsFirst u hs rest) :
    (seq a b).ReadsFirst (t ++ u) (gs ++ hs) rest := by
  obtain ⟨others', hb⟩ := List.head?_eq_some_iff.mp hb
  have hnone : (ends.flatMap fun x => (b.readings x.rest).map fun y =>
      (⟨x.taken ++ y.taken, x.groups ++ y.groups, y.rest⟩ : Reading)) = [] := by
    refine List.flatMap_eq_nil_iff.mpr fun x hx => ?_
    rw [hends x hx, List.map_nil]
  simp [ReadsFirst, readings, List.append_assoc, ha, hnone, hb]

theorem ReadsFirst.seq (ha : a.ReadsFirst t gs (u ++ rest)) (hb : b.ReadsFirst u hs rest) :
    (seq a b).ReadsFirst (t ++ u) (gs ++ hs) rest := by
  obtain ⟨others, ha⟩ := List.head?_eq_some_iff.mp ha
  have hends : a.readings (t ++ (u ++ rest)) = [] ++ ⟨t, gs, u ++ rest⟩ :: others := ha
  exact seq_of_dead_ends hends nofun hb

theorem ReadsFirst.group (h : a.ReadsFirst t gs rest) :
    (group a).ReadsFirst t (some t :: gs) rest := by
  obtain ⟨others, h⟩ := List.head?_eq_some_iff.mp h
  simp [ReadsFirst, readings, h]

theorem ReadsFirst.bare (h : a.ReadsFirst t gs rest) : (bare a).ReadsFirst t gs rest := h

theorem ReadsFirst.first (h : a.ReadsFirst t gs rest) :
    (alt a b).ReadsFirst t (gs ++ List.replicate b.groupCount none) rest := by
  obtain ⟨others, h⟩ := List.head?_eq_some_iff.mp h
  simp [ReadsFirst, readings, h]

theorem ReadsFirst.second (ha : a.readings (t ++ rest) = []) (h : b.ReadsFirst t gs rest) :
    (alt a b).ReadsFirst t (List.replicate a.groupCount none ++ gs) rest := by
  obtain ⟨others, h⟩ := List.head?_eq_some_iff.mp h
  simp [ReadsFirst, readings, ha, h]

theorem ReadsFirst.opt (h : a.ReadsFirst t gs rest) : (opt a).ReadsFirst t gs rest := by
  obtain ⟨others, h⟩ := List.head?_eq_some_iff.mp h
  simp [ReadsFirst, readings, h]

theorem readsFirst_opt_absent (h : a.readings rest = []) :
    (opt a).ReadsFirst [] (List.replicate a.groupCount none) rest := by
  simp [ReadsFirst, readings, h]

theorem readsFirst_word (u rest : Text) : (word u).ReadsFirst u [] rest := by
  induction u with
  | nil => rfl
  | cons c r ih =>
      cases r with
      | nil => exact readsFirst_char c rest
      | cons d v => exact (readsFirst_char c ((d :: v) ++ rest)).seq ih

/-! ## Texts without a reading -/

theorem readings_char_of_head? {c : Char} (h : t.head? ≠ some c) : (char c).readings t = [] := by
  cases t with
  | nil => rfl
  | cons d r =>
      have hd : ¬ d = c := fun heq => h (by rw [heq, List.head?_cons])
      simp [readings, hd]

theorem readings_group_of_nil (h : a.readings t = []) : (group a).readings t = [] := by
  simp [readings, h]

end Piece

theorem Pattern.match?_of_readsFirst {p : Pattern} (hstart : p.fromStart = true) {token : Text}
    {gs : List (Option Text)} (h : p.piece.ReadsFirst token gs []) :
    p.match? token = some ⟨token, gs⟩ := by
  obtain ⟨others, h⟩ := List.head?_eq_some_iff.mp h
  rw [List.append_nil] at h
  simp [match?, hstart, here?, h]

namespace Rule

variable {rule rule' : Rule} {token : Text}

/-! ## The rule that claims a token -/

theorem eq_of_name_eq (hrule : rule ∈ builtin) (hrule' : rule' ∈ builtin)
    (h : rule.name = rule'.name) : rule = rule' := by
  have hnodup : (builtin.map Rule.name).Nodup := by decide
  exact List.inj_on_of_nodup_map hnodup hrule hrule' h

theorem eq_of_fits (hrule : rule ∈ builtin) (hrule' : rule' ∈ builtin)
    (hfits : rule.pattern.piece.Fits token) (hfits' : rule'.pattern.piece.Fits token) :
    rule = rule' := by
  have hpairs : builtin.Pairwise fun rule rule' =>
      ¬ (rule.pattern.piece.Fits token ∧ rule'.pattern.piece.Fits token) := by
    refine builtin_apart.imp ?_
    rintro rule rule' hapart ⟨hfits, hfits'⟩
    exact Piece.not_fits_of_apart hapart hfits hfits'
  have hsymm : Std.Symm fun rule rule' : Rule =>
      ¬ (rule.pattern.piece.Fits token ∧ rule'.pattern.piece.Fits token) :=
    ⟨fun _ _ h hboth => h hboth.symm⟩
  by_contra hne
  exact hpairs.forall hrule hrule' hne ⟨hfits, hfits'⟩

theorem fits_of_match (hrule : rule ∈ builtin) {m : Match}
    (h : rule.pattern.match? token = some m) : rule.pattern.piece.Fits token :=
  Pattern.fits_of_match (builtin_whole rule hrule).1 (builtin_whole rule hrule).2 h

theorem apply_builtin_of_match (hrule : rule ∈ builtin) {m : Match}
    (h : rule.pattern.match? token = some m) :
    RuleTable.apply builtin token = rule.answer m := by
  have hmem : rule ∈ RuleTable.claimants builtin token :=
    List.mem_filter.mpr ⟨hrule, by simp [h]⟩
  cases hclaim : RuleTable.claimants builtin token with
  | nil =>
      rw [hclaim] at hmem
      cases hmem
  | cons first others =>
      obtain ⟨m', hm', happly⟩ := RuleTable.apply_eq_answer_of_claimants hclaim
      have hfirst : first ∈ builtin := (List.mem_filter.mp (hclaim ▸ List.mem_cons_self)).1
      obtain rfl := eq_of_fits hrule hfirst (fits_of_match hrule h) (fits_of_match hfirst hm')
      obtain rfl : m = m' := Option.some.inj (h.symm.trans hm')
      exact happly

/-- The rule of that name claims the token. -/
def Claims (name token : Text) : Prop :=
  ∃ rule ∈ RuleTable.claimants builtin token, rule.name = name

/-- The rule of that name answers for the token, with these properties and values in order. -/
def Declares (name token : Text) (pairs : List (Text × Text)) : Prop :=
  ∃ d, RuleTable.apply builtin token = .matched name d ∧ d.toList = pairs

theorem claims_iff (hrule : rule ∈ builtin) :
    Claims rule.name token ↔ ∃ m, rule.pattern.match? token = some m := by
  constructor
  · rintro ⟨rule', hclaimant, hname⟩
    obtain ⟨hrule', hclaims⟩ := List.mem_filter.mp hclaimant
    obtain rfl := eq_of_name_eq hrule' hrule hname
    exact Option.isSome_iff_exists.mp hclaims
  · rintro ⟨m, hm⟩
    exact ⟨rule, List.mem_filter.mpr ⟨hrule, by simp [hm]⟩, rfl⟩

theorem declares_of_match (hrule : rule ∈ builtin) {m : Match}
    (hm : rule.pattern.match? token = some m) {d : Css.Declarations}
    (hd : rule.declare m = some d) : Declares rule.name token d.toList := by
  refine ⟨d, ?_, rfl⟩
  rw [apply_builtin_of_match hrule hm, answer, hd]

/-! ## Rules by the forms of their tokens -/

/-- The rule claims the texts of the forms and no other, and declares the pairs of each form. -/
def Speaks {Form : Type} (name : Text) (text : Form → Text)
    (pairs : Form → List (Text × Text)) : Prop :=
  (∀ token, Claims name token ↔ ∃ form, token = text form) ∧
    ∀ form, Declares name (text form) (pairs form)

/-- What fits the pattern is the text of a form, and on the text of a form the rule makes the
declarations of the form. -/
theorem speaks_of_forms {Form : Type} {text : Form → Text} {pairs : Form → List (Text × Text)}
    (hrule : rule ∈ builtin)
    (hfits : ∀ token, rule.pattern.piece.Fits token → ∃ form, token = text form)
    (hmatch : ∀ form, ∃ m d, rule.pattern.match? (text form) = some m ∧
      rule.declare m = some d ∧ d.toList = pairs form) :
    Speaks rule.name text pairs := by
  refine ⟨fun token => ?_, fun form => ?_⟩
  · rw [claims_iff hrule]
    constructor
    · rintro ⟨m, hm⟩
      exact hfits token (fits_of_match hrule hm)
    · rintro ⟨form, rfl⟩
      obtain ⟨m, -, hm, -⟩ := hmatch form
      exact ⟨m, hm⟩
  · obtain ⟨m, d, hm, hd, hpairs⟩ := hmatch form
    exact hpairs ▸ declares_of_match hrule hm hd

end Rule

end AttributeCss
