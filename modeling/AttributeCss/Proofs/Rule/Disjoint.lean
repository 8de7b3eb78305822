/-
Built-in rules never compete.

No token is claimed by two rules, so the order of the table does not matter.
The patterns are unbounded, but to tell two of them apart it is enough to read
a few characters: `Piece.openings` lists the characters a fitting text can
start with, each with a piece for what follows, and `Piece.apart` follows two
pieces in step until their next characters differ or one of them must end
where the other goes on.

    p.Fits t           t is a text of the regular expression p
    p.apart n q        p and q differ within n characters, whichever way they are read

What a run takes is settled by `Piece.readings` alone; `Fits` allows it to take
less, so the rules are apart however runs are matched.
-/
import Mathlib.Data.List.TakeWhile
import AttributeCss.Proofs.Rule.Alphabet

namespace AttributeCss

/-! ## Sets without a common character -/

/-- The items have no character in common. -/
def SetItem.apart : SetItem → SetItem → Bool
  | .one c, .one d => c ≠ d
  | .one c, .range first last => !(first ≤ c && c ≤ last)
  | .range first last, .one c => !(first ≤ c && c ≤ last)
  | .range first last, .range first' last' => last < first' || last' < first

/-- The sets have no character in common. -/
def CharSet.apart (s s' : CharSet) : Bool := s.all fun i => s'.all fun i' => i.apart i'

theorem SetItem.not_holds_of_apart {i i' : SetItem} (h : i.apart i' = true) {c : Char}
    (hc : i.holds c = true) : i'.holds c = false := by
  cases i with
  | one d =>
      obtain rfl : c = d := by simpa [holds] using hc
      cases i' with
      | one d' => simpa [apart, holds] using h
      | range first last => exact (Bool.not_eq_true' _).mp h
  | range first last =>
      have hbounds : first ≤ c ∧ c ≤ last := by simpa [holds] using hc
      cases i' with
      | one d =>
          by_contra hd
          obtain rfl : c = d := by simpa [holds] using hd
          simp [apart, hbounds] at h
      | range first' last' =>
          by_contra hd
          have hbounds' : first' ≤ c ∧ c ≤ last' := by simpa [holds] using hd
          rcases (Bool.or_eq_true ..).mp h with hlt | hlt
          · exact absurd (Char.le_trans hbounds'.1 hbounds.2)
              (Char.not_le.mpr (of_decide_eq_true hlt))
          · exact absurd (Char.le_trans hbounds.1 hbounds'.2)
              (Char.not_le.mpr (of_decide_eq_true hlt))

theorem CharSet.not_holds_of_apart {s s' : CharSet} (h : s.apart s' = true) {c : Char}
    (hc : s.holds c = true) : s'.holds c = false := by
  obtain ⟨i, hi, hic⟩ := List.any_eq_true.mp hc
  apply List.any_eq_false.mpr
  intro i' hi'
  have hpair : i.apart i' = true := List.all_eq_true.mp (List.all_eq_true.mp h i hi) i' hi'
  simpa using SetItem.not_holds_of_apart hpair hic

namespace Piece

/-! ## Texts that fit a piece -/

/-- The text is one of the regular expression the piece is. -/
inductive Fits : Piece → Text → Prop
  | nothing : Fits nothing []
  | char (c : Char) : Fits (char c) [c]
  | oneOf {set : CharSet} {c : Char} : set.holds c = true → Fits (oneOf set) [c]
  | run {set : CharSet} {least : Nat} {most : Option Nat} {t : Text} :
      (∀ c ∈ t, set.holds c = true) → least ≤ t.length → (∀ n ∈ most, t.length ≤ n) →
      Fits (run set least most) t
  | seq {a b : Piece} {s t : Text} : Fits a s → Fits b t → Fits (seq a b) (s ++ t)
  | first {a b : Piece} {t : Text} : Fits a t → Fits (alt a b) t
  | second {a b : Piece} {t : Text} : Fits b t → Fits (alt a b) t
  | present {a : Piece} {t : Text} : Fits a t → Fits (opt a) t
  | absent {a : Piece} : Fits (opt a) []
  | group {a : Piece} {t : Text} : Fits a t → Fits (group a) t
  | bare {a : Piece} {t : Text} : Fits a t → Fits (bare a) t

theorem length_runOf_le {set : CharSet} {n : Nat} (s : Text) :
    (runOf set (some n) s).length ≤ n :=
  List.length_take_le _ _

theorem fits_of_mem_readings {p : Piece} {s : Text} {x : Reading} (h : x ∈ p.readings s) :
    p.Fits x.taken := by
  induction p generalizing s x with
  | nothing =>
      obtain rfl := List.mem_singleton.mp h
      exact .nothing
  | char c =>
      obtain ⟨r, -, rfl⟩ := eq_of_mem_readings_char h
      exact .char c
  | oneOf set =>
      obtain ⟨c, r, -, hc, rfl⟩ := eq_of_mem_readings_oneOf h
      exact .oneOf hc
  | run set least most =>
      obtain ⟨hleast, rfl⟩ := eq_of_mem_readings_run h
      refine .run (fun c hc => holds_of_mem_runOf hc) hleast ?_
      rintro n rfl
      exact length_runOf_le s
  | seq a b iha ihb =>
      obtain ⟨y, z, hy, hz, rfl⟩ := exists_of_mem_readings_seq h
      exact .seq (iha hy) (ihb hz)
  | alt a b iha ihb =>
      simp only [readings, List.mem_append, List.mem_map] at h
      rcases h with ⟨y, hy, rfl⟩ | ⟨y, hy, rfl⟩
      · exact .first (iha (x := y) hy)
      · exact .second (ihb (x := y) hy)
  | opt a ih =>
      rcases List.mem_append.mp h with h | h
      · exact .present (ih h)
      · obtain rfl := List.mem_singleton.mp h
        exact .absent
  | group a ih =>
      obtain ⟨y, hy, rfl⟩ := List.mem_map.mp h
      exact .group (ih (x := y) hy)
  | bare a ih => exact .bare (ih h)

/-! ## How a fitting text starts -/

def isOptional : Piece → Bool
  | nothing => true
  | char _ | oneOf _ => false
  | run _ least _ => least = 0
  | seq a b => a.isOptional && b.isOptional
  | alt a b => a.isOptional || b.isOptional
  | opt _ => true
  | group a | bare a => a.isOptional

/-- The sets a fitting text can start with a character of, each with a piece for what follows. -/
def openings : Piece → List (CharSet × Piece)
  | nothing => []
  | char c => [([.one c], nothing)]
  | oneOf set => [(set, nothing)]
  | run set least most =>
      if most = some 0 then [] else [(set, run set (least - 1) (most.map (· - 1)))]
  | seq a b =>
      (a.openings.map fun o => (o.1, seq o.2 b)) ++ (if a.isOptional then b.openings else [])
  | alt a b => a.openings ++ b.openings
  | opt a | group a | bare a => a.openings

theorem isOptional_of_fits_nil {p : Piece} {t : Text} (h : p.Fits t) (ht : t = []) :
    p.isOptional = true := by
  induction h with
  | nothing | absent => rfl
  | char | oneOf => cases ht
  | run _ hleast _ =>
      subst ht
      simpa [isOptional] using hleast
  | seq _ _ iha ihb =>
      obtain ⟨hs, ht⟩ := List.append_eq_nil_iff.mp ht
      exact (Bool.and_eq_true ..).mpr ⟨iha hs, ihb ht⟩
  | first _ ih => exact (Bool.or_eq_true ..).mpr (Or.inl (ih ht))
  | second _ ih => exact (Bool.or_eq_true ..).mpr (Or.inr (ih ht))
  | present => rfl
  | group _ ih | bare _ ih => exact ih ht

theorem exists_opening_of_fits {p : Piece} {s : Text} (h : p.Fits s) {c : Char} {t : Text}
    (hs : s = c :: t) : ∃ o ∈ p.openings, o.1.holds c = true ∧ o.2.Fits t := by
  induction h generalizing t with
  | nothing | absent => cases hs
  | char d =>
      obtain ⟨rfl, rfl⟩ := List.cons.inj hs
      exact ⟨_, List.mem_singleton_self _, by simp [CharSet.holds, SetItem.holds], .nothing⟩
  | oneOf hd =>
      obtain ⟨rfl, rfl⟩ := List.cons.inj hs
      exact ⟨_, List.mem_singleton_self _, hd, .nothing⟩
  | @run set least most s hset hleast hmost =>
      subst hs
      have hne : most ≠ some 0 := fun hzero => absurd (hmost 0 hzero) (by simp)
      refine ⟨(set, run set (least - 1) (most.map (· - 1))), ?_, ?_, ?_⟩
      · rw [openings, if_neg hne]
        exact List.mem_singleton_self _
      · exact hset c List.mem_cons_self
      · refine .run (fun d hd => hset d (List.mem_cons_of_mem _ hd)) ?_ ?_
        · rw [List.length_cons] at hleast
          omega
        · intro n hn
          obtain ⟨m, hm, rfl⟩ := Option.map_eq_some_iff.mp hn
          have hlength := hmost m hm
          rw [List.length_cons] at hlength
          omega
  | @seq a b sa sb ha hb iha ihb =>
      cases sa with
      | nil =>
          -- the first piece takes nothing, and the second starts the text
          obtain ⟨o, ho, hc, hfits⟩ := ihb hs
          refine ⟨o, ?_, hc, hfits⟩
          rw [openings, if_pos (isOptional_of_fits_nil ha rfl)]
          exact List.mem_append_right _ ho
      | cons d sa =>
          obtain ⟨rfl, rfl⟩ := List.cons.inj hs
          obtain ⟨o, ho, hc, hfits⟩ := iha rfl
          exact ⟨(o.1, .seq o.2 b), List.mem_append_left _ (List.mem_map_of_mem ho), hc,
            .seq hfits hb⟩
  | first _ ih =>
      obtain ⟨o, ho, hrest⟩ := ih hs
      exact ⟨o, List.mem_append_left _ ho, hrest⟩
  | second _ ih =>
      obtain ⟨o, ho, hrest⟩ := ih hs
      exact ⟨o, List.mem_append_right _ ho, hrest⟩
  | present _ ih | group _ ih | bare _ ih => exact ih hs

/-! ## Pieces no text fits both of -/

/-- The pieces differ within `n` characters: they do not both end, and wherever they go on with the
same character, what follows differs. -/
def apart : Nat → Piece → Piece → Bool
  | 0, _, _ => false
  | n + 1, p, q =>
      !(p.isOptional && q.isOptional) &&
        p.openings.all fun o => q.openings.all fun o' => o.1.apart o'.1 || apart n o.2 o'.2

theorem not_fits_of_apart {n : Nat} {p q : Piece} (h : apart n p q = true) {t : Text}
    (hp : p.Fits t) : ¬ q.Fits t := by
  intro hq
  induction n generalizing p q t with
  | zero => cases h
  | succ n ih =>
      obtain ⟨hend, hnext⟩ := (Bool.and_eq_true ..).mp h
      cases t with
      | nil => simp [isOptional_of_fits_nil hp rfl, isOptional_of_fits_nil hq rfl] at hend
      | cons c t =>
          obtain ⟨o, ho, hc, hrest⟩ := exists_opening_of_fits hp rfl
          obtain ⟨o', ho', hc', hrest'⟩ := exists_opening_of_fits hq rfl
          have hpair := List.all_eq_true.mp (List.all_eq_true.mp hnext o ho) o' ho'
          rcases (Bool.or_eq_true ..).mp hpair with hsets | hpieces
          · exact absurd hc' (by simp [CharSet.not_holds_of_apart hsets hc])
          · exact ih hpieces hrest hrest'

end Piece

/-! ## Rules that claim a token -/

theorem Pattern.fits_of_match {p : Pattern} (hstart : p.fromStart = true) (hend : p.toEnd = true)
    {token : Text} {m : Match} (h : p.match? token = some m) : p.piece.Fits token := by
  obtain ⟨x, hx, -, htaken⟩ := exists_reading_of_match hstart h
  exact htaken hend ▸ Piece.fits_of_mem_readings hx

namespace RuleTable

theorem length_claimants_le_one {table : RuleTable}
    (htable : table.Pairwise fun rule rule' => ∀ token m m',
      rule.pattern.match? token = some m → rule'.pattern.match? token ≠ some m')
    (token : Text) : (claimants table token).length ≤ 1 := by
  have hclaim : ∀ rule ∈ claimants table token, ∃ m, rule.pattern.match? token = some m :=
    fun _ hrule => Option.isSome_iff_exists.mp (List.mem_filter.mp hrule).2
  have hpairs := htable.filter fun rule => (rule.pattern.match? token).isSome
  match hlist : claimants table token with
  | [] => exact Nat.zero_le 1
  | [_] => exact Nat.le_refl 1
  | rule :: rule' :: others =>
      rw [claimants] at hlist
      rw [hlist] at hpairs
      rw [claimants, hlist] at hclaim
      obtain ⟨m, hm⟩ := hclaim rule (by simp)
      obtain ⟨m', hm'⟩ := hclaim rule' (by simp)
      exact absurd hm' ((List.pairwise_cons.mp hpairs).1 rule' (by simp) token m m' hm)

/-- Where no two rules claim the token, the rules may stand in any order. -/
theorem apply_eq_of_perm {table table' : RuleTable} {token : Text} (hperm : table'.Perm table)
    (hone : (claimants table token).length ≤ 1) : apply table' token = apply table token := by
  have hclaimants : (claimants table' token).Perm (claimants table token) := hperm.filter _
  match hlist : claimants table token with
  | [] =>
      rw [hlist] at hclaimants
      rw [apply_eq_unmatched_of_claimants hlist,
        apply_eq_unmatched_of_claimants hclaimants.eq_nil]
  | [rule] =>
      rw [hlist] at hclaimants
      obtain ⟨m, hm, happly⟩ := apply_eq_answer_of_claimants hlist
      obtain ⟨m', hm', happly'⟩ := apply_eq_answer_of_claimants (List.perm_singleton.mp hclaimants)
      obtain rfl : m = m' := Option.some.inj (hm.symm.trans hm')
      rw [happly, happly']
  | _ :: _ :: _ =>
      rw [hlist] at hone
      simp at hone

end RuleTable

namespace Rule

theorem builtin_whole :
    ∀ rule ∈ builtin, rule.pattern.fromStart = true ∧ rule.pattern.toEnd = true := by
  decide

/-- Ten characters tell any two built-in patterns apart, and only `flex` and `gap` need so many. -/
theorem builtin_apart : builtin.Pairwise fun rule rule' =>
    rule.pattern.piece.apart 10 rule'.pattern.piece = true := by
  decide +kernel

/-- **Built-in rules never compete.**  No token fits the patterns of two rules, so at most one rule
claims it, and the table answers the same with its rules in any order. -/
theorem builtin_never_compete (token : Text) :
    (builtin.Pairwise fun rule rule' =>
      ¬ (rule.pattern.piece.Fits token ∧ rule'.pattern.piece.Fits token)) ∧
    (RuleTable.claimants builtin token).length ≤ 1 ∧
    ∀ table : RuleTable, table.Perm builtin →
      RuleTable.apply table token = RuleTable.apply builtin token := by
  have hone : (RuleTable.claimants builtin token).length ≤ 1 := by
    apply RuleTable.length_claimants_le_one
    refine builtin_apart.imp_of_mem ?_
    intro rule rule' hrule hrule' hapart token m m' hm hm'
    have hfits := Pattern.fits_of_match (builtin_whole rule hrule).1 (builtin_whole rule hrule).2 hm
    have hfits' :=
      Pattern.fits_of_match (builtin_whole rule' hrule').1 (builtin_whole rule' hrule').2 hm'
    exact Piece.not_fits_of_apart hapart hfits hfits'
  refine ⟨builtin_apart.imp ?_, hone, fun table hperm => RuleTable.apply_eq_of_perm hperm hone⟩
  rintro rule rule' hapart ⟨hfits, hfits'⟩
  exact Piece.not_fits_of_apart hapart hfits hfits'

/-- The token of a gap is told from those of `flex` by its digits alone, also where `gap` is tried
first. -/
theorem builtin_never_compete_reversed :
    builtin.reverse.Perm builtin ∧
      RuleTable.apply builtin.reverse "flex-gap-8" = RuleTable.apply builtin "flex-gap-8" :=
  ⟨List.reverse_perm builtin,
    (builtin_never_compete "flex-gap-8").2.2 builtin.reverse (List.reverse_perm builtin)⟩

end Rule

end AttributeCss
