/-
Parts of tokens: runs of digits and letters of sides.

What several patterns have in common is stated here once, in both directions:
which texts fit the piece, and what the piece takes of such a text.  Parts are
types of their own, so a form put together from parts is a token of its rule
by construction.

Letters of sides may stand in any order and more than once.  Properties keep
the place where they were first given, so a rule declares each side once, in
the order of first letters (`perSide_letters`).
-/
import AttributeCss.Proofs.Lists
import AttributeCss.Proofs.Rule.Answered
import AttributeCss.Proofs.Rule.Claimed

namespace AttributeCss

open Css

namespace OrderedMap

variable {β : Type}

theorem keys_ofPairs (l : List (Text × β)) : (ofPairs l).keys = (l.map Prod.fst).eraseDups := by
  induction l using List.reverseRecOn with
  | nil => rfl
  | append_singleton l p ih =>
      have hinsert : ofPairs (l ++ [p]) = (ofPairs l).insert p.1 p.2 := by
        rw [ofPairs, List.foldl_concat, ofPairs]
      rw [hinsert, insert, keys_alter, ih, List.map_append, List.map_singleton]
      by_cases hp : p.1 ∈ l.map Prod.fst
      · rw [eraseDups_concat_of_mem hp, if_pos (List.mem_eraseDups.mpr hp)]
      · rw [eraseDups_concat_of_notMem hp, if_neg (mt List.mem_eraseDups.mp hp)]

/-- Where all pairs have one value, each key has it, where it was first given. -/
theorem toList_ofPairs_of_eq {l : List (Text × β)} {v : β} (h : ∀ p ∈ l, p.2 = v) :
    (ofPairs l).toList = (l.map Prod.fst).eraseDups.map fun k => (k, v) := by
  have hvalue : ∀ p ∈ (ofPairs l).toList, p.2 = v := forall_mem_ofPairs h
  have hpairs : (ofPairs l).toList.map (fun p => (p.1, v)) = (ofPairs l).toList.map id :=
    List.map_congr_left fun p hp => by rw [← hvalue p hp, id]
  rw [← keys_ofPairs, keys, List.map_map]
  exact (hpairs.trans (List.map_id _)).symm

end OrderedMap

namespace Rule

open Piece

/-! ## Optional characters -/

theorem fits_maybe {c : Char} {t : Text} (h : (maybe c).Fits t) :
    ∃ b : Bool, t = if b then [c] else [] := by
  cases h with
  | absent => exact ⟨false, rfl⟩
  | present hchar =>
      cases hchar
      exact ⟨true, rfl⟩

theorem readsFirst_maybe (c : Char) {b : Bool} {rest : Text} (h : b = false → rest.head? ≠ some c) :
    (maybe c).ReadsFirst (if b then [c] else []) [] rest := by
  cases b with
  | true => exact (readsFirst_char c rest).opt
  | false => exact readsFirst_opt_absent (readings_char_of_head? (h rfl))

/-! ## Letters -/

theorem exists_letter_of_fits {letters t : Text} (h : (letterOf letters).Fits t) :
    ∃ c ∈ letters, t = [c] := by
  cases h with
  | group h => exact eq_of_fits_oneOf h

theorem readsFirst_letter {letters : Text} {c : Char}
    (hc : (CharSet.ofChars letters).holds c = true) (rest : Text) :
    (letterOf letters).ReadsFirst [c] [some [c]] rest :=
  (readsFirst_oneOf hc rest).group

/-! ## Digits -/

/-- A run of digits, at least one. -/
structure Digits where
  text : Text
  numeral : Text.isNumeral text = true

theorem Digits.ne_nil (n : Digits) : n.text ≠ [] := by
  have h := n.numeral
  simp only [Text.isNumeral, Bool.and_eq_true, Bool.not_eq_true', List.isEmpty_eq_false_iff] at h
  exact h.1

theorem Digits.isDigit_of_mem (n : Digits) {c : Char} (hc : c ∈ n.text) : c.isDigit = true := by
  have h := n.numeral
  simp only [Text.isNumeral, Bool.and_eq_true] at h
  exact List.all_eq_true.mp h.2 c hc

theorem holds_append {set set' : CharSet} {c : Char} :
    (set ++ set').holds c = true ↔ set.holds c = true ∨ set'.holds c = true := by
  rw [CharSet.holds, List.any_append, Bool.or_eq_true]
  rfl

theorem holds_lower_iff {c : Char} : CharSet.lower.holds c = true ↔ c.isLower = true := by
  have hlower : c.isLower = (decide ('a' ≤ c) && decide (c ≤ 'z')) := rfl
  simp [CharSet.holds, CharSet.lower, SetItem.holds, hlower]

theorem holds_digits_iff {c : Char} : CharSet.digits.holds c = true ↔ c.isDigit = true := by
  simp [CharSet.holds, CharSet.digits, SetItem.holds, Char.isDigit, Char.le_def]

theorem exists_digits_of_fits {t : Text} (h : (run CharSet.digits 1 none).Fits t) :
    ∃ n : Digits, t = n.text := by
  cases h with
  | run hchars hleast _ =>
      have hne : t ≠ [] := List.ne_nil_of_length_pos hleast
      refine ⟨⟨t, ?_⟩, rfl⟩
      simp only [Text.isNumeral, Bool.and_eq_true, Bool.not_eq_true', List.isEmpty_eq_false_iff]
      exact ⟨hne, List.all_eq_true.mpr fun c hc => holds_digits_iff.mp (hchars c hc)⟩

theorem readsFirst_digits (n : Digits) {least : Nat} (hleast : least ≤ 1) {rest : Text}
    (h : Text.Stops Char.isDigit rest) :
    (run CharSet.digits least none).ReadsFirst n.text [] rest := by
  have hstops : Text.Stops CharSet.digits.holds rest :=
    Text.stops_of_imp (fun c hc => holds_digits_iff.mp hc) h
  have hpos : 1 ≤ n.text.length := List.length_pos_of_ne_nil n.ne_nil
  exact readsFirst_run (fun c hc => holds_digits_iff.mpr (n.isDigit_of_mem hc)) hstops
    (hleast.trans hpos) nofun

/-! ## Sides -/

/-- A side of a box. -/
inductive Side where
  | left
  | right
  | top
  | bottom
deriving DecidableEq, Repr

/-- The letter a side is written with. -/
def Side.letter : Side → Char
  | left => 'l'
  | right => 'r'
  | top => 't'
  | bottom => 'b'

def Side.name : Side → Text
  | left => "left"
  | right => "right"
  | top => "top"
  | bottom => "bottom"

@[simp] theorem sideOf?_letter (side : Side) : sideOf? side.letter = some side.name := by
  cases side <;> rfl

theorem exists_side {c : Char} (h : (sideOf? c).isSome = true) :
    ∃ side : Side, c = side.letter := by
  unfold sideOf? at h
  split at h
  · exact ⟨.left, rfl⟩
  · exact ⟨.right, rfl⟩
  · exact ⟨.top, rfl⟩
  · exact ⟨.bottom, rfl⟩
  · cases h

theorem exists_side_list {t : Text} (h : ∀ c ∈ t, (sideOf? c).isSome = true) :
    ∃ sides : List Side, t = sides.map Side.letter := by
  induction t with
  | nil => exact ⟨[], rfl⟩
  | cons c r ih =>
      obtain ⟨hc, hr⟩ := List.forall_mem_cons.mp h
      obtain ⟨side, rfl⟩ := exists_side hc
      obtain ⟨sides, rfl⟩ := ih hr
      exact ⟨side :: sides, rfl⟩

/-- Up to four sides, in the order in which a token gives them. -/
structure Sides where
  list : List Side
  length_le : list.length ≤ 4

def Sides.letters (s : Sides) : Text := s.list.map Side.letter

theorem readsFirst_sides {letters : Text}
    (hletters : ∀ side : Side, (CharSet.ofChars letters).holds side.letter = true) (s : Sides)
    {rest : Text} (hstops : Text.Stops (CharSet.ofChars letters).holds rest) :
    (sides letters).ReadsFirst s.letters [some s.letters] rest := by
  have hchars : ∀ c ∈ s.letters, (CharSet.ofChars letters).holds c = true := by
    intro c hc
    obtain ⟨side, -, rfl⟩ := List.mem_map.mp hc
    exact hletters side
  have hmost : ∀ n ∈ some 4, s.letters.length ≤ n := by
    rintro n ⟨⟩
    rw [Sides.letters, List.length_map]
    exact s.length_le
  exact (readsFirst_run hchars hstops (Nat.zero_le _) hmost).group

theorem exists_sides_of_fits {letters t : Text}
    (hletters : ∀ c ∈ letters, (sideOf? c).isSome = true) (h : (sides letters).Fits t) :
    ∃ s : Sides, t = s.letters := by
  cases h with
  | group h =>
      obtain ⟨list, rfl⟩ := exists_side_list fun c hc => hletters c (mem_of_fits_run h c hc)
      cases h with
      | run _ _ hmost =>
          have hlength := hmost 4 rfl
          rw [List.length_map] at hlength
          exact ⟨⟨list, hlength⟩, rfl⟩

/-- The property of each side once, in the order of first letters; of no side, the bare property. -/
def Sides.declared (s : Sides) (property suffix value : Text) : List (Text × Text) :=
  if s.list = [] then [(property ++ suffix, value)]
  else s.list.eraseDups.map fun side => (property ++ '-' :: side.name ++ suffix, value)

theorem Side.name_injective : Function.Injective Side.name := by
  intro a b
  cases a <;> cases b <;> decide

theorem mapM_sideOf?_letters (sides : List Side) :
    (sides.map Side.letter).mapM sideOf? = some (sides.map Side.name) := by
  induction sides with
  | nil => rfl
  | cons side r ih => simp [List.mapM_cons, ih]

theorem perSide_letters (s : Sides) (property suffix value : Text) :
    ∃ d, perSide property suffix s.letters value = some d ∧
      d.toList = s.declared property suffix value := by
  by_cases hnil : s.list = []
  · refine ⟨Declarations.single (property ++ suffix) value, ?_, ?_⟩
    · simp [perSide, Sides.letters, hnil]
    · rw [Sides.declared, if_pos hnil]
      rfl
  · have hletters : ¬ s.letters.isEmpty = true := by simpa [Sides.letters] using hnil
    have hinjective : Function.Injective fun side : Side =>
        property ++ '-' :: side.name ++ suffix :=
      fun _ _ h => Side.name_injective (by simpa using h)
    refine ⟨OrderedMap.ofPairs (s.list.map fun side =>
      (property ++ '-' :: side.name ++ suffix, value)), ?_, ?_⟩
    · rw [perSide, if_neg hletters, Sides.letters, mapM_sideOf?_letters, Option.map_some,
        List.map_map]
      rfl
    · rw [OrderedMap.toList_ofPairs_of_eq (v := value) (by simp), Sides.declared, if_neg hnil,
        List.map_map]
      exact (congrArg _ (eraseDups_map_of_injective hinjective s.list)).trans (List.map_map ..)

end Rule

end AttributeCss
