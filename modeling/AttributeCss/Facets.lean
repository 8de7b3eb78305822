/-
Facets of a declaration.

How an attribute was written decides how its rule is rendered.  The facets
record it: which spelling marked the attribute, whether name or value carry
a pseudo-class, whether the name ends in an appended segment, and whether
the value was one of several.  Facets of one declaration only ever join.

They are stored as a word of 32 bits, with the bits 1 to 5 for the facets.
The other bits have no meaning, yet facets made from a word keep them, join
them and are stored with them.  They are only lost where a stored number is
read (`ofBits`).
-/
namespace AttributeCss

/-- The bits that stand for facets. -/
def facetMask : BitVec 32 := 0b111110#32

theorem getElem_facetMask : ∀ {i : Nat} (hi : i < 32), facetMask[i] = decide (1 ≤ i ∧ i ≤ 5) := by
  decide

/-- Bits of a word that stand for no facet. -/
structure UnknownBits where
  word : BitVec 32
  apart : word &&& facetMask = 0#32
deriving DecidableEq, Repr

namespace UnknownBits

def none : UnknownBits := ⟨0#32, by decide⟩

def ofWord (w : BitVec 32) : UnknownBits :=
  ⟨w &&& ~~~facetMask, by simp [BitVec.and_assoc]⟩

def join (a b : UnknownBits) : UnknownBits :=
  ⟨a.word ||| b.word, by rw [BitVec.and_or_distrib_right, a.apart, b.apart, BitVec.or_zero]⟩

theorem eq_of_word {a b : UnknownBits} (h : a.word = b.word) : a = b := by
  cases a
  cases b
  cases h
  rfl

@[simp] theorem join_self (a : UnknownBits) : a.join a = a := by
  simp [join]

theorem join_comm (a b : UnknownBits) : a.join b = b.join a := by
  simp [join, BitVec.or_comm]

theorem join_assoc (a b c : UnknownBits) : (a.join b).join c = a.join (b.join c) := by
  simp [join, BitVec.or_assoc]

@[simp] theorem none_join (a : UnknownBits) : none.join a = a := by
  simp [join, none]

theorem getElem_eq_false (u : UnknownBits) {i : Nat} (hi : i < 32) (hfacet : 1 ≤ i ∧ i ≤ 5) :
    u.word[i] = false := by
  have happart := congrArg (·.getLsbD i) u.apart
  simpa [hi, getElem_facetMask, hfacet] using happart

end UnknownBits

/-- How a declaration was written. -/
structure Facets where
  /-- The name starts with the marker. -/
  marked : Bool := false
  /-- The name starts with a pseudo-class. -/
  pseudo : Bool := false
  /-- The value starts with a pseudo-class. -/
  valuePseudo : Bool := false
  /-- The name ends in a segment that belongs to the value. -/
  appended : Bool := false
  /-- The value was given among others, between spaces. -/
  listed : Bool := false
  unknown : UnknownBits := .none
deriving DecidableEq, Repr

namespace Facets

def none : Facets := {}

def join (a b : Facets) : Facets :=
  ⟨a.marked || b.marked, a.pseudo || b.pseudo, a.valuePseudo || b.valuePseudo,
    a.appended || b.appended, a.listed || b.listed, a.unknown.join b.unknown⟩

instance : Union Facets := ⟨join⟩

/-- The attribute is a declaration: its name starts with the marker or with a pseudo-class. -/
def isDeclaration (f : Facets) : Bool := f.marked || f.pseudo

/-- The facets alone. -/
def known (f : Facets) : Facets := { f with unknown := .none }

/-! ## Words and numbers -/

/-- The word with bit `i`, or without any. -/
def bit (i : Nat) (present : Bool) : BitVec 32 := if present then BitVec.twoPow 32 i else 0#32

/-- The word the facets are stored as. -/
def word (f : Facets) : BitVec 32 :=
  bit 1 f.marked ||| bit 2 f.pseudo ||| bit 3 f.valuePseudo ||| bit 4 f.appended
    ||| bit 5 f.listed ||| f.unknown.word

/-- The facets in a word, with the bits that stand for none. -/
def ofWord (w : BitVec 32) : Facets :=
  ⟨w[1], w[2], w[3], w[4], w[5], .ofWord w⟩

def bits (f : Facets) : Nat := f.word.toNat

/-- The facets in a stored number; other bits mean nothing. -/
def ofBits (n : Nat) : Facets := (ofWord (BitVec.ofNat 32 n)).known

theorem bits_lt (f : Facets) : f.bits < Nat.pow 2 32 := f.word.isLt

theorem getElem_bit (i : Nat) (present : Bool) {j : Nat} (hj : j < 32) :
    (bit i present)[j] = (decide (i = j) && present) := by
  cases present <;> simp [bit, eq_comm]

theorem getElem_word (f : Facets) {i : Nat} (hi : i < 32) :
    f.word[i] = (decide (1 = i) && f.marked || decide (2 = i) && f.pseudo
      || decide (3 = i) && f.valuePseudo || decide (4 = i) && f.appended
      || decide (5 = i) && f.listed || f.unknown.word[i]) := by
  simp [word, getElem_bit]

theorem unknown_ofWord_word (f : Facets) : UnknownBits.ofWord f.word = f.unknown := by
  apply UnknownBits.eq_of_word
  apply BitVec.eq_of_getElem_eq
  intro i hi
  -- the mask takes out the bits of the facets, and where it takes out none no facet has a bit
  by_cases hfacet : 1 ≤ i ∧ i ≤ 5
  · simp [UnknownBits.ofWord, getElem_facetMask, hfacet, f.unknown.getElem_eq_false hi hfacet]
  · have hnot : ∀ j, 1 ≤ j → j ≤ 5 → j ≠ i := by omega
    simp [UnknownBits.ofWord, getElem_facetMask, hfacet, getElem_word, hnot]

@[simp] theorem ofWord_word (f : Facets) : ofWord f.word = f := by
  have hapart {i : Nat} := f.unknown.getElem_eq_false (i := i)
  simp [ofWord, unknown_ofWord_word, getElem_word, hapart]

/-- Every word holds facets. -/
@[simp] theorem word_ofWord (w : BitVec 32) : (ofWord w).word = w := by
  apply BitVec.eq_of_getElem_eq
  intro i hi
  rw [getElem_word]
  by_cases hfacet : 1 ≤ i ∧ i ≤ 5
  · obtain rfl | rfl | rfl | rfl | rfl : i = 1 ∨ i = 2 ∨ i = 3 ∨ i = 4 ∨ i = 5 := by omega
    all_goals simp [ofWord, UnknownBits.ofWord, getElem_facetMask]
  · have hnot : ∀ j, 1 ≤ j → j ≤ 5 → j ≠ i := by omega
    simp [ofWord, UnknownBits.ofWord, getElem_facetMask, hfacet, hnot]

/-- What is stored is read without the bits that stand for no facet. -/
@[simp] theorem ofBits_bits (f : Facets) : ofBits f.bits = f.known := by
  rw [ofBits, bits, BitVec.ofNat_toNat, BitVec.setWidth_eq, ofWord_word]

theorem known_eq_self_iff {f : Facets} : f.known = f ↔ f.unknown = .none := by
  cases f
  simp [known, eq_comm]

/-! ## Joining -/

theorem union_def (a b : Facets) : a ∪ b = join a b := rfl

theorem bit_or (i : Nat) (a b : Bool) : bit i (a || b) = bit i a ||| bit i b := by
  cases a <;> cases b <;> simp [bit]

theorem word_union (a b : Facets) : (a ∪ b).word = a.word ||| b.word := by
  simp only [union_def, join, word, bit_or, UnknownBits.join]
  ac_rfl

theorem bits_union (a b : Facets) : (a ∪ b).bits = a.bits ||| b.bits := by
  rw [bits, word_union, BitVec.toNat_or]
  rfl

@[simp] theorem union_self (a : Facets) : a ∪ a = a := by
  simp [union_def, join]

theorem union_comm (a b : Facets) : a ∪ b = b ∪ a := by
  simp [union_def, join, Bool.or_comm, UnknownBits.join_comm]

theorem union_assoc (a b c : Facets) : a ∪ b ∪ c = a ∪ (b ∪ c) := by
  simp [union_def, join, Bool.or_assoc, UnknownBits.join_assoc]

@[simp] theorem none_union (a : Facets) : none ∪ a = a := by
  simp [union_def, join, none]

@[simp] theorem union_none (a : Facets) : a ∪ none = a := by
  rw [union_comm, none_union]

end Facets

end AttributeCss
