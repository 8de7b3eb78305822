/-
Token patterns with groups.

A pattern is data: it is matched by `Pattern.match?` and written out by
`Pattern.write`.  Pieces are read from left to right; of two alternatives
the first that lets the whole pattern match is taken, an optional piece is
taken if that lets the rest match, and a run takes as many characters as it
may and gives none back.  A piece is therefore a function from a text to
the list of its readings, best first (`Piece.readings`).

Groups are numbered by their opening brackets.  A reading holds one item per
group of its piece, `none` for a group that took no part.
-/
import AttributeCss.Text.Basic

namespace AttributeCss

/-- An item of a character set: one character, or a range with both ends. -/
inductive SetItem where
  | one (c : Char)
  | range (first last : Char)
deriving DecidableEq, Repr

namespace SetItem

def holds (c : Char) : SetItem → Bool
  | one d => c = d
  | range first last => first ≤ c && c ≤ last

/-- The item as it stands between square brackets. -/
def write : SetItem → Text
  | one c => [c]
  | range first last => [first, '-', last]

end SetItem

/-- A set of characters, as it is written. -/
abbrev CharSet := List SetItem

namespace CharSet

def holds (set : CharSet) (c : Char) : Bool := set.any (SetItem.holds c)

def write (set : CharSet) : Text := '[' :: set.flatMap SetItem.write ++ [']']

def digits : CharSet := [.range '0' '9']

def lower : CharSet := [.range 'a' 'z']

/-- The single characters of a text. -/
def ofChars (t : Text) : CharSet := t.map SetItem.one

end CharSet

/-- A piece of a pattern. -/
inductive Piece where
  | nothing
  | char (c : Char)
  | oneOf (set : CharSet)
  /-- As many characters of a set as there are, at most `most`, and no fewer than `least`. -/
  | run (set : CharSet) (least : Nat) (most : Option Nat)
  | seq (a b : Piece)
  /-- The first piece, or else the second. -/
  | alt (a b : Piece)
  | opt (a : Piece)
  /-- The piece, remembered under the next number. -/
  | group (a : Piece)
  /-- The piece in brackets that remember nothing. -/
  | bare (a : Piece)
deriving DecidableEq, Repr

/-- A way to read a piece at the start of a text. -/
structure Reading where
  taken : Text
  groups : List (Option Text)
  rest : Text
deriving DecidableEq, Repr

namespace Piece

/-- The pieces one after the other. -/
def sequence (ps : List Piece) : Piece :=
  match ps with
  | [] => nothing
  | [p] => p
  | p :: q :: r => seq p (sequence (q :: r))

def word (t : Text) : Piece := sequence (t.map char)

/-- The first of the pieces that fits. -/
def choice : Piece → List Piece → Piece
  | p, [] => p
  | p, q :: r => alt p (choice q r)

/-- The number of groups in a piece. -/
def groupCount : Piece → Nat
  | nothing | char _ | oneOf _ | run _ _ _ => 0
  | seq a b | alt a b => a.groupCount + b.groupCount
  | opt a | bare a => a.groupCount
  | group a => a.groupCount + 1

/-- The characters a run takes. -/
def runOf (set : CharSet) (most : Option Nat) (s : Text) : Text :=
  match most with
  | none => s.takeWhile set.holds
  | some n => (s.takeWhile set.holds).take n

/-- The readings of a piece at the start of a text, best first. -/
def readings : Piece → Text → List Reading
  | nothing, s => [⟨[], [], s⟩]
  | char c, s =>
      match s with
      | d :: r => if d = c then [⟨[d], [], r⟩] else []
      | [] => []
  | oneOf set, s =>
      match s with
      | d :: r => if set.holds d then [⟨[d], [], r⟩] else []
      | [] => []
  | run set least most, s =>
      let taken := runOf set most s
      if least ≤ taken.length then [⟨taken, [], s.drop taken.length⟩] else []
  | seq a b, s =>
      (a.readings s).flatMap fun x =>
        (b.readings x.rest).map fun y => ⟨x.taken ++ y.taken, x.groups ++ y.groups, y.rest⟩
  | alt a b, s =>
      ((a.readings s).map fun x =>
        ⟨x.taken, x.groups ++ List.replicate b.groupCount none, x.rest⟩) ++
      ((b.readings s).map fun x =>
        ⟨x.taken, List.replicate a.groupCount none ++ x.groups, x.rest⟩)
  | opt a, s => a.readings s ++ [⟨[], List.replicate a.groupCount none, s⟩]
  | group a, s => (a.readings s).map fun x => ⟨x.taken, some x.taken :: x.groups, x.rest⟩
  | bare a, s => a.readings s

/-- How often a run may repeat, behind its set. -/
def writeCount (least : Nat) (most : Option Nat) : Text :=
  match least, most with
  | 0, none => ['*']
  | 1, none => ['+']
  | n, none => '\x7b' :: Nat.toDigits 10 n ++ [',', '\x7d']
  | n, some m => '\x7b' :: Nat.toDigits 10 n ++ ',' :: Nat.toDigits 10 m ++ ['\x7d']

def write : Piece → Text
  | nothing => []
  | char c => [c]
  | oneOf set => set.write
  | run set least most => set.write ++ writeCount least most
  | seq a b => a.write ++ b.write
  | alt a b => a.write ++ '|' :: b.write
  | opt a => a.write ++ ['?']
  | group a => '(' :: a.write ++ [')']
  | bare a => "(?:".toList ++ a.write ++ [')']

end Piece

/-- A pattern: a piece, and whether it must start and end with the token. -/
structure Pattern where
  /-- It matches at the start of the token only. -/
  fromStart : Bool := true
  piece : Piece
  /-- It matches up to the end of the token only. -/
  toEnd : Bool := true
deriving DecidableEq, Repr

/-- What a pattern found in a token. -/
structure Match where
  token : Text
  groups : List (Option Text)
deriving DecidableEq, Repr

/-- What group number `i` took, or no text if it took no part; number 0 is the whole match. -/
def Match.group (m : Match) (i : Nat) : Text :=
  match i with
  | 0 => m.token
  | i + 1 => ((m.groups[i]?).getD none).getD []

namespace Pattern

/-- The best match at the start of a text. -/
def here? (p : Pattern) (s : Text) : Option Match :=
  ((p.piece.readings s).find? fun x => !p.toEnd || x.rest.isEmpty).map fun x => ⟨x.taken, x.groups⟩

/-- The best match at the first place of a text where there is one. -/
def anywhere? (p : Pattern) : Text → Option Match
  | [] => p.here? []
  | c :: r => (p.here? (c :: r)).or (p.anywhere? r)

/-- The match of a pattern in a token. -/
def match? (p : Pattern) (token : Text) : Option Match :=
  if p.fromStart then p.here? token else p.anywhere? token

def write (p : Pattern) : Text :=
  (if p.fromStart then ['^'] else []) ++ p.piece.write ++ (if p.toEnd then ['$'] else [])

end Pattern

/-! ## A reading splits the text -/

theorem Piece.runOf_append_drop (set : CharSet) (most : Option Nat) (s : Text) :
    runOf set most s ++ s.drop (runOf set most s).length = s := by
  have h : runOf set most s <+: s := by
    cases most with
    | none => exact List.takeWhile_prefix _
    | some n => exact (List.take_prefix _ _).trans (List.takeWhile_prefix _)
  obtain ⟨t, ht⟩ := h
  have hd : (runOf set most s ++ t).drop (runOf set most s).length = t := List.drop_left
  rw [ht] at hd
  rw [hd, ht]

theorem Piece.taken_append_rest {p : Piece} {s : Text} {x : Reading} (h : x ∈ p.readings s) :
    x.taken ++ x.rest = s := by
  induction p generalizing s x with
  | nothing => simp_all [readings]
  | char c =>
    cases s with
    | nil => simp [readings] at h
    | cons d r =>
      simp only [readings] at h
      split at h <;> simp_all
  | oneOf set =>
    cases s with
    | nil => simp [readings] at h
    | cons d r =>
      simp only [readings] at h
      split at h <;> simp_all
  | run set least most =>
    simp only [readings] at h
    split at h
    · simp only [List.mem_singleton] at h
      subst h
      exact runOf_append_drop set most s
    · simp at h
  | seq a b iha ihb =>
    simp only [readings, List.mem_flatMap, List.mem_map] at h
    obtain ⟨y, hy, z, hz, rfl⟩ := h
    simp [ihb hz, iha hy]
  | alt a b iha ihb =>
    simp only [readings, List.mem_append, List.mem_map] at h
    rcases h with ⟨y, hy, rfl⟩ | ⟨y, hy, rfl⟩
    · exact iha (x := y) hy
    · exact ihb (x := y) hy
  | opt a ih =>
    simp only [readings, List.mem_append, List.mem_singleton] at h
    rcases h with h | rfl
    · exact ih h
    · rfl
  | group a ih =>
    simp only [readings, List.mem_map] at h
    obtain ⟨y, hy, rfl⟩ := h
    exact ih (x := y) hy
  | bare a ih => exact ih h

end AttributeCss
