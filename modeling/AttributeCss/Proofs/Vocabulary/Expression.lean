/-
Expressions that are found in texts.

An expression is written in the part of the usual syntax that a vocabulary needs:

    c            a character that has no meaning of its own
    \c           a character that has one
    .            any character but a line feed
    [cc]  [cc-]  one of the characters; a dash stands last
    ^            the start of the text
    e?  e*  e+   an item that may be missing, that may repeat, and both
    (?:e)        a group; there are none inside
    e|e          branches

Expressions are read one character after another (`State.step`), and nothing but
this syntax is.  What an expression means is a relation: `e.Reads before t` is
that `e` can take the text `t` if it stands behind `before`, and `e.Found t` that
it can take something anywhere in `t`.  How a search goes about it is left open.
-/
import Mathlib.Data.List.Zip
import AttributeCss.Text.Basic

namespace AttributeCss

/-- An expression. -/
inductive Expression where
  | nothing
  | start
  | char (c : Char)
  | any
  | oneOf (cs : List Char)
  | group (e : Expression)
  | opt (e : Expression)
  | star (e : Expression)
  | plus (e : Expression)
  | seq (e f : Expression)
  | alt (e f : Expression)
deriving DecidableEq, Repr

/-! ## Meaning -/

/-- Texts one after another, each of which is read behind those before it. -/
inductive Repeats (reads : Text → Text → Prop) : Text → Text → Prop
  | none {before : Text} : Repeats reads before []
  | more {before t u : Text} : reads before t → Repeats reads (before ++ t) u →
      Repeats reads before (t ++ u)

namespace Expression

/-- The expression can take the text, if it stands behind `before`. -/
def Reads : Expression → Text → Text → Prop
  | nothing, _, t => t = []
  | start, before, t => before = [] ∧ t = []
  | char c, _, t => t = [c]
  | any, _, t => ∃ c, c ≠ '\n' ∧ t = [c]
  | oneOf cs, _, t => ∃ c ∈ cs, t = [c]
  | group e, before, t => e.Reads before t
  | opt e, before, t => t = [] ∨ e.Reads before t
  | star e, before, t => Repeats e.Reads before t
  | plus e, before, t => ∃ u w, t = u ++ w ∧ e.Reads before u ∧ Repeats e.Reads (before ++ u) w
  | seq e f, before, t => ∃ u w, t = u ++ w ∧ e.Reads before u ∧ f.Reads (before ++ u) w
  | alt e f, before, t => e.Reads before t ∨ f.Reads before t

/-- The expression can take something in the text. -/
def Found (e : Expression) (t : Text) : Prop :=
  ∃ before taken behind, t = before ++ (taken ++ behind) ∧ e.Reads before taken

/-- The expressions one after the other. -/
def sequence (es : List Expression) : Expression := es.foldr seq nothing

def choice : Expression → List Expression → Expression
  | e, [] => e
  | e, f :: r => alt e (choice f r)

/-- The characters of a text, each itself. -/
def word (t : Text) : List Expression := t.map char

theorem reads_sequence_append {es fs : List Expression} {before t : Text} :
    (sequence (es ++ fs)).Reads before t ↔
      ∃ u w, t = u ++ w ∧ (sequence es).Reads before u ∧ (sequence fs).Reads (before ++ u) w := by
  induction es generalizing before t with
  | nil =>
      constructor
      · intro h
        exact ⟨[], t, rfl, rfl, by rwa [List.append_nil]⟩
      · rintro ⟨u, w, rfl, rfl, hw⟩
        rwa [List.append_nil] at hw
  | cons e es ih =>
      constructor
      · rintro ⟨u, w, rfl, hu, hw⟩
        obtain ⟨x, y, rfl, hx, hy⟩ := ih.mp hw
        refine ⟨u ++ x, y, (List.append_assoc ..).symm, ⟨u, x, rfl, hu, hx⟩, ?_⟩
        rwa [← List.append_assoc]
      · rintro ⟨_, y, rfl, ⟨u, x, rfl, hu, hx⟩, hy⟩
        refine ⟨u, x ++ y, List.append_assoc .., hu, ih.mpr ⟨x, y, rfl, hx, ?_⟩⟩
        rwa [List.append_assoc]

@[simp] theorem reads_sequence_singleton {e : Expression} {before t : Text} :
    (sequence [e]).Reads before t ↔ e.Reads before t := by
  constructor
  · rintro ⟨u, w, rfl, hu, rfl⟩
    rwa [List.append_nil]
  · intro h
    exact ⟨t, [], (List.append_nil t).symm, h, rfl⟩

/-- A word takes itself only. -/
theorem reads_word {w before t : Text} : (sequence (word w)).Reads before t ↔ t = w := by
  induction w generalizing before t with
  | nil => exact Iff.rfl
  | cons c w ih =>
      constructor
      · rintro ⟨_, r, rfl, rfl, hr⟩
        rw [ih.mp hr]
        rfl
      · rintro rfl
        exact ⟨[c], w, rfl, rfl, ih.mpr rfl⟩

theorem reads_choice {e : Expression} {es : List Expression} {before t : Text} :
    (choice e es).Reads before t ↔ ∃ f ∈ e :: es, f.Reads before t := by
  induction es generalizing e with
  | nil => simp [choice]
  | cons f es ih => simp only [choice, Reads, ih, List.mem_cons, exists_eq_or_imp]

theorem repeats_any {before t : Text} : Repeats any.Reads before t ↔ '\n' ∉ t := by
  constructor
  · intro h
    induction h with
    | none => exact List.not_mem_nil
    | more hany _ ih =>
        obtain ⟨c, hc, rfl⟩ := hany
        exact List.not_mem_cons_of_ne_of_not_mem (Ne.symm hc) ih
  · intro h
    induction t generalizing before with
    | nil => exact .none
    | cons c t ih =>
        obtain ⟨hc, ht⟩ := List.ne_and_not_mem_of_not_mem_cons h
        exact .more ⟨c, Ne.symm hc, rfl⟩ (ih ht)

/-! ## Searching -/

/-- The text can be cut so that both parts are as asked for. -/
def someCut (t : Text) (p : Text → Text → Bool) : Bool :=
  (t.inits.zip t.tails).any fun cut => p cut.1 cut.2

/-- There are texts one after another, each taken behind those before it; at most `most` of them
are not empty. -/
def takesAll (takes : Text → Text → Bool) (most : Nat) (before t : Text) : Bool :=
  match most with
  | 0 => t.isEmpty
  | n + 1 => t.isEmpty ||
      someCut t fun u w => !u.isEmpty && takes before u && takesAll takes n (before ++ u) w

/-- The expression can take the text, if it stands behind `before`. -/
def takes : Expression → Text → Text → Bool
  | nothing, _, t => t.isEmpty
  | start, before, t => before.isEmpty && t.isEmpty
  | char c, _, t => t == [c]
  | any, _, t => t.length == 1 && !t.contains '\n'
  | oneOf cs, _, t => cs.any fun c => t == [c]
  | group e, before, t => e.takes before t
  | opt e, before, t => t.isEmpty || e.takes before t
  | star e, before, t => takesAll e.takes t.length before t
  | plus e, before, t =>
      someCut t fun u w => e.takes before u && takesAll e.takes w.length (before ++ u) w
  | seq e f, before, t => someCut t fun u w => e.takes before u && f.takes (before ++ u) w
  | alt e f, before, t => e.takes before t || f.takes before t

/-- The expression can take something in the text. -/
def finds (e : Expression) (t : Text) : Bool :=
  someCut t fun before rest => someCut rest fun taken _ => e.takes before taken

theorem someCut_eq_true_iff {t : Text} {p : Text → Text → Bool} :
    someCut t p = true ↔ ∃ u w, t = u ++ w ∧ p u w = true := by
  simp only [someCut, List.any_eq_true, Prod.exists, List.mem_zip_inits_tails, @eq_comm _ t]

theorem repeats_of_takesAll {takes : Text → Text → Bool} {most : Nat} {before t : Text}
    (h : takesAll takes most before t = true) :
    Repeats (fun before t => takes before t = true) before t := by
  induction most generalizing before t with
  | zero =>
      obtain rfl := List.isEmpty_iff.mp h
      exact .none
  | succ n ih =>
      rcases (Bool.or_eq_true ..).mp h with h | h
      · obtain rfl := List.isEmpty_iff.mp h
        exact .none
      · obtain ⟨u, w, rfl, huw⟩ := someCut_eq_true_iff.mp h
        simp only [Bool.and_eq_true] at huw
        exact .more huw.1.2 (ih huw.2)

theorem takesAll_of_repeats {takes : Text → Text → Bool} {before t : Text}
    (h : Repeats (fun before t => takes before t = true) before t) {most : Nat}
    (hmost : t.length ≤ most) : takesAll takes most before t = true := by
  induction h generalizing most with
  | none => cases most <;> rfl
  | @more before t u ht _ ih =>
      -- a text that is empty is not taken again
      cases t with
      | nil => simpa using ih hmost
      | cons c t =>
          rw [List.length_append, List.length_cons] at hmost
          obtain ⟨n, rfl⟩ : ∃ n, most = n + 1 := ⟨most - 1, by omega⟩
          refine (Bool.or_eq_true ..).mpr (Or.inr (someCut_eq_true_iff.mpr ⟨c :: t, u, rfl, ?_⟩))
          have hrest : takesAll takes n (before ++ c :: t) u = true := ih (by omega)
          simp [ht, hrest]

theorem takesAll_eq_true_iff {e : Expression} (h : ∀ before t, e.takes before t = true ↔
    e.Reads before t) {before t : Text} :
    takesAll e.takes t.length before t = true ↔ Repeats e.Reads before t := by
  have hreads : (fun before t => e.takes before t = true) = e.Reads :=
    funext₂ fun before t => propext (h before t)
  rw [← hreads]
  exact ⟨repeats_of_takesAll, fun hrepeats => takesAll_of_repeats hrepeats (Nat.le_refl _)⟩

theorem takes_eq_true_iff {e : Expression} {before t : Text} :
    e.takes before t = true ↔ e.Reads before t := by
  induction e generalizing before t with
  | nothing => exact List.isEmpty_iff
  | start => simp [takes, Reads]
  | char c => simp [takes, Reads]
  | any =>
      simp only [takes, Reads, Bool.and_eq_true, beq_iff_eq, List.length_eq_one_iff]
      constructor
      · rintro ⟨⟨c, rfl⟩, hc⟩
        exact ⟨c, fun heq => by simp [heq] at hc, rfl⟩
      · rintro ⟨c, hc, rfl⟩
        exact ⟨⟨c, rfl⟩, by simpa using Ne.symm hc⟩
  | oneOf cs => simp [takes, Reads]
  | group e ih => exact ih
  | opt e ih => simp [takes, Reads, ih]
  | star e ih => exact takesAll_eq_true_iff fun _ _ => ih
  | plus e ih =>
      simp only [takes, Reads, someCut_eq_true_iff, Bool.and_eq_true, ih,
        takesAll_eq_true_iff fun _ _ => ih]
  | seq e f ihe ihf => simp only [takes, Reads, someCut_eq_true_iff, Bool.and_eq_true, ihe, ihf]
  | alt e f ihe ihf => simp only [takes, Reads, Bool.or_eq_true, ihe, ihf]

theorem finds_eq_true_iff {e : Expression} {t : Text} : e.finds t = true ↔ e.Found t := by
  simp only [finds, someCut_eq_true_iff, takes_eq_true_iff, Found]
  constructor
  · rintro ⟨before, _, rfl, taken, behind, rfl, h⟩
    exact ⟨before, taken, behind, rfl, h⟩
  · rintro ⟨before, taken, behind, rfl, h⟩
    exact ⟨before, _, rfl, taken, behind, rfl, h⟩

/-! ## Reading expressions -/

/-- The characters that have a meaning of their own. -/
def metaCharacters : Text := "\\.+*?()|[]\x7b\x7d^$#&-~"

/-- The character has a meaning of its own. -/
def isMeta (c : Char) : Bool := metaCharacters.contains c

/-- The expression may be repeated. -/
def isItem : Expression → Bool
  | char _ | any | oneOf _ | group _ => true
  | _ => false

/-- Branches that are being read: those that are complete, and what there is of the last. -/
structure Level where
  branches : List Expression
  items : List Expression
deriving DecidableEq, Repr

namespace Level

def empty : Level := ⟨[], []⟩

/-- One more expression in the last branch. -/
def push (l : Level) (e : Expression) : Level := { l with items := l.items ++ [e] }

/-- The last item changed by a sign of repetition. -/
def repeat? (l : Level) (f : Expression → Expression) : Option Level :=
  match l.items.getLast? with
  | some e => if e.isItem then some { l with items := l.items.dropLast ++ [f e] } else none
  | none => none

def branch (l : Level) : Level := ⟨l.branches ++ [sequence l.items], []⟩

def expression (l : Level) : Expression := l.branches.foldr alt (sequence l.items)

theorem repeat?_push (l : Level) {e : Expression} (he : e.isItem = true)
    (f : Expression → Expression) : (l.push e).repeat? f = some (l.push (f e)) := by
  simp [repeat?, push, he]

end Level

/-- What the last characters were about. -/
inductive Mode where
  | plain
  | escaped
  | opened
  /-- The bracket and the question mark of a group. -/
  | asked
  | set (cs : List Char)
  /-- A square bracket with characters and a dash behind it. -/
  | dashed (cs : List Char)
deriving DecidableEq, Repr

/-- How far an expression has been read. -/
structure State where
  mode : Mode
  /-- What stands around the group that is open. -/
  outer : Option Level
  level : Level
deriving DecidableEq, Repr

namespace State

def initial : State := ⟨.plain, none, .empty⟩

def push (st : State) (e : Expression) : State :=
  { st with mode := .plain, level := st.level.push e }

/-- The last item changed by a sign of repetition. -/
def repeat? (st : State) (f : Expression → Expression) : Option State :=
  (st.level.repeat? f).map fun l => { st with level := l }

def enter? (st : State) : Option State :=
  match st.outer with
  | none => some ⟨.plain, some st.level, .empty⟩
  | some _ => none

def leave? (st : State) : Option State :=
  match st.outer with
  | none => none
  | some l => some ⟨.plain, none, l.push (.group st.level.expression)⟩

/-- A character that has a meaning. -/
def mark? (st : State) (c : Char) : Option State :=
  if c = Text.backslash then some { st with mode := .escaped }
  else if c = '.' then some (st.push .any)
  else if c = '^' then some (st.push .start)
  else if c = '?' then st.repeat? .opt
  else if c = '*' then st.repeat? .star
  else if c = '+' then st.repeat? .plus
  else if c = '|' then some { st with level := st.level.branch }
  else if c = '(' then some { st with mode := .opened }
  else if c = ')' then st.leave?
  else if c = '[' then some { st with mode := .set [] }
  else none

def setStep? (st : State) (cs : List Char) (c : Char) : Option State :=
  if isMeta c then
    if c = '-' then some { st with mode := .dashed cs }
    else if c = ']' && !cs.isEmpty then some (st.push (.oneOf cs))
    else none
  else some { st with mode := .set (cs ++ [c]) }

def step (st : State) (c : Char) : Option State :=
  match st.mode with
  | .plain => if isMeta c then st.mark? c else some (st.push (.char c))
  | .escaped => if isMeta c then some (st.push (.char c)) else none
  | .opened => if c = '?' then some { st with mode := .asked } else none
  | .asked => if c = ':' then st.enter? else none
  | .set cs => st.setStep? cs c
  | .dashed cs => if c = ']' then some (st.push (.oneOf (cs ++ ['-']))) else none

def run (st : State) (t : Text) : Option State := t.foldlM step st

/-- The expression, if nothing is left open. -/
def result? (st : State) : Option Expression :=
  match st.mode, st.outer with
  | .plain, none => some st.level.expression
  | _, _ => none

theorem run_append (st : State) (t u : Text) : st.run (t ++ u) = (st.run t).bind (·.run u) :=
  List.foldlM_append

theorem run_cons (st : State) (c : Char) (t : Text) :
    st.run (c :: t) = (st.step c).bind (·.run t) := rfl

theorem run_repeat {outer : Option Level} {l l' : Level} {c : Char} {f : Expression → Expression}
    (hc : (mk .plain outer l).step c = (mk .plain outer l).repeat? f) {e : Expression}
    (hl : l = l'.push e) (he : e.isItem = true) (t : Text) :
    (mk .plain outer l).run (c :: t) = (mk .plain outer (l'.push (f e))).run t := by
  subst hl
  rw [run_cons, hc, repeat?, Level.repeat?_push l' he]
  rfl

end State

/-- The expression that is written. -/
def read? (t : Text) : Option Expression := (State.initial.run t).bind State.result?

/-- Repetition binds closer than a sequence, and a sequence closer than branches. -/
example : read? "a|b\\.*" =
    some (.alt (.seq (.char 'a') .nothing) (.seq (.char 'b') (.seq (.star (.char '.')) .nothing))) :=
  rfl

/-! ## Escaped texts -/

/-- The text with a backslash before each character that has a meaning. -/
def escaped (t : Text) : Text := t.flatMap fun c => if isMeta c then [Text.backslash, c] else [c]

theorem State.run_escapedChar (outer : Option Level) (l : Level) (c : Char) :
    (State.mk .plain outer l).run (if isMeta c then [Text.backslash, c] else [c]) =
      some ⟨.plain, outer, l.push (.char c)⟩ := by
  by_cases hc : isMeta c = true
  · have hback : isMeta Text.backslash = true := by decide
    simp [hc, hback, run, step, mark?, push]
  · simp [hc, run, step, push]

theorem State.run_escaped (outer : Option Level) (l : Level) (t : Text) :
    (State.mk .plain outer l).run (escaped t) =
      some ⟨.plain, outer, ⟨l.branches, l.items ++ word t⟩⟩ := by
  induction t generalizing l with
  | nil => simp [escaped, word, run]
  | cons c t ih =>
      rw [escaped, List.flatMap_cons, run_append, run_escapedChar, Option.bind_some, ← escaped, ih]
      simp [Level.push, word]

end Expression

end AttributeCss
