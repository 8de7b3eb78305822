/-
The parts of template markup.

Markup is read part by part: a comment, an opening tag, an interpolation or a
run of text.  Each reader takes something off the front of the text or names
the fault, and each has the lemma that what it leaves is shorter.

Names keep their case and every attribute is kept as it was written; entities
are not resolved, and no element has contents of a kind of its own.
-/
import AttributeCss.Markup.Error
import AttributeCss.Markup.Node
import AttributeCss.Text.Characters

namespace AttributeCss.Markup

/-! ## Characters -/

def isTagChar (c : Char) : Bool :=
  Text.isAlphanumeric c || c = '-' || c = '_' || c = ':' || c = '.'

/-- A character that neither a name nor a bare value may hold. -/
def isReserved (c : Char) : Bool :=
  Text.isBlank c || c = Text.quoteMark || c = Text.apostrophe || c = '>' || c = '=' || c = '<'

/-- A character of an attribute name. -/
def isNameChar (c : Char) : Bool := !isReserved c && c ≠ '/'

/-- A character of a value without quotes. -/
def isBareChar (c : Char) : Bool := !isReserved c && c ≠ '\x60'

/-! ## Attributes -/

def readQuoted? (q : Char) : Text → Option (Text × Text)
  | c :: r => if c = q then Text.cutFirst q r else none
  | [] => none

def readBare? (s : Text) : Option (Text × Text) :=
  let value := s.takeWhile isBareChar
  if value.isEmpty then none else some (value, s.dropWhile isBareChar)

/-- Reads the value of an attribute, in either quotes or without. -/
def readValue (s : Text) : Except Fault (Text × Text) :=
  match ((readQuoted? Text.quoteMark s).or (readQuoted? Text.apostrophe s)).or (readBare? s) with
  | some found => .ok found
  | none => .error (.expected "attribute value" s)

/-- Reads what stands behind the name of an attribute: an equals sign and a value, or nothing. -/
def readAssigned (s : Text) : Except Fault (Option Text × Text) :=
  match s.dropWhile Text.isSpace with
  | '=' :: r => (readValue (r.dropWhile Text.isSpace)).map fun (value, rest) => (some value, rest)
  | _ => .ok (none, s)

/-- Reads an attribute, if there is one. -/
def readAttribute (s : Text) : Except Fault (Option (Attribute × Text)) :=
  let name := s.takeWhile isNameChar
  if name.isEmpty then .ok none
  else
    (readAssigned (s.dropWhile isNameChar)).map fun (value, rest) =>
      some (Attribute.ofRaw name value, rest)

theorem length_dropWhile_le (p : Char → Bool) (s : Text) : (s.dropWhile p).length ≤ s.length :=
  (List.dropWhile_sublist p).length_le

theorem length_dropWhile_lt {p : Char → Bool} {s : Text} (h : (s.takeWhile p).isEmpty = false) :
    (s.dropWhile p).length < s.length := by
  have hs : (s.takeWhile p ++ s.dropWhile p).length = s.length := by
    rw [List.takeWhile_append_dropWhile]
  rw [List.length_append] at hs
  have : 0 < (s.takeWhile p).length := by
    apply List.length_pos_iff.2
    intro hn
    simp [hn] at h
  omega

theorem length_of_readQuoted? {q : Char} {s a b : Text} (h : readQuoted? q s = some (a, b)) :
    b.length < s.length := by
  unfold readQuoted? at h
  split at h
  · split at h
    · rw [(Text.eq_of_cutFirst h).1]
      simp only [List.length_cons, List.length_append]
      omega
    · simp at h
  · simp at h

theorem length_of_readBare? {s a b : Text} (h : readBare? s = some (a, b)) :
    b.length < s.length := by
  unfold readBare? at h
  dsimp only at h
  split at h
  · simp at h
  · next he =>
    simp only [Option.some.injEq, Prod.mk.injEq] at h
    obtain ⟨-, rfl⟩ := h
    exact length_dropWhile_lt (by simpa using he)

theorem length_of_readValue {s a b : Text} (h : readValue s = .ok (a, b)) :
    b.length < s.length := by
  unfold readValue at h
  split at h
  · next found hf =>
    obtain rfl : found = (a, b) := by simpa using h
    simp only [Option.or_eq_some_iff] at hf
    rcases hf with (h1 | ⟨-, h2⟩) | ⟨-, h3⟩
    · exact length_of_readQuoted? h1
    · exact length_of_readQuoted? h2
    · exact length_of_readBare? h3
  · simp at h

theorem length_of_readAssigned {s : Text} {a : Option Text} {b : Text}
    (h : readAssigned s = .ok (a, b)) : b.length ≤ s.length := by
  unfold readAssigned at h
  split at h
  · next r hr =>
    cases hv : readValue (r.dropWhile Text.isSpace) with
    | error e => simp [hv, Except.map] at h
    | ok p =>
      simp only [hv, Except.map, Except.ok.injEq, Prod.mk.injEq] at h
      obtain ⟨-, rfl⟩ := h
      have h1 := length_of_readValue (a := p.1) (b := p.2) hv
      have h2 := length_dropWhile_le Text.isSpace r
      have h3 := length_dropWhile_le Text.isSpace s
      rw [hr, List.length_cons] at h3
      omega
  · simp only [Except.ok.injEq, Prod.mk.injEq] at h
    obtain ⟨-, rfl⟩ := h
    exact Nat.le_refl _

theorem length_of_readAttribute {s rest : Text} {a : Attribute}
    (h : readAttribute s = .ok (some (a, rest))) : rest.length < s.length := by
  unfold readAttribute at h
  dsimp only at h
  split at h
  · simp at h
  · next he =>
    cases hv : readAssigned (s.dropWhile isNameChar) with
    | error e => simp [hv, Except.map] at h
    | ok p =>
      simp only [hv, Except.map, Except.ok.injEq, Option.some.injEq, Prod.mk.injEq] at h
      obtain ⟨-, rfl⟩ := h
      have h1 := length_of_readAssigned (a := p.1) (b := p.2) hv
      have h2 := length_dropWhile_lt (p := isNameChar) (s := s) (by simpa using he)
      omega

/-- Reads attributes, each behind at least one space. -/
def readAttributes (s : Text) : Except Fault (List Attribute × Text) :=
  if (s.takeWhile Text.isSpace).isEmpty then .ok ([], s)
  else
    match h : readAttribute (s.dropWhile Text.isSpace) with
    | .error e => .error e
    | .ok none => .ok ([], s)
    | .ok (some (a, rest)) =>
        have : rest.length < s.length :=
          Nat.lt_of_lt_of_le (length_of_readAttribute h) (length_dropWhile_le Text.isSpace s)
        (readAttributes rest).map fun (others, rest) => (a :: others, rest)
termination_by s.length

theorem length_of_readAttributes {s rest : Text} {l : List Attribute}
    (h : readAttributes s = .ok (l, rest)) : rest.length ≤ s.length := by
  fun_induction readAttributes s generalizing l rest with
  | case1 s hs =>
    simp only [Except.ok.injEq, Prod.mk.injEq] at h
    exact h.2 ▸ Nat.le_refl _
  | case2 => simp at h
  | case3 s hs hn =>
    simp only [Except.ok.injEq, Prod.mk.injEq] at h
    exact h.2 ▸ Nat.le_refl _
  | case4 s hs a r hr hlt ih =>
    cases hv : readAttributes r with
    | error e => simp [hv, Except.map] at h
    | ok p =>
      simp only [hv, Except.map, Except.ok.injEq, Prod.mk.injEq] at h
      obtain ⟨-, rfl⟩ := h
      have := ih (show readAttributes r = .ok (p.1, p.2) from hv)
      omega

/-! ## Tags -/

/-- An opening tag. -/
structure Opening where
  tag : Text
  attributes : List Attribute
  /-- The tag closes its element itself. -/
  closed : Bool
deriving DecidableEq, Repr

/-- Elements that have no contents and no closing tag. -/
def voidTags : List Text :=
  ["area", "base", "br", "col", "embed", "hr", "img", "input", "link", "meta", "param", "source",
   "track", "wbr"]

/-- The tag name is that of an element without contents, in any case. -/
def isVoid (tag : Text) : Bool := voidTags.contains (tag.map Char.toLower)

/-- Reads the end of an opening tag; the element may close itself. -/
def readTerminator (s : Text) : Except Fault (Bool × Text) :=
  match s.dropWhile Text.isSpace with
  | '/' :: '>' :: r => .ok (true, r)
  | '>' :: r => .ok (false, r)
  | rest => .error (.expected "tag terminator" rest)

/-- Reads an opening tag behind its `<`. -/
def readOpening (s : Text) : Except Fault (Opening × Text) :=
  match readAttributes (s.dropWhile isTagChar) with
  | .error e => .error e
  | .ok (attributes, rest) =>
      (readTerminator rest).map fun (closed, rest) =>
        (⟨s.takeWhile isTagChar, attributes, closed⟩, rest)

/-- Reads the closing tag of an element, whose place is `whole`, behind its `</`. -/
def readClosing (tag whole s : Text) : Except Fault Text :=
  let name := s.takeWhile isTagChar
  if name.isEmpty then .error (.expected "closing tag" s)
  else if name ≠ tag then .error (.expected "closing tag" whole)
  else
    match (s.dropWhile isTagChar).dropWhile Text.isSpace with
    | '>' :: r => .ok r
    | rest => .error (.expected "closing tag" rest)

theorem length_of_readTerminator {s rest : Text} {b : Bool}
    (h : readTerminator s = .ok (b, rest)) : rest.length < s.length := by
  unfold readTerminator at h
  have hd := length_dropWhile_le Text.isSpace s
  split at h
  · next r hr =>
    simp only [Except.ok.injEq, Prod.mk.injEq] at h
    obtain ⟨-, rfl⟩ := h
    rw [hr] at hd
    simp only [List.length_cons] at hd
    omega
  · next r hr =>
    simp only [Except.ok.injEq, Prod.mk.injEq] at h
    obtain ⟨-, rfl⟩ := h
    rw [hr] at hd
    simp only [List.length_cons] at hd
    omega
  · simp at h

theorem length_of_readOpening {s rest : Text} {o : Opening}
    (h : readOpening s = .ok (o, rest)) : rest.length < s.length := by
  unfold readOpening at h
  split at h
  · simp at h
  · next attributes r hr =>
    cases hv : readTerminator r with
    | error e => simp [hv, Except.map] at h
    | ok p =>
      simp only [hv, Except.map, Except.ok.injEq, Prod.mk.injEq] at h
      obtain ⟨-, rfl⟩ := h
      have h1 := length_of_readTerminator (show readTerminator r = .ok (p.1, p.2) from hv)
      have h2 := length_of_readAttributes hr
      have h3 := length_dropWhile_le isTagChar s
      omega

theorem length_of_readClosing {tag whole s rest : Text}
    (h : readClosing tag whole s = .ok rest) : rest.length < s.length := by
  unfold readClosing at h
  dsimp only at h
  split at h
  · simp at h
  · split at h
    · simp at h
    · have h1 := length_dropWhile_le Text.isSpace (s.dropWhile isTagChar)
      have h2 := length_dropWhile_le isTagChar s
      split at h
      · next r hr =>
        obtain rfl : r = rest := by simpa using h
        rw [hr, List.length_cons] at h1
        omega
      · simp at h

/-! ## Comments, interpolations and text -/

/-- Reads up to and over `terminator`. -/
def readThrough (terminator what s : Text) : Except Fault (Text × Text) :=
  match Text.cutBefore terminator s with
  | some (body, rest) => .ok (body, rest.drop terminator.length)
  | none => .error (.expected what s)

/-- A tag, a comment or an interpolation seems to start here. -/
def startsMarkup : Text → Bool
  | '<' :: c :: _ => Text.isLetter c || c = '/' || c = '!'
  | '\x7b' :: '\x7b' :: _ => true
  | _ => false

/-- Reads text until markup seems to start. -/
def readText : Text → Text × Text
  | [] => ([], [])
  | c :: r =>
      if startsMarkup (c :: r) then ([], c :: r)
      else
        let (t, rest) := readText r
        (c :: t, rest)

def commentLead : Text := "<!--"

def interpolationLead : Text := ['\x7b', '\x7b']

/-- A part of markup other than a closing tag. -/
inductive Lexeme where
  | leaf (n : Node)
  | opening (o : Opening)

/-- Reads a run of text behind its first character. -/
def readRun (c : Char) (r : Text) : Lexeme × Text :=
  (.leaf (.text (c :: (readText r).1)), (readText r).2)

/-- Reads the part a text starts with.  A `<!` that starts no comment is a fault of the outermost
open element, whose place is `outer`. -/
def readLexeme (outer : Text) (c : Char) (r : Text) : Except Fault (Lexeme × Text) :=
  match Text.behind? commentLead (c :: r) with
  | some body =>
      (readThrough "-->" "comment terminator" body).map fun (t, rest) =>
        (.leaf (.comment (Text.trim t)), rest)
  | none =>
      match Text.behind? interpolationLead (c :: r) with
      | some body =>
          (readThrough ['\x7d', '\x7d'] "interpolation terminator" body).map fun (t, rest) =>
            (.leaf (.interpolation (Text.trim t)), rest)
      | none =>
          if c = '<' then
            match r with
            | [] => .ok (readRun c r)
            | d :: _ =>
                if Text.isLetter d then
                  (readOpening r).map fun (o, rest) => (.opening o, rest)
                else if d = '!' then .error (.expected "markup" outer)
                else .ok (readRun c r)
          else .ok (readRun c r)

theorem length_of_readThrough {terminator what s a b : Text}
    (h : readThrough terminator what s = .ok (a, b)) : b.length ≤ s.length := by
  unfold readThrough at h
  split at h
  · next body rest hc =>
    simp only [Except.ok.injEq, Prod.mk.injEq] at h
    obtain ⟨-, rfl⟩ := h
    rw [(Text.eq_of_cutBefore hc).1]
    simp only [List.length_drop, List.length_append]
    omega
  · simp at h

theorem readText_append (s : Text) : (readText s).1 ++ (readText s).2 = s := by
  induction s with
  | nil => rfl
  | cons c r ih =>
    unfold readText
    split
    · rfl
    · simpa using ih

theorem length_readText (s : Text) : (readText s).2.length ≤ s.length := by
  have h := congrArg List.length (readText_append s)
  rw [List.length_append] at h
  omega

theorem length_of_readLexeme {outer : Text} {c : Char} {r rest : Text} {x : Lexeme}
    (h : readLexeme outer c r = .ok (x, rest)) : rest.length < (c :: r).length := by
  have hrun : ∀ {y : Lexeme} {t : Text}, readRun c r = (y, t) → t.length < (c :: r).length := by
    intro y t ht
    simp only [readRun, Prod.mk.injEq] at ht
    obtain ⟨-, rfl⟩ := ht
    have := length_readText r
    simp only [List.length_cons]
    omega
  have hthrough : ∀ {lead body terminator what : Text} {f : Text → Lexeme}, lead ≠ [] →
      Text.behind? lead (c :: r) = some body →
      ((readThrough terminator what body).map fun (t, u) => (f t, u)) = .ok (x, rest) →
      rest.length < (c :: r).length := by
    intro lead body terminator what f hl hb hm
    cases hv : readThrough terminator what body with
    | error e => simp [hv, Except.map] at hm
    | ok p =>
      simp only [hv, Except.map, Except.ok.injEq, Prod.mk.injEq] at hm
      obtain ⟨-, rfl⟩ := hm
      have h1 := length_of_readThrough (a := p.1) (b := p.2) hv
      rw [Text.eq_of_behind? hb, List.length_append]
      have := List.length_pos_iff.2 hl
      omega
  unfold readLexeme at h
  split at h
  · next body hb => exact hthrough (f := fun t => .leaf (.comment (Text.trim t))) (by decide) hb h
  · split at h
    · next body hb =>
      exact hthrough (f := fun t => .leaf (.interpolation (Text.trim t))) (by decide) hb h
    · split at h
      · cases r with
        | nil => exact hrun (Except.ok.inj h)
        | cons d u =>
          dsimp only at h
          split at h
          · cases hv : readOpening (d :: u) with
            | error e => simp [hv, Except.map] at h
            | ok p =>
              simp only [hv, Except.map, Except.ok.injEq, Prod.mk.injEq] at h
              obtain ⟨-, rfl⟩ := h
              have := length_of_readOpening (show readOpening (d :: u) = .ok (p.1, p.2) from hv)
              simp only [List.length_cons] at this ⊢
              omega
          · split at h
            · simp at h
            · exact hrun (Except.ok.inj h)
      · exact hrun (Except.ok.inj h)

end AttributeCss.Markup
