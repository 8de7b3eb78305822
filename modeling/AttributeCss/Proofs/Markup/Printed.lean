/-
Printed templates.

A forest of elements, texts, comments and interpolations can be printed in
many ways: with any spaces before an attribute and around its equals sign,
with either quote, and with a childless element closed by itself or by a
closing tag.

    n.Printable        what is in n can stand in markup
    n.PrintedAs u      u is one of the ways to print n

Printing is a relation, so what is shown for a printed text holds for all the
ways to print it; `exists_printed` says there is at least one.
-/
import Mathlib.Data.List.Chain
import AttributeCss.Markup.Reader

namespace AttributeCss.Markup

/-- A text of layout: spaces, tabs and line breaks only. -/
def Layout (t : Text) : Prop := ∀ c ∈ t, Text.isSpace c = true

instance (t : Text) : Decidable (Layout t) := decidable_of_iff _ List.all_eq_true

/-! ## What can be printed -/

/-- A tag name: an ASCII letter, then characters of tag names. -/
def IsTag (tag : Text) : Prop :=
  ∃ c r, tag = c :: r ∧ Text.isLetter c = true ∧ ∀ d ∈ r, isTagChar d = true

/-- A name of a static attribute: characters of names, which start no directive. -/
structure IsStaticName (name : Text) : Prop where
  ne_nil : name ≠ []
  chars : ∀ c ∈ name, isNameChar c = true
  not_long : ¬ ['v', '-'] <+: name
  not_short : name.head? ∉ [some ':', some '@', some '#']

instance (name : Text) : Decidable (IsStaticName name) :=
  decidable_of_iff
    (name ≠ [] ∧ name.all isNameChar = true ∧ ¬ ['v', '-'] <+: name ∧
      name.head? ∉ [some ':', some '@', some '#'])
    ⟨fun ⟨hne, hchars, hlong, hshort⟩ => ⟨hne, List.all_eq_true.mp hchars, hlong, hshort⟩,
      fun ⟨hne, hchars, hlong, hshort⟩ => ⟨hne, List.all_eq_true.mpr hchars, hlong, hshort⟩⟩

/-- The attribute is static, and one of the quotes can stand around its value, if it has one. -/
inductive Attribute.Printable : Attribute → Prop
  | bare {name : Text} : IsStaticName name → Attribute.Printable (.static name none)
  | valued {name value : Text} : IsStaticName name →
      Text.quoteMark ∉ value ∨ Text.apostrophe ∉ value →
      Attribute.Printable (.static name (some value))

def Node.isText : Node → Bool
  | .text _ => true
  | _ => false

/-- Not both nodes are texts: printed one behind the other they can be told apart. -/
def Node.Parted (m n : Node) : Prop := m.isText = true → n.isText = false

/-- What is in the node can stand in markup: no text could be taken for the markup around it. -/
inductive Node.Printable : Node → Prop
  | text {t : Text} : (∀ c ∈ t, c ≠ '<' ∧ c ≠ '\x7b') → Text.allBlank t = false →
      Node.Printable (.text t)
  | comment {t : Text} : Text.trim t = t → ¬ "-->".toList <:+: t → Node.Printable (.comment t)
  | interpolation {t : Text} : Text.trim t = t → ¬ ['\x7d', '\x7d'] <:+: t →
      Node.Printable (.interpolation t)
  | element {tag : Text} {attributes : List Attribute} {children : List Node} : IsTag tag →
      (∀ a ∈ attributes, a.Printable) → (isVoid tag = true → children = []) →
      (∀ n ∈ children, Node.Printable n) → children.IsChain Node.Parted →
      Node.Printable (.element tag attributes children)

/-! ## The ways to print it -/

/-- The ways to print an attribute. -/
inductive Attribute.PrintedAs : Attribute → Text → Prop
  | bare (name : Text) : Attribute.PrintedAs (.static name none) name
  | quoted {name value before behind : Text} {q : Char} : Layout before → Layout behind →
      q = Text.quoteMark ∨ q = Text.apostrophe → q ∉ value →
      Attribute.PrintedAs (.static name (some value))
        (name ++ (before ++ '=' :: (behind ++ q :: (value ++ [q]))))

/-- What stands in a tag behind its name: attributes, each behind a space, and spaces perhaps. -/
inductive Tail : List Attribute → Text → Prop
  | nil {gap : Text} : Layout gap → Tail [] gap
  | cons {a : Attribute} {attributes : List Attribute} {gap u s : Text} : Layout gap → gap ≠ [] →
      a.PrintedAs u → Tail attributes s → Tail (a :: attributes) (gap ++ (u ++ s))

/-- The end of an opening tag, which may close its element itself. -/
def tagEnd (closed : Bool) : Text := if closed then ['/', '>'] else ['>']

mutual

/-- The ways to print a node. -/
inductive Node.PrintedAs : Node → Text → Prop
  | text (t : Text) : Node.PrintedAs (.text t) t
  | comment (t : Text) : Node.PrintedAs (.comment t) ("<!-- ".toList ++ (t ++ " -->".toList))
  | interpolation (t : Text) : Node.PrintedAs (.interpolation t)
      (['\x7b', '\x7b', ' '] ++ (t ++ [' ', '\x7d', '\x7d']))
  | childless {tag s : Text} {attributes : List Attribute} {closed : Bool} :
      isVoid tag = true ∨ closed = true → Tail attributes s →
      Node.PrintedAs (.element tag attributes []) ('<' :: (tag ++ (s ++ tagEnd closed)))
  | paired {tag s u : Text} {attributes : List Attribute} {children : List Node} :
      isVoid tag = false → Tail attributes s → PrintedAs children u →
      Node.PrintedAs (.element tag attributes children)
        ('<' :: (tag ++ (s ++ (tagEnd false ++ (u ++ '<' :: '/' :: (tag ++ ['>']))))))

/-- The ways to print nodes, one behind the other. -/
inductive PrintedAs : List Node → Text → Prop
  | nil : PrintedAs [] []
  | cons {n : Node} {nodes : List Node} {u s : Text} : n.PrintedAs u → PrintedAs nodes s →
      PrintedAs (n :: nodes) (u ++ s)

end

/-- The nodes can stand in markup, one behind the other. -/
structure Printable (nodes : List Node) : Prop where
  each : ∀ n ∈ nodes, n.Printable
  parted : nodes.IsChain Node.Parted

/-! ## There is a way -/

theorem layout_nil : Layout [] := nofun

theorem layout_space : Layout [' '] := by decide

theorem exists_printed_attribute {a : Attribute} (h : a.Printable) : ∃ u, a.PrintedAs u := by
  cases h with
  | bare => exact ⟨_, .bare _⟩
  | valued hname hvalue =>
      rcases hvalue with hfree | hfree
      · exact ⟨_, .quoted layout_nil layout_nil (Or.inl rfl) hfree⟩
      · exact ⟨_, .quoted layout_nil layout_nil (Or.inr rfl) hfree⟩

theorem exists_tail : ∀ {attributes : List Attribute}, (∀ a ∈ attributes, a.Printable) →
    ∃ s, Tail attributes s
  | [], _ => ⟨_, .nil layout_nil⟩
  | a :: attributes, h => by
      obtain ⟨u, hu⟩ := exists_printed_attribute (h a List.mem_cons_self)
      obtain ⟨s, hs⟩ := exists_tail fun a ha => h a (List.mem_cons_of_mem _ ha)
      exact ⟨_, .cons layout_space (by simp) hu hs⟩

theorem exists_printed_nodes : ∀ {nodes : List Node}, (∀ n ∈ nodes, ∃ u, n.PrintedAs u) →
    ∃ s, PrintedAs nodes s
  | [], _ => ⟨_, .nil⟩
  | n :: nodes, h => by
      obtain ⟨u, hu⟩ := h n List.mem_cons_self
      obtain ⟨s, hs⟩ := exists_printed_nodes fun n hn => h n (List.mem_cons_of_mem _ hn)
      exact ⟨_, .cons hu hs⟩

theorem exists_printed_node {n : Node} (h : n.Printable) : ∃ u, n.PrintedAs u := by
  induction h with
  | text => exact ⟨_, .text _⟩
  | comment => exact ⟨_, .comment _⟩
  | interpolation => exact ⟨_, .interpolation _⟩
  | @element tag attributes children htag hattributes hvoid hchildren hparted ih =>
      obtain ⟨s, hs⟩ := exists_tail hattributes
      cases hv : isVoid tag with
      | true =>
          obtain rfl := hvoid hv
          exact ⟨'<' :: (tag ++ (s ++ tagEnd false)), .childless (Or.inl hv) hs⟩
      | false =>
          obtain ⟨u, hu⟩ := exists_printed_nodes ih
          exact ⟨_, .paired hv hs hu⟩

theorem exists_printed {nodes : List Node} (h : Printable nodes) : ∃ s, PrintedAs nodes s :=
  exists_printed_nodes fun n hn => exists_printed_node (h.each n hn)

end AttributeCss.Markup
