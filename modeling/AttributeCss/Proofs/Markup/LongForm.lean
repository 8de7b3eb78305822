/-
The long form of directives.

A directive can be written as `v-name:argument.modifier`, and all its parts are
read again (`ofRaw_longForm`).  The name ends at its first colon or dot.  One
colon behind it says that an argument follows, which ends at the next dot; so an
argument may hold colons, even in front, and may be missing before modifiers.

Three names have a mark of their own, and the mark stands for all of the long
form up to the colon.  A name that starts with none of the marks and not with
`v-` is no directive.
-/
import AttributeCss.Markup.Node
import AttributeCss.Proofs.Text.Runs

namespace AttributeCss.Markup

namespace Directive

/-- The parts of the directive are there if they say so, and none holds the character that ends
it. -/
structure Writable (d : Directive) : Prop where
  name_ne : d.name ≠ []
  name_colon : ':' ∉ d.name
  name_dot : '.' ∉ d.name
  argument : ∀ a ∈ d.argument, a ≠ [] ∧ '.' ∉ a
  modifiers : ∀ m ∈ d.modifiers, m ≠ [] ∧ '.' ∉ m

def argumentForm : Option Text → Text
  | none => []
  | some a => ':' :: a

/-- Modifiers, each behind its dot. -/
def modifiersForm (modifiers : List Text) : Text := modifiers.flatMap ('.' :: ·)

/-- The long form of a name with what is written behind it. -/
def longName (name rest : Text) : Text := 'v' :: '-' :: (name ++ rest)

def longForm (d : Directive) : Text :=
  longName d.name (argumentForm d.argument ++ modifiersForm d.modifiers)

/-! ## Its parts are found -/

theorem splitOn_modifiersForm {a : Text} (ha : '.' ∉ a) {modifiers : List Text}
    (h : ∀ m ∈ modifiers, '.' ∉ m) :
    (a ++ modifiersForm modifiers).splitOn '.' = a :: modifiers := by
  induction modifiers generalizing a with
  | nil => rw [modifiersForm, List.flatMap_nil, List.append_nil, List.splitOn_eq_singleton ha]
  | cons m r ih =>
      obtain ⟨hm, hr⟩ := List.forall_mem_cons.mp h
      rw [modifiersForm, List.flatMap_cons, List.cons_append,
        List.splitOn_append_cons_self_of_not_mem ha, ← modifiersForm, ih hm hr]

theorem filter_isEmpty {modifiers : List Text} (h : ∀ m ∈ modifiers, m ≠ []) :
    modifiers.filter (fun m => !m.isEmpty) = modifiers := by
  refine List.filter_eq_self.mpr fun m hm => ?_
  simpa using h m hm

/-- A missing argument and an empty one leave the same in front of the modifiers. -/
theorem dropColon_argumentForm (argument : Option Text) (modifiers : List Text) :
    dropColon (argumentForm argument ++ modifiersForm modifiers) =
      argument.getD [] ++ modifiersForm modifiers := by
  cases argument with
  | some a => rfl
  | none => cases modifiers <;> rfl

theorem ofParts_written {d : Directive} (hd : d.Writable) :
    ofParts d.name (d.argument.getD [] ++ modifiersForm d.modifiers) d.expression = d := by
  have hdot : '.' ∉ d.argument.getD [] := by
    cases hargument : d.argument with
    | none => exact List.not_mem_nil
    | some a => exact (hd.argument a hargument).2
  have hkept : (some (d.argument.getD [])).filter (fun a => !a.isEmpty) = d.argument := by
    cases hargument : d.argument with
    | none => rfl
    | some a => simpa [Option.filter] using (hd.argument a hargument).1
  simp only [ofParts, splitOn_modifiersForm hdot fun m hm => (hd.modifiers m hm).2,
    List.head?_cons, List.tail_cons, hkept, filter_isEmpty fun m hm => (hd.modifiers m hm).1]

/-- A name without colons and dots ends where what is written behind it starts with one. -/
theorem ofLong_append {name rest : Text} (hcolon : ':' ∉ name) (hdot : '.' ∉ name)
    (hrest : Text.Stops (fun c => !endsName c) rest) (expression : Option Text) :
    ofLong (name ++ rest) expression = ofParts name (dropColon rest) expression := by
  have hname : ∀ c ∈ name, (!endsName c) = true := by
    intro c hc
    have hne : c ≠ ':' ∧ c ≠ '.' := ⟨fun h => hcolon (h ▸ hc), fun h => hdot (h ▸ hc)⟩
    simp [endsName, hne]
  rw [ofLong, Text.takeWhile_append_stops hname hrest, Text.dropWhile_append_stops hname hrest]

theorem stops_written (argument : Option Text) (modifiers : List Text) :
    Text.Stops (fun c => !endsName c) (argumentForm argument ++ modifiersForm modifiers) := by
  cases argument with
  | some a => exact Text.stops_cons _ (by decide)
  | none =>
      cases modifiers with
      | nil => exact Text.stops_nil
      | cons m r => exact Text.stops_cons _ (by decide)

end Directive

namespace Attribute

open Directive

theorem ofRaw_longForm {d : Directive} (hd : d.Writable) :
    ofRaw d.longForm d.expression = .directive d := by
  show Attribute.directive (ofLong (d.name ++ _) d.expression) = _
  rw [ofLong_append hd.name_colon hd.name_dot (stops_written d.argument d.modifiers),
    dropColon_argumentForm, ofParts_written hd]

/-! ## Marks -/

/-- The marks, each with the name it stands for. -/
def marks : List (Char × Text) := [(':', "bind"), ('@', "on"), ('#', "slot")]

/-- What directives start with. -/
def leads : List Text := "v-" :: marks.map fun p => [p.1]

theorem ofRaw_mark {p : Char × Text} (hp : p ∈ marks) (r : Text) (value : Option Text) :
    ofRaw (p.1 :: r) value = ofRaw (longName p.2 (':' :: r)) value := by
  have hlong : ∀ {name : Text}, ':' ∉ name → '.' ∉ name →
      ofRaw (longName name (':' :: r)) value = .directive (ofParts name r value) := by
    intro name hcolon hdot
    show Attribute.directive (ofLong (name ++ ':' :: r) value) = _
    rw [ofLong_append hcolon hdot (Text.stops_cons r (by decide))]
    rfl
  simp only [marks, List.mem_cons, List.not_mem_nil, or_false] at hp
  rcases hp with rfl | rfl | rfl <;> rw [hlong (by decide) (by decide)] <;> rfl

theorem ofRaw_eq_static_iff {name : Text} {value : Option Text} :
    ofRaw name value = .static name value ↔ ∀ lead ∈ leads, ¬ lead <+: name := by
  have hleads : ∀ lead ∈ leads, ∀ r, ¬ ∀ lead' ∈ leads, ¬ lead' <+: lead ++ r :=
    fun lead hlead r hnone => hnone lead hlead (List.prefix_append lead r)
  constructor
  · intro hstatic lead hlead hprefix
    obtain ⟨r, rfl⟩ := hprefix
    simp only [leads, marks, List.map_cons, List.map_nil, List.mem_cons, List.not_mem_nil,
      or_false] at hlead
    rcases hlead with rfl | rfl | rfl | rfl <;> cases hstatic
  · intro hnone
    unfold ofRaw
    split
    · next r => exact absurd hnone (hleads "v-" (by decide) r)
    · next r => exact absurd hnone (hleads [':'] (by decide) r)
    · next r => exact absurd hnone (hleads ['@'] (by decide) r)
    · next r => exact absurd hnone (hleads ['#'] (by decide) r)
    · rfl

/-- **Names as written decode uniquely.**  A mark means the name it stands for, whatever follows;
every directive whose parts can be told apart is read from its long form as it was; and names that
start in no such way are static. -/
theorem ofRaw_unique :
    (∀ p ∈ marks, ∀ (r : Text) (value : Option Text),
        ofRaw (p.1 :: r) value = ofRaw (longName p.2 (':' :: r)) value) ∧
      (∀ d : Directive, d.Writable → ofRaw d.longForm d.expression = .directive d) ∧
      ∀ (name : Text) (value : Option Text),
        (∀ lead ∈ leads, ¬ lead <+: name) ↔ ofRaw name value = .static name value :=
  ⟨fun _ hp r value => ofRaw_mark hp r value, fun _ hd => ofRaw_longForm hd,
    fun _ _ => ofRaw_eq_static_iff.symm⟩

/-- An argument may start with a colon, and modifiers may hold some. -/
theorem ofRaw_unique_colons :
    let d : Directive := ⟨"bind", some "::xe", ["prop", "a:b"], some "on"⟩
    d.longForm = ("v-bind:::xe.prop.a:b" : Text) ∧
      ofRaw "v-bind:::xe.prop.a:b" (some "on") = .directive d ∧
      ofRaw ":::xe.prop.a:b" (some "on") = .directive d := by
  intro d
  have hd : d.Writable := by
    refine ⟨by decide, by decide, by decide, ?_, by decide⟩
    rintro a ⟨⟩
    decide
  obtain ⟨hmarks, hlong, -⟩ := ofRaw_unique
  have hread := hlong d hd
  exact ⟨rfl, hread, (hmarks (':', "bind") (by decide) "::xe.prop.a:b" _).trans hread⟩

end Attribute

end AttributeCss.Markup
