/-
A vocabulary that is compiled.

The vocabulary of accepted options can be handed to an engine that looks for
expressions.  The marker and the pseudo-classes are escaped and put together to
three of them:

    ^marker[:-]?          a name that is marked
    marker.*:.+           a name with an appended segment
    ^(?:focus:|hover:)    a text with a pseudo-class; none without pseudo-classes

Of the engine no more is known than it promises (`Engine.Documented`): it puts
backslashes where they belong, compiles what is an expression unless that is too
large, and finds in a text what the expression means.  Then the matchers tell
facets by literal text, whatever marker and pseudo-classes are
(`Classifier.ofOptions_literal`), and so they tell what the vocabulary tells.
-/
import AttributeCss.Proofs.Vocabulary.Expression
import AttributeCss.Proofs.Vocabulary.Literal

namespace AttributeCss

/-! ## What the expressions mean -/

namespace Expression

/-- The expression of marked names. -/
def marked (marker : Text) : Expression :=
  sequence (start :: word marker ++ [opt (oneOf [':', '-'])])

def appended (marker : Text) : Expression :=
  sequence (word marker ++ [star any, char ':', plus any])

/-- The expression of one pseudo-class. -/
def branch (s : Text) : Expression := sequence (word (s ++ [':']))

/-- The expression of texts with a pseudo-class. -/
def pseudo (s : Text) (r : List Text) : Expression :=
  sequence [start, group (choice (branch s) (r.map branch))]

theorem found_start_iff {es : List Expression} {t : Text} :
    (sequence (start :: es)).Found t ↔ ∃ taken, taken <+: t ∧ (sequence es).Reads [] taken := by
  constructor
  · rintro ⟨before, _, behind, rfl, u, w, rfl, ⟨rfl, rfl⟩, h⟩
    exact ⟨w, ⟨behind, rfl⟩, h⟩
  · rintro ⟨taken, ⟨behind, rfl⟩, h⟩
    exact ⟨[], taken, behind, rfl, [], taken, rfl, ⟨rfl, rfl⟩, h⟩

theorem found_marked_iff {marker t : Text} : (marked marker).Found t ↔ marker <+: t := by
  rw [marked, List.cons_append, found_start_iff]
  constructor
  · rintro ⟨_, hprefix, h⟩
    obtain ⟨u, w, rfl, hu, -⟩ := reads_sequence_append.mp h
    obtain rfl := reads_word.mp hu
    exact (List.prefix_append u w).trans hprefix
  · intro h
    refine ⟨marker, h, reads_sequence_append.mpr ⟨marker, [], ?_, reads_word.mpr rfl, ?_⟩⟩
    · rw [List.append_nil]
    · exact reads_sequence_singleton.mpr (Or.inl rfl)

/-- What stands between the marker and the colon, and all but a character behind that, is free. -/
theorem found_appended_iff {o : Options} {t : Text} :
    (appended o.marker).Found t ↔ o.Appends t := by
  constructor
  · rintro ⟨before, _, behind, rfl, h⟩
    obtain ⟨u, _, rfl, hu, between, _, rfl, hbetween, _, _, rfl, rfl, hplus⟩ :=
      reads_sequence_append.mp h
    obtain rfl := reads_word.mp hu
    obtain ⟨_, rest, rfl, ⟨c, hc, rfl⟩, -⟩ := reads_sequence_singleton.mp hplus
    exact ⟨before, between, c, rest ++ behind, by simp, repeats_any.mp hbetween, hc⟩
  · rintro ⟨before, between, c, behind, rfl, hbetween, hc⟩
    refine ⟨before, o.marker ++ (between ++ ([':'] ++ [c])), behind, by simp, ?_⟩
    refine reads_sequence_append.mpr ⟨o.marker, _, rfl, reads_word.mpr rfl, ?_⟩
    refine ⟨between, _, rfl, repeats_any.mpr hbetween, [':'], [c], rfl, rfl, ?_⟩
    exact reads_sequence_singleton.mpr ⟨[c], [], rfl, ⟨c, hc, rfl⟩, .none⟩

theorem found_pseudo_iff {s : Text} {r : List Text} {t : Text} :
    (pseudo s r).Found t ↔ ∃ p ∈ s :: r, p ++ [':'] <+: t := by
  rw [pseudo, found_start_iff]
  simp only [reads_sequence_singleton, Reads, reads_choice]
  constructor
  · rintro ⟨_, hprefix, f, hf, h⟩
    obtain ⟨p, hp, rfl⟩ := List.mem_map.mp (show f ∈ (s :: r).map branch from hf)
    obtain rfl := reads_word.mp h
    exact ⟨p, hp, hprefix⟩
  · rintro ⟨p, hp, hprefix⟩
    have hbranch : branch p ∈ (s :: r).map branch := List.mem_map_of_mem hp
    exact ⟨_, hprefix, _, hbranch, reads_word.mpr rfl⟩

/-! ## How the expressions are written -/

namespace State

variable (outer : Option Level) (l : Level)

theorem run_set (t : Text) : (mk .plain outer l).run ('[' :: ':' :: '-' :: ']' :: t) =
    (mk .plain outer (l.push (.oneOf [':', '-']))).run t := rfl

theorem run_any (t : Text) : (mk .plain outer l).run ('.' :: t) =
    (mk .plain outer (l.push .any)).run t := rfl

theorem run_colon (t : Text) : (mk .plain outer l).run (':' :: t) =
    (mk .plain outer (l.push (.char ':'))).run t := rfl

theorem run_branch (branches : List Expression) (s : Text) :
    (mk .plain outer ⟨branches, []⟩).run (escaped s ++ [':']) =
      some ⟨.plain, outer, ⟨branches, word (s ++ [':'])⟩⟩ := by
  rw [run_append, run_escaped, Option.bind_some, run_colon]
  simp [Level.push, word, run]

/-- What is written for pseudo-classes is read as a choice of branches, behind those that are
there. -/
theorem run_branches (branches : List Expression) (s : Text) (r : List Text) :
    ∃ l, (mk .plain outer ⟨branches, []⟩).run
        (['|'].intercalate ((s :: r).map fun s => escaped s ++ [':'])) =
          some ⟨.plain, outer, l⟩ ∧
      l.expression = branches.foldr alt (choice (branch s) (r.map branch)) := by
  induction r generalizing branches s with
  | nil =>
      refine ⟨⟨branches, word (s ++ [':'])⟩, ?_, rfl⟩
      simpa [List.intercalate] using run_branch outer branches s
  | cons p r ih =>
      obtain ⟨l, hl, hexpression⟩ := ih (branches ++ [branch s]) p
      have hjoined : ['|'].intercalate ((s :: p :: r).map fun s => escaped s ++ [':']) =
          (escaped s ++ [':']) ++ '|' :: ['|'].intercalate ((p :: r).map fun s =>
            escaped s ++ [':']) := by simp [List.intercalate_cons_cons]
      have hbranch : ∀ t, (mk .plain outer ⟨branches, word (s ++ [':'])⟩).run ('|' :: t) =
          (mk .plain outer ⟨branches ++ [branch s], []⟩).run t := fun _ => rfl
      refine ⟨l, ?_, by rw [hexpression, List.foldr_append]; rfl⟩
      rw [hjoined, run_append, run_branch, Option.bind_some, hbranch, hl]

end State

theorem read?_marked (marker : Text) :
    read? ('^' :: escaped marker ++ "[:-]?") = some (marked marker) := by
  have hstart : State.initial.step '^' = some ⟨.plain, none, ⟨[], [start]⟩⟩ := rfl
  rw [read?, List.cons_append, State.run_cons, hstart, Option.bind_some, State.run_append,
    State.run_escaped, Option.bind_some]
  show (State.run _ ('[' :: ':' :: '-' :: ']' :: ['?'])).bind _ = _
  rw [State.run_set, State.run_repeat rfl rfl rfl]
  rfl

theorem read?_appended (marker : Text) :
    read? (escaped marker ++ ".*:.+") = some (appended marker) := by
  rw [read?, State.initial, State.run_append, State.run_escaped, Option.bind_some]
  show (State.run _ ('.' :: '*' :: ':' :: '.' :: '+' :: [])).bind _ = _
  rw [State.run_any, State.run_repeat rfl rfl rfl, State.run_colon, State.run_any,
    State.run_repeat rfl rfl rfl]
  simp [State.run, State.result?, Level.expression, Level.push, Level.empty, appended]

theorem read?_pseudo (s : Text) (r : List Text) :
    read? ('^' :: '(' :: '?' :: ':' ::
      (['|'].intercalate ((s :: r).map fun s => escaped s ++ [':']) ++ [')'])) =
        some (pseudo s r) := by
  obtain ⟨l, hl, hexpression⟩ := State.run_branches (some ⟨[], [start]⟩) [] s r
  have hopen : ∀ t, State.initial.run ('^' :: '(' :: '?' :: ':' :: t) =
      (State.mk .plain (some ⟨[], [start]⟩) ⟨[], []⟩).run t := fun _ => rfl
  rw [read?, hopen, State.run_append, hl, Option.bind_some]
  show some (sequence [start, group l.expression]) = _
  rw [hexpression]
  rfl

end Expression

/-! ## Engines -/

/-- Why an engine has no matcher for a text. -/
inductive EngineError where
  | malformed
  | tooLarge
deriving DecidableEq, Repr

/-- An engine that looks for expressions. -/
structure Engine where
  Matcher : Type
  /-- The text with backslashes, so that it means itself in an expression. -/
  escape : Text → Text
  compile : Text → Except EngineError Matcher
  isMatch : Matcher → Text → Bool

namespace Engine

/-- What an engine promises. -/
structure Documented (engine : Engine) : Prop where
  escape : ∀ t, engine.escape t = Expression.escaped t
  compile : ∀ t e, Expression.read? t = some e → engine.compile t = .error .tooLarge ∨
    ∃ m, engine.compile t = .ok m ∧ ∀ s, engine.isMatch m s = true ↔ e.Found s

variable (engine : Engine)

def markedText (marker : Text) : Text := '^' :: engine.escape marker ++ "[:-]?"

def appendedText (marker : Text) : Text := engine.escape marker ++ ".*:.+"

def pseudoText (pseudos : List Text) : Text :=
  '^' :: '(' :: '?' :: ':' ::
    (['|'].intercalate (pseudos.map fun s => engine.escape s ++ [':']) ++ [')'])

/-- The texts that are compiled for options. -/
def texts (o : Options) : List Text :=
  engine.markedText o.marker :: engine.appendedText o.marker ::
    if o.pseudos.isEmpty then [] else [engine.pseudoText o.pseudos]

/-- No matcher of the options takes too much room. -/
def Fits (o : Options) : Prop := ∀ t ∈ engine.texts o, engine.compile t ≠ .error .tooLarge

end Engine

/-- Why there is no classifier for options. -/
inductive ClassifierError where
  | refused (e : OptionsError)
  | notCompiled (e : EngineError)
deriving DecidableEq, Repr

/-- The matchers of options. -/
structure Classifier (engine : Engine) where
  marker : Text
  marked : engine.Matcher
  appended : engine.Matcher
  /-- There is none without pseudo-classes. -/
  pseudo : Option engine.Matcher

namespace Classifier

variable {engine : Engine}

def matcher (engine : Engine) (t : Text) : Except ClassifierError engine.Matcher :=
  (engine.compile t).mapError .notCompiled

/-- The matcher of pseudo-classes, if there are any. -/
def pseudoMatcher (engine : Engine) (pseudos : List Text) :
    Except ClassifierError (Option engine.Matcher) :=
  if pseudos.isEmpty then .ok none
  else (matcher engine (engine.pseudoText pseudos)).map some

/-- Compiles the matchers of options that are accepted. -/
def ofOptions (engine : Engine) (o : Options) : Except ClassifierError (Classifier engine) := do
  o.check.mapError .refused
  let pseudo ← pseudoMatcher engine o.pseudos
  let marked ← matcher engine (engine.markedText o.marker)
  let appended ← matcher engine (engine.appendedText o.marker)
  return { marker := o.marker, marked, appended, pseudo }

variable (cl : Classifier engine)

/-- The text starts with a pseudo-class and a colon. -/
def startsWithPseudo (t : Text) : Bool := cl.pseudo.any fun m => engine.isMatch m t

def nameFacets (name : Text) : Facets :=
  if engine.isMatch cl.marked name then { marked := true }
  else if cl.startsWithPseudo name then { pseudo := true }
  else .none

def occurrenceFacets (name value : Text) : Facets :=
  (if engine.isMatch cl.appended name then { appended := true } else .none) ∪
    if value.contains ' ' then { listed := true } else .none

def valueFacets (token : Text) : Facets :=
  if cl.startsWithPseudo token then { valuePseudo := true } else .none

/-- The matchers find what the options ask for. -/
structure IsOf (cl : Classifier engine) (o : Options) : Prop where
  marked : ∀ t, engine.isMatch cl.marked t = true ↔ o.marker <+: t
  appended : ∀ t, engine.isMatch cl.appended t = true ↔ o.Appends t
  pseudo : ∀ t, cl.startsWithPseudo t = true ↔ o.Carries t

end Classifier

namespace Engine.Documented

variable {engine : Engine}

theorem matcher_of_read? (h : engine.Documented) {t : Text} {e : Expression}
    (ht : Expression.read? t = some e) (hfits : engine.compile t ≠ .error .tooLarge) :
    ∃ m, Classifier.matcher engine t = .ok m ∧ ∀ s, engine.isMatch m s = true ↔ e.Found s := by
  obtain ⟨m, hm, hfound⟩ := (h.compile t e ht).resolve_left hfits
  exact ⟨m, by rw [Classifier.matcher, hm]; rfl, hfound⟩

theorem exists_pseudoMatcher (h : engine.Documented) {o : Options} (hfits : engine.Fits o) :
    ∃ pseudo, Classifier.pseudoMatcher engine o.pseudos = .ok pseudo ∧
      ∀ t, (pseudo.any fun m => engine.isMatch m t) = true ↔ o.Carries t := by
  rw [Engine.Fits, Engine.texts] at hfits
  unfold Options.Carries
  cases hpseudos : o.pseudos with
  | nil => exact ⟨none, rfl, fun t => by simp⟩
  | cons s r =>
      have htext : Expression.read? (engine.pseudoText (s :: r)) = some (.pseudo s r) := by
        simp only [Engine.pseudoText, h.escape, Expression.read?_pseudo]
      obtain ⟨m, hm, hfound⟩ := h.matcher_of_read? htext (hfits _ (by simp [hpseudos]))
      refine ⟨some m, by simp [Classifier.pseudoMatcher, hm, Except.map], fun t => ?_⟩
      rw [Option.any_some, hfound, Expression.found_pseudo_iff]

/-- Accepted options have a classifier whose matchers find what they ask for. -/
theorem exists_ofOptions (h : engine.Documented) {o : Options} (ho : o.check = .ok ())
    (hfits : engine.Fits o) : ∃ cl, Classifier.ofOptions engine o = .ok cl ∧ cl.IsOf o := by
  have hmarkedText : Expression.read? (engine.markedText o.marker) = some (.marked o.marker) := by
    rw [Engine.markedText, h.escape, Expression.read?_marked]
  have happendedText :
      Expression.read? (engine.appendedText o.marker) = some (.appended o.marker) := by
    rw [Engine.appendedText, h.escape, Expression.read?_appended]
  obtain ⟨marked, hmarked, hmarkedFound⟩ :=
    h.matcher_of_read? hmarkedText (hfits _ List.mem_cons_self)
  obtain ⟨appended, happended, happendedFound⟩ :=
    h.matcher_of_read? happendedText (hfits _ (List.mem_cons_of_mem _ List.mem_cons_self))
  obtain ⟨pseudo, hpseudo, hpseudoFound⟩ := h.exists_pseudoMatcher hfits
  refine ⟨⟨o.marker, marked, appended, pseudo⟩, ?_, ?_, ?_, hpseudoFound⟩
  · rw [Classifier.ofOptions, ho, hpseudo, hmarked, happended]
    rfl
  · exact fun t => (hmarkedFound t).trans Expression.found_marked_iff
  · exact fun t => (happendedFound t).trans Expression.found_appended_iff

end Engine.Documented

namespace Classifier

variable {engine : Engine}

/-- Matchers that find what the options ask for tell facets by literal text. -/
theorem IsOf.literalFacets {cl : Classifier engine} {o : Options} (h : cl.IsOf o) :
    o.LiteralFacets cl.nameFacets cl.occurrenceFacets cl.valueFacets where
  name t := by simp only [nameFacets, h.marked, h.pseudo]
  occurrence name value := by
    simp only [occurrenceFacets, h.appended, List.contains_iff_mem]
    by_cases happended : o.Appends name <;> by_cases hlisted : ' ' ∈ value <;>
      simp [happended, hlisted, Facets.union_def, Facets.join, Facets.none]
  value t := by simp only [valueFacets, h.pseudo]

/-- **Marker and pseudo-classes are matched literally,** whatever they are.  An engine that keeps
its promises, and has the room, makes a classifier of any accepted options.  It tells facets by
literal text, as the vocabulary of the options does, and order and repetition of the pseudo-classes
make no difference. -/
theorem ofOptions_literal (hengine : engine.Documented) {o : Options} (ho : o.check = .ok ())
    (hfits : engine.Fits o) :
    ∃ (cl : Classifier engine) (v : Vocabulary),
      ofOptions engine o = .ok cl ∧ o.vocabulary = .ok v ∧
      o.LiteralFacets cl.nameFacets cl.occurrenceFacets cl.valueFacets ∧
      (v.nameFacets = cl.nameFacets ∧ v.occurrenceFacets = cl.occurrenceFacets ∧
        v.valueFacets = cl.valueFacets) ∧
      ∀ o' : Options, o'.marker = o.marker → (∀ s, s ∈ o'.pseudos ↔ s ∈ o.pseudos) →
        engine.Fits o' →
        ∃ cl' : Classifier engine, ofOptions engine o' = .ok cl' ∧
          cl'.nameFacets = cl.nameFacets ∧ cl'.occurrenceFacets = cl.occurrenceFacets ∧
          cl'.valueFacets = cl.valueFacets := by
  obtain ⟨cl, hcl, hof⟩ := hengine.exists_ofOptions ho hfits
  obtain ⟨v, hv⟩ := Options.exists_vocabulary ho
  have hliteral := hof.literalFacets
  refine ⟨cl, v, hcl, hv, hliteral, ?_, fun o' hmarker hpseudos hfits' => ?_⟩
  · exact (Options.literalFacets_vocabulary hv).unique rfl (fun _ => Iff.rfl) hliteral
  · obtain ⟨hne, hnamed⟩ := Options.check_eq_ok_iff.mp ho
    have ho' : o'.check = .ok () := by
      refine Options.check_eq_ok_iff.mpr ⟨hmarker ▸ hne, fun s hs => hnamed s ?_⟩
      exact (hpseudos s).mp hs
    obtain ⟨cl', hcl', hof'⟩ := hengine.exists_ofOptions ho' hfits'
    exact ⟨cl', hcl', hof'.literalFacets.unique hmarker hpseudos hliteral⟩

end Classifier

/-! ## An engine -/

/-- The engine that compiles nothing and searches. -/
def Engine.searching : Engine where
  Matcher := Expression
  escape := Expression.escaped
  compile t :=
    match Expression.read? t with
    | some e => .ok e
    | none => .error .malformed
  isMatch := Expression.finds

theorem Engine.documented_searching : Engine.searching.Documented where
  escape _ := rfl
  compile t e ht := by
    refine Or.inr ⟨e, ?_, fun _ => Expression.finds_eq_true_iff⟩
    simp only [searching, ht]

theorem Engine.fits_searching (o : Options) : Engine.searching.Fits o := by
  intro t _
  simp only [searching]
  split <;> simp

namespace Classifier

/-- A dot in the marker is a dot, and a pseudo-class may be given twice. -/
theorem ofOptions_literal_dot :
    let o : Options := { marker := "u.", pseudos := ["hover", "focus", "hover"] }
    o.check = .ok () ∧ ∃ cl : Classifier .searching, ofOptions .searching o = .ok cl ∧
      cl.nameFacets "u.-m" = { marked := true } ∧ cl.nameFacets "ux-m" = .none ∧
      cl.nameFacets "focus:ux" = { pseudo := true } ∧
      cl.occurrenceFacets "focus:u.:1" "m p" = { appended := true, listed := true } ∧
      ∃ cl' : Classifier .searching,
        ofOptions .searching { o with pseudos := ["focus", "hover"] } = .ok cl' ∧
        cl'.nameFacets = cl.nameFacets := by
  intro o
  have ho : o.check = .ok () := by decide
  obtain ⟨cl, _, hcl, _, hliteral, _, hsame⟩ :=
    ofOptions_literal Engine.documented_searching ho (Engine.fits_searching o)
  obtain ⟨cl', hcl', hname, -⟩ := hsame { o with pseudos := ["focus", "hover"] } rfl
    (by simp [o, or_comm]) (Engine.fits_searching _)
  refine ⟨ho, cl, hcl, ?_, ?_, ?_, ?_, cl', hcl', hname⟩
  · rw [hliteral.name]
    decide
  · rw [hliteral.name]
    decide
  · rw [hliteral.name]
    decide
  · rw [hliteral.occurrence]
    decide

end Classifier

end AttributeCss
