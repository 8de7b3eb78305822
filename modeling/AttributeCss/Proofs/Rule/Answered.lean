/-
Built-in rules answer for every token they claim.

A declaration function is written for what the groups of its pattern can hold.
Which that is can be read off the pattern: `Piece.groups` lists the pieces of
its groups, and what a group took fits its piece (`Piece.groups_fit`).  For each
function, groups that fit give declarations, all of them with a property and a
value.  Only the properties of `flex` can stand without a value, and then
nothing is declared.
-/
import Mathlib.Data.List.Forall2
import AttributeCss.Proofs.Rule.Disjoint
import AttributeCss.Proofs.Rule.Inert

namespace AttributeCss

open Css

/-! ## What groups hold -/

namespace Piece

/-- The pieces of the groups in order; a group that may take no part is optional. -/
def groups : Piece → List Piece
  | nothing | char _ | oneOf _ | run _ _ _ => []
  | seq a b => a.groups ++ b.groups
  | alt a b => (a.groups ++ b.groups).map opt
  | opt a => a.groups.map opt
  | group a => a :: a.groups
  | bare a => a.groups

theorem length_groups (p : Piece) : p.groups.length = p.groupCount := by
  induction p with
  | nothing | char | oneOf | run => rfl
  | seq a b iha ihb | alt a b iha ihb => simp [groups, groupCount, iha, ihb]
  | opt a ih | group a ih | bare a ih => simp [groups, groupCount, ih]

/-- What a group took, or no text if it took no part, fits the piece. -/
def FitsGroup (g : Option Text) (p : Piece) : Prop := p.Fits (g.getD [])

theorem fitsGroup_opt {g : Option Text} {p : Piece} (h : FitsGroup g p) : FitsGroup g (opt p) :=
  .present h

theorem forall₂_opt {gs : List (Option Text)} {ps : List Piece} (h : List.Forall₂ FitsGroup gs ps) :
    List.Forall₂ FitsGroup gs (ps.map opt) :=
  List.forall₂_map_right_iff.mpr (h.imp fun _ _ => fitsGroup_opt)

theorem forall₂_replicate_none (p : Piece) :
    List.Forall₂ FitsGroup (List.replicate p.groupCount none) (p.groups.map opt) := by
  rw [← length_groups]
  induction p.groups with
  | nil => exact .nil
  | cons q qs ih => exact .cons .absent ih

theorem groups_fit {p : Piece} {s : Text} {x : Reading} (h : x ∈ p.readings s) :
    List.Forall₂ FitsGroup x.groups p.groups := by
  induction p generalizing s x with
  | nothing =>
      obtain rfl := List.mem_singleton.mp h
      exact .nil
  | char c =>
      obtain ⟨r, -, rfl⟩ := eq_of_mem_readings_char h
      exact .nil
  | oneOf set =>
      obtain ⟨c, r, -, -, rfl⟩ := eq_of_mem_readings_oneOf h
      exact .nil
  | run set least most =>
      obtain ⟨-, rfl⟩ := eq_of_mem_readings_run h
      exact .nil
  | seq a b iha ihb =>
      obtain ⟨y, z, hy, hz, rfl⟩ := exists_of_mem_readings_seq h
      exact List.rel_append (iha hy) (ihb hz)
  | alt a b iha ihb =>
      simp only [readings, List.mem_append, List.mem_map] at h
      rw [groups, List.map_append]
      rcases h with ⟨y, hy, rfl⟩ | ⟨y, hy, rfl⟩
      · exact List.rel_append (forall₂_opt (iha hy)) (forall₂_replicate_none b)
      · exact List.rel_append (forall₂_replicate_none a) (forall₂_opt (ihb hy))
  | opt a ih =>
      rcases List.mem_append.mp h with h | h
      · exact forall₂_opt (ih h)
      · obtain rfl := List.mem_singleton.mp h
        exact forall₂_replicate_none a
  | group a ih =>
      obtain ⟨y, hy, rfl⟩ := List.mem_map.mp h
      exact .cons (fits_of_mem_readings hy) (ih hy)
  | bare a ih => exact ih h

theorem groups_eq_nil {p : Piece} (hp : p.groups = []) {s : Text} {x : Reading}
    (h : x ∈ p.readings s) : x.groups = [] :=
  List.forall₂_nil_right_iff.mp (hp ▸ groups_fit h)

theorem groups_of_mem_readings_group {a : Piece} (ha : a.groups = []) {s : Text} {x : Reading}
    (h : x ∈ (group a).readings s) : x.groups = [some x.taken] := by
  obtain ⟨y, hy, rfl⟩ := List.mem_map.mp h
  rw [groups_eq_nil ha hy]

/-! ## What fits a piece -/

theorem exists_of_fits_choice {p : Piece} {ps : List Piece} {t : Text} (h : (choice p ps).Fits t) :
    ∃ q ∈ p :: ps, q.Fits t := by
  induction ps generalizing p with
  | nil => exact ⟨p, List.mem_singleton_self p, h⟩
  | cons q r ih =>
      cases h with
      | first hfirst => exact ⟨p, List.mem_cons_self, hfirst⟩
      | second hsecond =>
          obtain ⟨q', hq', hfits⟩ := ih hsecond
          exact ⟨q', List.mem_cons_of_mem p hq', hfits⟩

theorem ne_nil_of_fits {p : Piece} {t : Text} (hp : p.isOptional = false) (h : p.Fits t) :
    t ≠ [] := by
  intro ht
  rw [isOptional_of_fits_nil h ht] at hp
  cases hp

theorem eq_of_fits_word {u t : Text} (h : (word u).Fits t) : t = u := by
  induction u generalizing t with
  | nil =>
      cases h
      rfl
  | cons c r ih =>
      cases r with
      | nil =>
          cases h
          rfl
      | cons d u =>
          cases h with
          | seq hc hr =>
              cases hc
              rw [ih hr]
              rfl

theorem mem_of_holds_ofChars {letters : Text} {c : Char}
    (h : (CharSet.ofChars letters).holds c = true) : c ∈ letters := by
  obtain ⟨item, hitem, hc⟩ := List.any_eq_true.mp h
  obtain ⟨d, hd, rfl⟩ := List.mem_map.mp hitem
  obtain rfl : c = d := by simpa [SetItem.holds] using hc
  exact hd

theorem eq_of_fits_oneOf {letters t : Text} (h : (oneOf (CharSet.ofChars letters)).Fits t) :
    ∃ c ∈ letters, t = [c] := by
  cases h with
  | oneOf hc => exact ⟨_, mem_of_holds_ofChars hc, rfl⟩

theorem mem_of_fits_run {letters t : Text} {least : Nat} {most : Option Nat}
    (h : (run (CharSet.ofChars letters) least most).Fits t) : ∀ c ∈ t, c ∈ letters := by
  cases h with
  | run hchars => exact fun c hc => mem_of_holds_ofChars (hchars c hc)

end Piece

/-- What the groups of a match took fits the pieces. -/
def Match.Grouped (m : Match) (ps : List Piece) : Prop := List.Forall₂ Piece.FitsGroup m.groups ps

theorem Match.Grouped.fits {m : Match} {ps : List Piece} (h : m.Grouped ps) {i : Nat} {p : Piece}
    (hp : ps[i]? = some p) : p.Fits (m.group (i + 1)) := by
  have hfits : ∀ {gs : List (Option Text)} {ps : List Piece} {i : Nat},
      List.Forall₂ Piece.FitsGroup gs ps → ps[i]? = some p →
        p.Fits (((gs[i]?).getD none).getD []) := by
    intro gs ps i h
    induction h generalizing i with
    | nil => nofun
    | cons hfirst _ ih =>
        intro hp
        cases i with
        | zero => exact Option.some.inj hp ▸ hfirst
        | succ i => exact ih hp
  exact hfits h hp

theorem Pattern.grouped_of_match {p : Pattern} (hstart : p.fromStart = true) {token : Text}
    {m : Match} (h : p.match? token = some m) : m.Grouped p.piece.groups := by
  obtain ⟨x, hx, rfl, -⟩ := exists_reading_of_match hstart h
  exact Piece.groups_fit hx

/-! ## Declarations -/

theorem OrderedMap.isEmpty_insert {β : Type} (m : OrderedMap β) (k : Text) (v : β) :
    (m.insert k v).isEmpty = false := by
  have hput : ∀ l : List (Text × β), (put k (fun _ => v) l).isEmpty = false := by
    intro l
    cases l with
    | nil => rfl
    | cons p r =>
        rw [put]
        split <;> rfl
  exact hput m.toList

namespace Css

/-- There are declarations, each with a property and a value. -/
structure Declarations.Complete (d : Declarations) : Prop where
  declared : d.isEmpty = false
  filled : ∀ p ∈ d.toList, p.1 ≠ [] ∧ p.2 ≠ []

theorem Declarations.complete_single {property value : Text} (hproperty : property ≠ [])
    (hvalue : value ≠ []) : (single property value).Complete :=
  ⟨rfl, OrderedMap.forall_mem_insert nofun ⟨hproperty, hvalue⟩⟩

theorem Declarations.complete_ofPairs {l : List (Text × Text)} (hne : l ≠ [])
    (h : ∀ p ∈ l, p.1 ≠ [] ∧ p.2 ≠ []) : Declarations.Complete (OrderedMap.ofPairs l) := by
  refine ⟨?_, OrderedMap.forall_mem_ofPairs h⟩
  obtain rfl | ⟨l', p, rfl⟩ := List.eq_nil_or_concat l
  · exact absurd rfl hne
  · rw [OrderedMap.ofPairs, List.concat_eq_append, List.foldl_concat]
    exact OrderedMap.isEmpty_insert _ p.1 p.2

theorem length_ne_nil {token : Text} (h : token ≠ []) : length token ≠ [] := by
  unfold length
  split
  · exact h
  · exact List.append_ne_nil_of_left_ne_nil h _

theorem resolveColor_ne_nil (token : Text) : resolveColor token ≠ [] := by
  unfold resolveColor
  split
  · next color hcolor => exact Text.of_lookup (P := (· ≠ [])) (by decide) hcolor
  · split_ifs with hletters
    · rintro rfl
      cases hletters
    · exact List.cons_ne_nil _ _
    · decide

theorem colorValue_ne_nil (token : Text) (depth opacity : Option Nat) :
    colorValue token depth opacity ≠ [] := by
  unfold colorValue
  dsimp only
  split
  · exact resolveColor_ne_nil token
  · exact List.append_ne_nil_of_right_ne_nil _ (List.cons_ne_nil _ _)

end Css

namespace Rule

open Piece

/-! ## Declaration functions -/

/-- From groups that fit the pieces come complete declarations. -/
def Answers (groups : List Piece) (declare : Match → Option Declarations) : Prop :=
  ∀ m : Match, m.Grouped groups → ∃ d, declare m = some d ∧ d.Complete

theorem answers_single {groups : List Piece} {declare : Match → Option Declarations}
    (h : ∀ m : Match, m.Grouped groups →
      ∃ property value, declare m = some (Declarations.single property value) ∧
        property ≠ [] ∧ value ≠ []) : Answers groups declare := by
  intro m hm
  obtain ⟨property, value, hdeclare, hproperty, hvalue⟩ := h m hm
  exact ⟨_, hdeclare, Declarations.complete_single hproperty hvalue⟩

theorem sideOf?_ne_nil {c : Char} {side : Text} (h : sideOf? c = some side) : side ≠ [] := by
  unfold sideOf? at h
  split at h <;> cases h <;> decide

theorem exists_sides {letters : Text} (h : ∀ c ∈ letters, (sideOf? c).isSome = true) :
    ∃ sides, letters.mapM sideOf? = some sides ∧ sides.length = letters.length := by
  induction letters with
  | nil => exact ⟨[], rfl, rfl⟩
  | cons c r ih =>
      obtain ⟨hc, hr⟩ := List.forall_mem_cons.mp h
      obtain ⟨side, hside⟩ := Option.isSome_iff_exists.mp hc
      obtain ⟨sides, hsides, hlength⟩ := ih hr
      refine ⟨side :: sides, ?_, congrArg Nat.succ hlength⟩
      simp [List.mapM_cons, hside, hsides]

theorem complete_perSide {property suffix letters value : Text} (hproperty : property ≠ [])
    (hvalue : value ≠ []) (hletters : ∀ c ∈ letters, (sideOf? c).isSome = true) :
    ∃ d, perSide property suffix letters value = some d ∧ d.Complete := by
  unfold perSide
  split
  · have hbare : property ++ suffix ≠ [] := List.append_ne_nil_of_left_ne_nil hproperty suffix
    exact ⟨_, rfl, Declarations.complete_single hbare hvalue⟩
  · next hne =>
      obtain ⟨sides, hsides, hlength⟩ := exists_sides hletters
      rw [hsides]
      refine ⟨_, rfl, Declarations.complete_ofPairs ?_ ?_⟩
      · rintro hnil
        rw [List.map_eq_nil_iff.mp hnil] at hlength
        exact hne (by simpa using hlength.symm)
      · intro p hp
        obtain ⟨side, -, rfl⟩ := List.mem_map.mp hp
        exact ⟨by simp [hproperty], hvalue⟩

section

variable {value : Piece}

theorem answers_keyword {property : Text} (hproperty : property ≠ [])
    (hvalue : value.isOptional = false) : Answers [value] (declareKeyword property) :=
  answers_single fun m hm =>
    ⟨property, m.group 1, rfl, hproperty, Piece.ne_nil_of_fits hvalue (hm.fits rfl)⟩

theorem answers_spacing (hvalue : value.isOptional = false) {most : Option Nat} :
    Answers [.oneOf (CharSet.ofChars "mp"), .run (CharSet.ofChars "tblr") 0 most, value]
      declareSpacing := by
  intro m hm
  have hlength : length (m.group 3) ≠ [] :=
    length_ne_nil (Piece.ne_nil_of_fits hvalue (hm.fits rfl))
  have hside : ∀ c ∈ "tblr".toList, (sideOf? c).isSome = true := List.all_eq_true.mp rfl
  have hsides : ∀ c ∈ m.group 2, (sideOf? c).isSome = true := fun c hc =>
    hside c (Piece.mem_of_fits_run (hm.fits rfl) c hc)
  obtain ⟨c, hc, hletter⟩ := Piece.eq_of_fits_oneOf (hm.fits (i := 0) rfl)
  have hcases : c = 'm' ∨ c = 'p' := by simpa using hc
  unfold declareSpacing
  rw [hletter]
  rcases hcases with rfl | rfl
  · exact complete_perSide (by decide) hlength hsides
  · exact complete_perSide (by decide) hlength hsides

theorem answers_size (hvalue : value.isOptional = false) {bound : Piece} :
    Answers [bound, .oneOf (CharSet.ofChars "wh"), value] declareSize := by
  refine answers_single fun m hm => ?_
  have hlength : length (m.group 3) ≠ [] :=
    length_ne_nil (Piece.ne_nil_of_fits hvalue (hm.fits rfl))
  obtain ⟨c, hc, hletter⟩ := Piece.eq_of_fits_oneOf (hm.fits (i := 1) rfl)
  have hcases : c = 'w' ∨ c = 'h' := by simpa using hc
  unfold declareSize
  rw [hletter]
  rcases hcases with rfl | rfl
  · exact ⟨_, _, rfl, by simp, hlength⟩
  · exact ⟨_, _, rfl, by simp, hlength⟩

theorem answers_fontSize : Answers [value] declareFontSize :=
  answers_single fun m _ => ⟨_, _, rfl, by decide, by simp⟩

theorem answers_display (hvalue : value.isOptional = false) : Answers [value] declareDisplay := by
  refine answers_single fun m hm => ⟨_, _, rfl, by decide, ?_⟩
  have hword : m.group 1 ≠ [] := Piece.ne_nil_of_fits hvalue (hm.fits rfl)
  exact Text.getD_lookup (P := (· ≠ [])) (by decide) hword

theorem answers_color {token depth opacity : Piece} :
    Answers [.alt (.word "fc") (.word "bg"), token, depth, opacity] declareColor := by
  refine answers_single fun m hm => ?_
  have hcolor : colorOf m 2 3 4 ≠ [] := colorValue_ne_nil _ _ _
  have hproperty : m.group 1 = "fc" ∨ m.group 1 = "bg" := by
    cases (hm.fits (i := 0) rfl : Piece.Fits (.alt _ _) _) with
    | first h => exact Or.inl (Piece.eq_of_fits_word h)
    | second h => exact Or.inr (Piece.eq_of_fits_word h)
  unfold declareColor
  rcases hproperty with hproperty | hproperty
  · rw [hproperty]
    exact ⟨_, _, rfl, by decide, hcolor⟩
  · rw [hproperty]
    exact ⟨_, _, rfl, by decide, hcolor⟩

theorem answers_textAlign : Answers [.oneOf (CharSet.ofChars "lrc")] declareTextAlign := by
  refine answers_single fun m hm => ?_
  obtain ⟨c, hc, hletter⟩ := Piece.eq_of_fits_oneOf (hm.fits (i := 0) rfl)
  have hcases : c = 'l' ∨ c = 'r' ∨ c = 'c' := by simpa using hc
  unfold declareTextAlign
  rw [hletter]
  rcases hcases with rfl | rfl | rfl
  · exact ⟨_, _, rfl, by decide, by decide⟩
  · exact ⟨_, _, rfl, by decide, by decide⟩
  · exact ⟨_, _, rfl, by decide, by decide⟩

theorem answers_offset (hvalue : value.isOptional = false) :
    Answers [.oneOf (CharSet.ofChars "lrtb"), value] declareOffset := by
  refine answers_single fun m hm => ?_
  have hlength : length (m.group 2) ≠ [] :=
    length_ne_nil (Piece.ne_nil_of_fits hvalue (hm.fits rfl))
  obtain ⟨c, hc, hletter⟩ := Piece.eq_of_fits_oneOf (hm.fits (i := 0) rfl)
  have hside : ∀ c ∈ "lrtb".toList, (sideOf? c).isSome = true := List.all_eq_true.mp rfl
  obtain ⟨side, hsome⟩ := Option.isSome_iff_exists.mp (hside c hc)
  refine ⟨side, _, ?_, sideOf?_ne_nil hsome, hlength⟩
  rw [declareOffset, hletter, List.head?_cons, Option.bind_some, hsome]
  rfl

theorem answers_border (hvalue : value.isOptional = false) {most : Option Nat}
    {depth opacity : Piece} :
    Answers [.oneOf (CharSet.ofChars "wcsr"), .run (CharSet.ofChars "ltrb") 0 most, value, depth,
      opacity] declareBorder := by
  intro m hm
  have hraw : m.group 3 ≠ [] := Piece.ne_nil_of_fits hvalue (hm.fits rfl)
  have hpixels : m.group 3 ++ "px".toList ≠ [] := List.append_ne_nil_of_left_ne_nil hraw _
  have hside : ∀ c ∈ "ltrb".toList, (sideOf? c).isSome = true := List.all_eq_true.mp rfl
  have hsides : ∀ c ∈ m.group 2, (sideOf? c).isSome = true := fun c hc =>
    hside c (Piece.mem_of_fits_run (hm.fits rfl) c hc)
  obtain ⟨c, hc, hletter⟩ := Piece.eq_of_fits_oneOf (hm.fits (i := 0) rfl)
  have hcases : c = 'w' ∨ c = 'c' ∨ c = 's' ∨ c = 'r' := by simpa using hc
  unfold declareBorder
  rw [hletter]
  rcases hcases with rfl | rfl | rfl | rfl
  · exact complete_perSide (by decide) hpixels hsides
  · exact complete_perSide (by decide) (colorValue_ne_nil _ _ _) hsides
  · exact complete_perSide (by decide) hraw hsides
  · exact complete_perSide (by decide) hpixels hsides

theorem answers_gap {column : Piece} : Answers [value, column] declareGap := by
  refine answers_single fun m _ => ⟨_, _, rfl, by decide, ?_⟩
  split <;> simp

end

/-- Every built-in rule but `flex` makes complete declarations for what it claims. -/
theorem answers_builtin :
    ∀ rule ∈ builtin, rule.name ≠ "flex" → Answers rule.pattern.piece.groups rule.declare := by
  simp only [builtin, List.forall_mem_cons]
  refine ⟨fun _ => answers_spacing rfl, fun _ => answers_size rfl, fun _ => answers_fontSize,
    fun _ => answers_display rfl, fun _ => answers_color, fun _ => answers_keyword (by decide) rfl,
    fun _ => answers_textAlign, fun h => absurd rfl h, fun _ => answers_keyword (by decide) rfl,
    fun _ => answers_keyword (by decide) rfl, fun _ => answers_offset rfl,
    fun _ => answers_border rfl, fun _ => answers_keyword (by decide) rfl, fun _ => answers_gap,
    fun _ => ?_, fun _ => answers_keyword (by decide) rfl,
    fun _ => answers_keyword (by decide) rfl, List.forall_mem_nil _⟩
  exact answers_single fun m _ => ⟨_, _, rfl, by decide, by decide⟩

/-! ## Flex -/

def flexKind : Piece :=
  choice (word "~")
    [word "jc", word "ai", word "d", word "wrap", word "center", oneOf CharSet.digits]

def flexValue : Piece := run [.range 'a' 'z', .one '-'] 0 none

/-- The short names of the flex properties. -/
def flexNames : List Text := ["jc", "ai", "d", "wrap"]

def dashes : List Text := [[], "-"]

theorem flex_of_name : ∀ rule ∈ builtin, rule.name = "flex" →
    rule.pattern =
        whole [word "flex", maybe '-', opt (group flexKind), maybe '-', group flexValue] ∧
      rule.declare = declareFlex := by
  intro rule hrule hname
  have hfind : builtin.filter (fun rule => rule.name = "flex".toList) =
      [⟨"flex", whole [word "flex", maybe '-', opt (group flexKind), maybe '-', group flexValue],
        declareFlex⟩] := rfl
  have hmem : rule ∈ builtin.filter fun rule => rule.name = "flex".toList :=
    List.mem_filter.mpr ⟨hrule, decide_eq_true hname⟩
  rw [hfind] at hmem
  obtain rfl := List.mem_singleton.mp hmem
  exact ⟨rfl, rfl⟩

theorem cases_of_fits_flexKind {kind : Text} (h : (opt flexKind).Fits kind) :
    kind = [] ∨ kind = "~" ∨ kind ∈ flexNames ∨ kind = "center" ∨
      kind.all Char.isDigit = true := by
  cases h with
  | absent => exact Or.inl rfl
  | present h =>
      obtain ⟨p, hp, hfits⟩ := Piece.exists_of_fits_choice h
      have hword : ∀ u : Text, p = word u → kind = u :=
        fun u hu => Piece.eq_of_fits_word (hu ▸ hfits)
      simp only [List.mem_cons, List.not_mem_nil, or_false] at hp
      rcases hp with hp | hp | hp | hp | hp | hp | rfl
      · exact Or.inr (Or.inl (hword _ hp))
      · rw [hword _ hp]; decide
      · rw [hword _ hp]; decide
      · rw [hword _ hp]; decide
      · rw [hword _ hp]; decide
      · exact Or.inr (Or.inr (Or.inr (Or.inl (hword _ hp))))
      · cases hfits with
        | @oneOf _ c hc =>
            have hdigit : c.isDigit = true := by
              simpa [CharSet.holds, CharSet.digits, SetItem.holds, Char.isDigit, Char.le_def]
                using hc
            exact Or.inr (Or.inr (Or.inr (Or.inr (by simp [hdigit]))))

theorem exists_property_of_fits {kind : Text} (hfits : (opt flexKind).Fits kind)
    (hplain : ¬ (kind.isEmpty || kind = "~".toList) = true) (hcenter : ¬ kind = "center")
    (hdigits : ¬ kind.all Char.isDigit = true) :
    kind ∈ flexNames ∧ ∃ property, flexProperties.lookup kind = some property ∧ property ≠ [] := by
  have hname : kind ∈ flexNames := by
    rcases cases_of_fits_flexKind hfits with h | h | h | h | h
    · exact absurd (by simp [h]) hplain
    · exact absurd (by simp [h]) hplain
    · exact h
    · exact absurd h hcenter
    · exact absurd h hdigits
  have hlookup : ∀ name ∈ flexNames, (flexProperties.lookup name).isSome = true := by decide
  obtain ⟨property, hproperty⟩ := Option.isSome_iff_exists.mp (hlookup kind hname)
  exact ⟨hname, property, hproperty, Text.of_lookup (P := (· ≠ [])) (by decide) hproperty⟩

/-- A flex property without a value declares nothing; all else is declared in full. -/
theorem declares_flex {m : Match} (hm : m.Grouped [opt flexKind, flexValue]) :
    ∃ d, declareFlex m = some d ∧
      (d.Complete ∨ (d = OrderedMap.empty ∧ m.group 1 ∈ flexNames ∧ m.group 2 = [])) := by
  have hkind : (opt flexKind).Fits (m.group 1) := hm.fits (i := 0) rfl
  unfold declareFlex
  dsimp only
  split_ifs with hplain hcenter hdigits hvalue
  · exact ⟨_, rfl, Or.inl (Declarations.complete_single (by decide) (by decide))⟩
  · exact ⟨_, rfl, Or.inl (Declarations.complete_ofPairs (by decide) (by decide))⟩
  · have hdigit : m.group 1 ≠ [] := fun hnil => hplain (by simp [hnil])
    exact ⟨_, rfl, Or.inl (Declarations.complete_single (by decide) hdigit)⟩
  · obtain ⟨hname, property, hproperty, -⟩ :=
      exists_property_of_fits hkind hplain hcenter hdigits
    rw [hproperty]
    exact ⟨_, rfl, Or.inr ⟨rfl, hname, List.isEmpty_iff.mp hvalue⟩⟩
  · obtain ⟨-, property, hproperty, hne⟩ := exists_property_of_fits hkind hplain hcenter hdigits
    rw [hproperty]
    refine ⟨_, rfl, Or.inl (Declarations.complete_single hne ?_)⟩
    exact Text.getD_lookup (P := (· ≠ [])) (by decide) (by simpa using hvalue)

theorem mem_dashes_of_fits {t : Text} (h : (maybe '-').Fits t) : t ∈ dashes := by
  cases h with
  | absent => decide
  | present hchar =>
      cases hchar
      decide

theorem exists_dashes_of_flex {kind value : Piece} (hkind : kind.groups = [])
    (hvalue : value.groups = []) {token : Text} {m : Match}
    (h : (whole [word "flex", maybe '-', opt (group kind), maybe '-', group value]).match? token =
      some m) :
    ∃ dash ∈ dashes, ∃ dash' ∈ dashes,
      token = "flex" ++ (dash ++ (m.group 1 ++ (dash' ++ m.group 2))) := by
  obtain ⟨x, hx, rfl, htaken⟩ := Pattern.exists_reading_of_match rfl h
  -- the word, a dash, the kind, a dash and the value, one after the other
  obtain ⟨w, y, hw, hy, rfl⟩ := exists_of_mem_readings_seq hx
  obtain ⟨d, z, hd, hz, rfl⟩ := exists_of_mem_readings_seq hy
  obtain ⟨k, u, hk, hu, rfl⟩ := exists_of_mem_readings_seq hz
  obtain ⟨d', v, hd', hv, rfl⟩ := exists_of_mem_readings_seq hu
  have hword : w.taken = "flex" := eq_of_fits_word (fits_of_mem_readings hw)
  have hwgroups : w.groups = [] := groups_eq_nil rfl hw
  have hdgroups : d.groups = [] := groups_eq_nil rfl hd
  have hdgroups' : d'.groups = [] := groups_eq_nil rfl hd'
  have hvgroups : v.groups = [some v.taken] := groups_of_mem_readings_group hvalue hv
  -- a kind that is not there counts as no text
  obtain ⟨g, hkgroups, hktaken⟩ : ∃ g : Option Text, k.groups = [g] ∧ g.getD [] = k.taken := by
    rcases List.mem_append.mp hk with hk | hk
    · exact ⟨some k.taken, groups_of_mem_readings_group hkind hk, rfl⟩
    · obtain rfl := List.mem_singleton.mp hk
      refine ⟨none, ?_, rfl⟩
      rw [← length_groups, groups, hkind]
      rfl
  refine ⟨d.taken, mem_dashes_of_fits (fits_of_mem_readings hd), d'.taken,
    mem_dashes_of_fits (fits_of_mem_readings hd'), ?_⟩
  rw [← htaken rfl]
  simp [hword, Match.group, hwgroups, hdgroups, hkgroups, hdgroups', hvgroups, hktaken]

/-! ## The table -/

/-- A token that names a flex property and gives it no value. -/
def IsUnvalued (token : Text) : Prop :=
  ∃ dash ∈ dashes, ∃ name ∈ flexNames, ∃ dash' ∈ dashes,
    token = "flex" ++ (dash ++ (name ++ dash'))

theorem apply_of_isUnvalued {token : Text} (h : IsUnvalued token) :
    RuleTable.apply builtin token = .matched "flex" OrderedMap.empty := by
  obtain ⟨dash, hdash, name, hname, dash', hdash', rfl⟩ := h
  simp only [dashes, flexNames, List.mem_cons, List.not_mem_nil, or_false] at hdash hname hdash'
  rcases hdash with rfl | rfl <;> rcases hname with rfl | rfl | rfl | rfl <;>
    rcases hdash' with rfl | rfl <;> rfl

/-- What the table says is nothing, or complete, or empty for a flex property without a value. -/
theorem apply_cases (token : Text) :
    RuleTable.apply builtin token = .unmatched ∨
      ∃ rule d, RuleTable.apply builtin token = .matched rule d ∧
        (d.Complete ∨ (d = OrderedMap.empty ∧ IsUnvalued token)) := by
  cases hclaim : RuleTable.claimants builtin token with
  | nil => exact Or.inl (RuleTable.apply_eq_unmatched_of_claimants hclaim)
  | cons rule others =>
      obtain ⟨m, hm, happly⟩ := RuleTable.apply_eq_answer_of_claimants hclaim
      have hmem : rule ∈ builtin := (List.mem_filter.mp (hclaim ▸ List.mem_cons_self)).1
      have hgrouped := Pattern.grouped_of_match (builtin_whole rule hmem).1 hm
      refine Or.inr ?_
      rw [happly, Rule.answer]
      by_cases hname : rule.name = "flex"
      · obtain ⟨hpattern, hdeclare⟩ := flex_of_name rule hmem hname
        rw [hpattern] at hm hgrouped
        obtain ⟨d, hd, hcomplete⟩ := declares_flex hgrouped
        rw [hdeclare, hd]
        refine ⟨rule.name, d, rfl, hcomplete.imp_right ?_⟩
        rintro ⟨hempty, hkind, hvalue⟩
        obtain ⟨dash, hdash, dash', hdash', htoken⟩ := exists_dashes_of_flex rfl rfl hm
        refine ⟨hempty, dash, hdash, m.group 1, hkind, dash', hdash', ?_⟩
        rw [htoken, hvalue, List.append_nil]
      · obtain ⟨d, hd, hcomplete⟩ := answers_builtin rule hmem hname m hgrouped
        rw [hd]
        exact ⟨rule.name, d, rfl, Or.inl hcomplete⟩

/-- **The built-in rules answer.**  They make sense of every token they claim.  Nothing is declared
for the tokens of `flex` that name a property and give it no value, and for no others; whatever is
declared has a property and a value. -/
theorem builtin_answered (token : Text) :
    (∀ rule, RuleTable.apply builtin token ≠ .rejected rule) ∧
    ((∃ rule d, RuleTable.apply builtin token = .matched rule d ∧ d.isEmpty = true) ↔
      ∃ dash ∈ ([[], "-"] : List Text), ∃ name ∈ (["jc", "ai", "d", "wrap"] : List Text),
        ∃ dash' ∈ ([[], "-"] : List Text), token = "flex" ++ (dash ++ (name ++ dash'))) ∧
    (∀ rule d, RuleTable.apply builtin token = .matched rule d →
      ∀ p ∈ d.toList, p.1 ≠ [] ∧ p.2 ≠ []) := by
  refine ⟨fun rule hrejected => ?_, ⟨?_, fun h => ⟨_, _, apply_of_isUnvalued h, rfl⟩⟩, ?_⟩
  · rcases apply_cases token with h | ⟨_, _, h, -⟩
    · cases h.symm.trans hrejected
    · cases h.symm.trans hrejected
  · rintro ⟨rule, d, hmatched, hempty⟩
    rcases apply_cases token with h | ⟨_, _, h, hd⟩
    · cases h.symm.trans hmatched
    · cases h.symm.trans hmatched
      rcases hd with hcomplete | ⟨-, hunvalued⟩
      · exact absurd hempty (by simp [hcomplete.declared])
      · exact hunvalued
  · intro rule d hmatched
    rcases apply_cases token with h | ⟨_, _, h, hd⟩
    · cases h.symm.trans hmatched
    · cases h.symm.trans hmatched
      rcases hd with hcomplete | ⟨rfl, -⟩
      · exact hcomplete.filled
      · nofun

/-- A flex property alone is claimed and declares nothing; a margin is declared for each side. -/
theorem builtin_answered_bare :
    (∃ rule d, RuleTable.apply builtin "flex-jc-" = .matched rule d ∧ d.isEmpty = true) ∧
      RuleTable.apply builtin "mlr--5%" = .matched "spacing"
        (OrderedMap.ofPairs [("margin-left", "-5%"), ("margin-right", "-5%")]) ∧
      ∀ p ∈ (OrderedMap.ofPairs [("margin-left".toList, "-5%".toList),
        ("margin-right".toList, "-5%".toList)]).toList, p.1 ≠ [] ∧ p.2 ≠ [] := by
  have hmatched : RuleTable.apply builtin "mlr--5%" = .matched "spacing"
      (OrderedMap.ofPairs [("margin-left", "-5%"), ("margin-right", "-5%")]) := rfl
  have hunvalued : IsUnvalued "flex-jc-" := ⟨"-", by decide, "jc", by decide, "-", by decide, rfl⟩
  exact ⟨(builtin_answered "flex-jc-").2.1.mpr hunvalued, hmatched,
    (builtin_answered "mlr--5%").2.2 _ _ hmatched⟩

end Rule

end AttributeCss
