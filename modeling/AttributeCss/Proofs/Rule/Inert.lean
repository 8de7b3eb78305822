/-
Built-in rules declare no structure.

What a rule declares comes from its own words and from the groups of the
match, and a group took its text from the token.  A token that is claimed is
spelled in the characters of the table, none of which opens, closes or ends
anything in a stylesheet; so no property and no value does.
-/
import AttributeCss.Proofs.Lists
import AttributeCss.Proofs.Rule.Alphabet

namespace AttributeCss

open Css

namespace Text

/-- The characters that open, close or end something in a stylesheet. -/
def delimiters : List Char :=
  ['\x7b', '\x7d', '[', ']', ';', '<', '>', quoteMark, apostrophe, backslash]

/-- No character of the text is a delimiter. -/
def Inert (t : Text) : Prop := ∀ c ∈ t, c ∉ delimiters

instance (t : Text) : Decidable t.Inert :=
  decidable_of_iff (t.all fun c => !delimiters.contains c) (by simp [Inert])

@[simp] theorem inert_nil : Inert [] := nofun

@[simp] theorem inert_cons {c : Char} {t : Text} : Inert (c :: t) ↔ c ∉ delimiters ∧ t.Inert :=
  List.forall_mem_cons

@[simp] theorem inert_append {s t : Text} : Inert (s ++ t) ↔ s.Inert ∧ t.Inert :=
  List.forall_mem_append

theorem notMem_delimiters_of {p : Char → Bool} (hp : delimiters.any p = false) {c : Char}
    (hc : p c = true) : c ∉ delimiters :=
  fun hmem => List.any_eq_false.mp hp c hmem hc

theorem inert_of_forall {p : Char → Bool} (hp : delimiters.any p = false) {t : Text}
    (ht : ∀ c ∈ t, p c = true) : t.Inert :=
  fun c hc => notMem_delimiters_of hp (ht c hc)

theorem of_lookup {P : Text → Prop} {table : List (Text × Text)} (h : ∀ p ∈ table, P p.2)
    {k t : Text} (hk : table.lookup k = some t) : P t := by
  obtain ⟨_, _, rfl, -⟩ := List.lookup_eq_some_iff.mp hk
  exact h (k, t) (by simp)

/-- A short name in the table stands for a text, and any other text for itself. -/
theorem getD_lookup {P : Text → Prop} {table : List (Text × Text)} (h : ∀ p ∈ table, P p.2)
    {t : Text} (ht : P t) : P ((table.lookup t).getD t) := by
  cases hlookup : table.lookup t with
  | none => exact ht
  | some u => exact of_lookup h hlookup

theorem inert_numeral (n : Nat) : (numeral n).Inert := by
  obtain ⟨-, hdigits⟩ := (Bool.and_eq_true ..).mp (isNumeral_numeral n)
  exact inert_of_forall (by decide) (List.all_eq_true.mp hdigits)

theorem inert_hundredths (n : Nat) : (hundredths n).Inert := by
  have hdigit : ∀ d < 10, Nat.digitChar d ∉ delimiters := by decide
  have hpoint : '.' ∉ delimiters := by decide
  have htenths : n % 100 / 10 < 10 := by omega
  have hlast : n % 10 < 10 := by omega
  unfold hundredths
  dsimp only
  split_ifs <;> simp [inert_numeral, hpoint, hdigit _ htenths, hdigit _ hlast]

end Text

/-! ## Declarations -/

namespace OrderedMap

variable {β : Type} {P : Text × β → Prop}

theorem forall_mem_insert {m : OrderedMap β} (hm : ∀ p ∈ m.toList, P p) {k : Text} {x : β}
    (hk : P (k, x)) : ∀ p ∈ (m.insert k x).toList, P p := by
  have hput : ∀ l : List (Text × β), (∀ p ∈ l, P p) → ∀ p ∈ put k (fun _ => x) l, P p := by
    intro l hl
    induction l with
    | nil => exact List.forall_mem_singleton.mpr hk
    | cons q r ih =>
        obtain ⟨hq, hr⟩ := List.forall_mem_cons.mp hl
        rw [put]
        split
        · next heq => exact List.forall_mem_cons.mpr ⟨heq ▸ hk, hr⟩
        · exact List.forall_mem_cons.mpr ⟨hq, ih hr⟩
  exact hput m.toList hm

theorem forall_mem_ofPairs {l : List (Text × β)} (h : ∀ p ∈ l, P p) :
    ∀ p ∈ (ofPairs l).toList, P p := by
  have hfold : ∀ (l : List (Text × β)) (m : OrderedMap β), (∀ p ∈ l, P p) →
      (∀ p ∈ m.toList, P p) → ∀ p ∈ (l.foldl (fun m p => m.insert p.1 p.2) m).toList, P p := by
    intro l
    induction l with
    | nil => exact fun _ _ hm => hm
    | cons q r ih =>
        intro m hl hm
        obtain ⟨hq, hr⟩ := List.forall_mem_cons.mp hl
        exact ih (m.insert q.1 q.2) hr (forall_mem_insert hm hq)
  exact hfold l empty h nofun

end OrderedMap

namespace Css

/-- No property and no value of the declarations holds a delimiter. -/
def Declarations.Inert (d : Declarations) : Prop := ∀ p ∈ d.toList, p.1.Inert ∧ p.2.Inert

theorem Declarations.inert_empty : Declarations.Inert OrderedMap.empty := nofun

theorem Declarations.inert_single {property value : Text} (hproperty : property.Inert)
    (hvalue : value.Inert) : (single property value).Inert :=
  OrderedMap.forall_mem_insert nofun ⟨hproperty, hvalue⟩

theorem inert_length {token : Text} (h : token.Inert) : (length token).Inert := by
  unfold length
  split
  · exact h
  · exact Text.inert_append.mpr ⟨h, by decide⟩

theorem inert_resolveColor {token : Text} (h : token.Inert) : (resolveColor token).Inert := by
  unfold resolveColor
  split
  · next color hcolor => exact Text.of_lookup (by decide) hcolor
  · split_ifs
    · exact h
    · exact Text.inert_cons.mpr ⟨by decide, h⟩
    · decide

theorem Rgb.inert_write (opacity : Nat) (color : Rgb) : (color.write opacity).Inert := by
  unfold write
  simp only [Text.inert_append, Text.inert_cons, Text.inert_numeral, Text.inert_hundredths, and_true]
  decide

theorem inert_colorValue {token : Text} (h : token.Inert) (depth opacity : Option Nat) :
    (colorValue token depth opacity).Inert := by
  unfold colorValue
  dsimp only
  split
  · exact inert_resolveColor h
  · exact Rgb.inert_write _ _

end Css

/-! ## Groups -/

theorem Piece.mem_taken_of_mem_group {p : Piece} {s : Text} {x : Reading} (h : x ∈ p.readings s)
    {g : Text} (hg : some g ∈ x.groups) {c : Char} (hc : c ∈ g) : c ∈ x.taken := by
  induction p generalizing s x with
  | nothing =>
      obtain rfl := List.mem_singleton.mp h
      cases hg
  | char d =>
      obtain ⟨r, -, rfl⟩ := eq_of_mem_readings_char h
      cases hg
  | oneOf set =>
      obtain ⟨d, r, -, -, rfl⟩ := eq_of_mem_readings_oneOf h
      cases hg
  | run set least most =>
      obtain ⟨-, rfl⟩ := eq_of_mem_readings_run h
      cases hg
  | seq a b iha ihb =>
      obtain ⟨y, z, hy, hz, rfl⟩ := exists_of_mem_readings_seq h
      rcases List.mem_append.mp hg with hg | hg
      · exact List.mem_append_left _ (iha hy hg)
      · exact List.mem_append_right _ (ihb hz hg)
  | alt a b iha ihb =>
      simp only [readings, List.mem_append, List.mem_map] at h
      rcases h with ⟨y, hy, rfl⟩ | ⟨y, hy, rfl⟩
      · exact iha (x := y) hy (by simpa using hg)
      · exact ihb (x := y) hy (by simpa using hg)
  | opt a ih =>
      rcases List.mem_append.mp h with h | h
      · exact ih h hg
      · obtain rfl := List.mem_singleton.mp h
        simp at hg
  | group a ih =>
      obtain ⟨y, hy, rfl⟩ := List.mem_map.mp h
      rcases List.mem_cons.mp hg with heq | hg
      · obtain rfl := Option.some.inj heq
        exact hc
      · exact ih (x := y) hy hg
  | bare a ih => exact ih h hg

theorem Pattern.mem_of_mem_group {p : Pattern} (hstart : p.fromStart = true) {token : Text}
    {m : Match} (h : p.match? token = some m) {i : Nat} {c : Char} (hc : c ∈ m.group i) :
    c ∈ token := by
  obtain ⟨x, hx, rfl, -⟩ := exists_reading_of_match hstart h
  have htaken : c ∈ x.taken := by
    cases i with
    | zero => exact hc
    | succ i =>
        rw [Match.group] at hc
        match hg : x.groups[i]? with
        | none => simp [hg] at hc
        | some none => simp [hg] at hc
        | some (some g) =>
            have htook : c ∈ g := by simpa [hg] using hc
            exact Piece.mem_taken_of_mem_group hx (List.mem_of_getElem? hg) htook
  rw [← Piece.taken_append_rest hx]
  exact List.mem_append_left _ htaken

/-! ## Rules -/

namespace Rule

/-- From groups without delimiters come declarations without delimiters. -/
def KeepsInert (declare : Match → Option Declarations) : Prop :=
  ∀ m, (∀ i, (m.group i).Inert) → ∀ d, declare m = some d → d.Inert

theorem inert_of_sideOf? {c : Char} {side : Text} (h : sideOf? c = some side) : side.Inert := by
  unfold sideOf? at h
  split at h <;> cases h <;> decide

theorem inert_perSide {property suffix letters value : Text} (hproperty : property.Inert)
    (hsuffix : suffix.Inert) (hvalue : value.Inert) {d : Declarations}
    (h : perSide property suffix letters value = some d) : d.Inert := by
  unfold perSide at h
  split at h
  · obtain rfl := Option.some.inj h
    exact Declarations.inert_single (Text.inert_append.mpr ⟨hproperty, hsuffix⟩) hvalue
  · obtain ⟨sides, hsides, rfl⟩ := Option.map_eq_some_iff.mp h
    refine OrderedMap.forall_mem_ofPairs fun p hp => ?_
    obtain ⟨side, hside, rfl⟩ := List.mem_map.mp hp
    obtain ⟨letter, -, hletter⟩ := exists_of_mem_mapM hsides hside
    have hnamed : Text.Inert side := inert_of_sideOf? hletter
    have hdash : '-' ∉ Text.delimiters := by decide
    exact ⟨by simp [hproperty, hsuffix, hnamed, hdash], hvalue⟩

theorem declareKeyword_keepsInert {property : Text} (h : property.Inert) :
    KeepsInert (declareKeyword property) := by
  rintro m hm d hd
  obtain rfl := Option.some.inj hd
  exact Declarations.inert_single h (hm 1)

theorem declareSpacing_keepsInert : KeepsInert declareSpacing := by
  intro m hm d hd
  unfold declareSpacing at hd
  split at hd
  · exact inert_perSide (by decide) (by decide) (inert_length (hm 3)) hd
  · exact inert_perSide (by decide) (by decide) (inert_length (hm 3)) hd
  · cases hd

theorem inert_sizeBound (t : Text) : (sizeBound t).Inert := by
  unfold sizeBound
  split <;> decide

theorem declareSize_keepsInert : KeepsInert declareSize := by
  intro m hm d hd
  unfold declareSize at hd
  have hproperty : ∀ word : Text, word.Inert → (sizeBound (m.group 1) ++ word).Inert :=
    fun _ hword => Text.inert_append.mpr ⟨inert_sizeBound _, hword⟩
  split at hd
  · obtain rfl := Option.some.inj hd
    exact Declarations.inert_single (hproperty _ (by decide)) (inert_length (hm 3))
  · obtain rfl := Option.some.inj hd
    exact Declarations.inert_single (hproperty _ (by decide)) (inert_length (hm 3))
  · cases hd

theorem inert_pixels {t : Text} (h : t.Inert) : (t ++ "px").Inert :=
  Text.inert_append.mpr ⟨h, by decide⟩

theorem declareFontSize_keepsInert : KeepsInert declareFontSize := by
  intro m hm d hd
  obtain rfl := Option.some.inj hd
  exact Declarations.inert_single (by decide) (inert_pixels (hm 1))

theorem declareDisplay_keepsInert : KeepsInert declareDisplay := by
  intro m hm d hd
  obtain rfl := Option.some.inj hd
  exact Declarations.inert_single (by decide) (Text.getD_lookup (by decide) (hm 1))

theorem declareColor_keepsInert : KeepsInert declareColor := by
  intro m hm d hd
  unfold declareColor at hd
  have hcolor : (colorOf m 2 3 4).Inert := inert_colorValue (hm 2) _ _
  split at hd
  · obtain rfl := Option.some.inj hd
    exact Declarations.inert_single (by decide) hcolor
  · obtain rfl := Option.some.inj hd
    exact Declarations.inert_single (by decide) hcolor
  · cases hd

theorem declareTextAlign_keepsInert : KeepsInert declareTextAlign := by
  intro m _ d hd
  unfold declareTextAlign at hd
  split at hd <;> cases hd <;> exact Declarations.inert_single (by decide) (by decide)

theorem declareFlex_keepsInert : KeepsInert declareFlex := by
  intro m hm d hd
  unfold declareFlex at hd
  dsimp only at hd
  split_ifs at hd
  · obtain rfl := Option.some.inj hd
    exact Declarations.inert_single (by decide) (by decide)
  · obtain rfl := Option.some.inj hd
    exact OrderedMap.forall_mem_ofPairs (by decide)
  · obtain rfl := Option.some.inj hd
    exact Declarations.inert_single (by decide) (hm 1)
  · obtain ⟨property, -, rfl⟩ := Option.map_eq_some_iff.mp hd
    exact Declarations.inert_empty
  · obtain ⟨property, hproperty, rfl⟩ := Option.map_eq_some_iff.mp hd
    exact Declarations.inert_single (Text.of_lookup (by decide) hproperty)
      (Text.getD_lookup (by decide) (hm 2))

theorem declareOffset_keepsInert : KeepsInert declareOffset := by
  intro m hm d hd
  obtain ⟨c, -, hc⟩ := Option.bind_eq_some_iff.mp hd
  obtain ⟨side, hside, rfl⟩ := Option.map_eq_some_iff.mp hc
  exact Declarations.inert_single (inert_of_sideOf? hside) (inert_length (hm 2))

theorem declareBorder_keepsInert : KeepsInert declareBorder := by
  intro m hm d hd
  unfold declareBorder at hd
  dsimp only at hd
  split at hd
  · exact inert_perSide (by decide) (by decide) (inert_pixels (hm 3)) hd
  · exact inert_perSide (by decide) (by decide) (inert_pixels (hm 3)) hd
  · exact inert_perSide (by decide) (by decide) (inert_colorValue (hm 3) _ _) hd
  · exact inert_perSide (by decide) (by decide) (hm 3) hd
  · cases hd

theorem declareGap_keepsInert : KeepsInert declareGap := by
  intro m hm d hd
  obtain rfl := Option.some.inj hd
  refine Declarations.inert_single (by decide) ?_
  split
  · exact inert_pixels (hm 1)
  · have hspace : ' ' ∉ Text.delimiters := by decide
    have hpx : Text.Inert "px" := by decide
    simp only [Text.inert_append, Text.inert_cons, hm 1, hm 2, hspace, hpx, not_false_eq_true,
      and_self]

/-- Whatever a built-in rule makes of groups without delimiters has none. -/
theorem builtin_keepsInert : ∀ rule ∈ builtin, KeepsInert rule.declare := by
  simp only [builtin, List.forall_mem_cons]
  refine ⟨declareSpacing_keepsInert, declareSize_keepsInert, declareFontSize_keepsInert,
    declareDisplay_keepsInert, declareColor_keepsInert, declareKeyword_keepsInert (by decide),
    declareTextAlign_keepsInert, declareFlex_keepsInert, declareKeyword_keepsInert (by decide),
    declareKeyword_keepsInert (by decide), declareOffset_keepsInert, declareBorder_keepsInert,
    declareKeyword_keepsInert (by decide), declareGap_keepsInert, ?_,
    declareKeyword_keepsInert (by decide), declareKeyword_keepsInert (by decide), nofun⟩
  intro m _ d hd
  obtain rfl := Option.some.inj hd
  exact Declarations.inert_single (by decide) (by decide)

/-- Whatever the built-in rules declare for a token holds no delimiter. -/
theorem inert_declarations (token : Text) :
    (RuleTable.apply builtin token).declarations.Inert := by
  cases hclaim : RuleTable.claimants builtin token with
  | nil =>
      rw [RuleTable.apply_eq_unmatched_of_claimants hclaim]
      exact Declarations.inert_empty
  | cons rule others =>
      obtain ⟨m, hm, happly⟩ := RuleTable.apply_eq_answer_of_claimants hclaim
      have hmem : rule ∈ builtin := (List.mem_filter.mp (hclaim ▸ List.mem_cons_self)).1
      have hspells : rule.pattern.Spells alphabet := builtin_spells rule hmem
      have hgroups : ∀ i, (m.group i).Inert := fun i => Text.inert_of_forall (by decide) fun c hc =>
        Pattern.holds_of_match hspells hm (Pattern.mem_of_mem_group hspells.1 hm hc)
      rw [happly, Rule.answer]
      cases hdeclare : rule.declare m with
      | none => exact Declarations.inert_empty
      | some d => exact builtin_keepsInert rule hmem m hgroups d hdeclare

theorem inert_token {token : Text}
    (h : (RuleTable.apply builtin token).declarations.isEmpty = false) : token.Inert :=
  Text.inert_of_forall (by decide) fun _ hc => RuleTable.holds_of_declarations builtin_spells h hc

end Rule

end AttributeCss
