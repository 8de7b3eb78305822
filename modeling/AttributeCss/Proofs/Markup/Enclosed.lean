/-
The template region, by the marks that enclose it.

`region?` looks for the first opening tag and then for the last closing mark
behind it.  Here both are places of the source, counted in characters:

    FirstOpening source p e     the first opening tag reaches from p to e
    LastAt regionEnd source q   the last closing mark stands at q

and the region is all from the start of the one to the end of the other
(`region?_eq_some_iff`).  If the first opening tag is too near to the last
closing mark, a later one does not help: later tags end later
(`OpensAt.end_le`), so there is a region just if any part of the source has the
form of one (`region?_eq_none_iff`).

Both marks start with a bracket that stands nowhere else in them, so none
reaches over the edge of the region.  What is written around the region then
decides nothing, as long as it holds no mark itself.
-/
import Mathlib.Data.Nat.Find
import AttributeCss.Proofs.Text.Marks
import AttributeCss.Session.Basic

namespace AttributeCss.Markup

open Text

/-! ## Opening tags -/

/-- An opening template tag: a blank stands behind the lead, or the lead is all there is. -/
inductive IsOpening : Text → Prop
  | bare : IsOpening (regionLead ++ ['>'])
  | spaced {c : Char} {inside : Text} : isBlank c = true → '>' ∉ inside →
      IsOpening (regionLead ++ c :: inside ++ ['>'])

theorem cutOpening?_append {tag : Text} (h : IsOpening tag) (rest : Text) :
    cutOpening? (tag ++ rest) = some (tag, rest) := by
  cases h with
  | bare => simp [cutOpening?]
  | @spaced c inside hblank hinside =>
      have hc : c ≠ '>' := by
        rintro rfl
        cases hblank
      simp [cutOpening?, hblank, cutFirst_append rest hinside]

theorem eq_of_cutOpening? {s tag rest : Text} (h : cutOpening? s = some (tag, rest)) :
    IsOpening tag ∧ s = tag ++ rest := by
  unfold cutOpening? at h
  split at h
  · next r hr =>
      cases h
      exact ⟨.bare, by simp [eq_of_behind? hr]⟩
  · next c r _ hr =>
      split at h
      · next hblank =>
          obtain ⟨⟨inside, u⟩, hcut, heq⟩ := Option.map_eq_some_iff.mp h
          obtain ⟨rfl, hinside⟩ := eq_of_cutFirst hcut
          cases heq
          exact ⟨.spaced hblank hinside, by simp [eq_of_behind? hr]⟩
      · cases h
  · cases h

theorem cutOpening?_eq_none {s : Text} (h : ∀ tag, IsOpening tag → ¬ tag <+: s) :
    cutOpening? s = none := by
  refine Option.eq_none_iff_forall_ne_some.mpr ?_
  rintro ⟨tag, rest⟩ hcut
  obtain ⟨htag, rfl⟩ := eq_of_cutOpening? hcut
  exact h tag htag (List.prefix_append tag rest)

/-! ## The region of a source -/

/-- An opening tag of the source reaches from `p` to `e`. -/
def OpensAt (source : Text) (p e : Nat) : Prop :=
  ∃ tag, IsOpening tag ∧ tag <+: source.drop p ∧ e = p + tag.length

/-- The first opening tag of the source reaches from `p` to `e`. -/
def FirstOpening (source : Text) (p e : Nat) : Prop :=
  OpensAt source p e ∧ ∀ p' e', OpensAt source p' e' → p ≤ p'

theorem opensAt_append (before : Text) {tag : Text} (h : IsOpening tag) (rest : Text) :
    OpensAt (before ++ (tag ++ rest)) before.length (before.length + tag.length) :=
  ⟨tag, h, by simp, rfl⟩

theorem exists_firstOpening {source : Text} {p e : Nat} (h : OpensAt source p e) :
    ∃ p e, FirstOpening source p e := by
  classical
  have hopens : ∃ p e, OpensAt source p e := ⟨p, e, h⟩
  obtain ⟨e, he⟩ := Nat.find_spec hopens
  exact ⟨Nat.find hopens, e, he, fun p' e' h' => Nat.find_min' hopens ⟨e', h'⟩⟩

theorem region?_drop {source : Text} {p : Nat} (h : ∀ p' e, OpensAt source p' e → p ≤ p') :
    region? source = region? (source.drop p) := by
  induction p generalizing source with
  | zero => rfl
  | succ p ih =>
      cases source with
      | nil => rfl
      | cons c r =>
          -- a tag that the source starts with would stand before `p + 1`
          have hnone : cutOpening? (c :: r) = none := by
            refine cutOpening?_eq_none fun tag htag hprefix => ?_
            exact absurd (h 0 _ ⟨tag, htag, hprefix, rfl⟩) (Nat.not_succ_le_zero p)
          rw [region?, hnone, List.drop_succ_cons]
          refine ih fun p' e hopens => ?_
          obtain ⟨tag, htag, hprefix, -⟩ := hopens
          exact Nat.le_of_succ_le_succ (h (p' + 1) _ ⟨tag, htag, hprefix, rfl⟩)

theorem region?_append {tag : Text} (h : IsOpening tag) (rest : Text) :
    region? (tag ++ rest) = regionFrom? tag rest := by
  have hcut := cutOpening?_append h rest
  obtain ⟨c, r, hcons⟩ : ∃ c r, tag ++ rest = c :: r := by
    cases h <;> exact ⟨_, _, rfl⟩
  rw [hcons] at hcut ⊢
  rw [region?, hcut]

theorem regionFrom?_eq_some_iff {opening rest r : Text} :
    regionFrom? opening rest = some r ↔ ∃ q, LastAt regionEnd rest q ∧ 0 < q ∧
      r = opening ++ rest.take (q + regionEnd.length) := by
  have hend : regionEnd ≠ [] := by decide
  cases rest with
  | nil =>
      refine ⟨nofun, ?_⟩
      rintro ⟨q, hq, -⟩
      exact absurd (List.prefix_nil.mp (by simpa using hq.1)) hend
  | cons c u =>
      rw [regionFrom?, Option.map_eq_some_iff]
      constructor
      · rintro ⟨body, hbody, rfl⟩
        obtain ⟨q, hq, rfl⟩ := (throughLast?_eq_some_iff hend).mp hbody
        refine ⟨q + 1, lastAt_cons_succ.mpr hq, Nat.succ_pos q, ?_⟩
        rw [Nat.add_right_comm, List.take_succ_cons]
      · rintro ⟨_ | q, hq, hpos, rfl⟩
        · cases hpos
        · refine ⟨_, throughLast?_of_lastAt hend (lastAt_cons_succ.mp hq), ?_⟩
          rw [Nat.add_right_comm, List.take_succ_cons]

/-- From the first opening tag on, the region is counted from the end of the tag. -/
theorem FirstOpening.region?_eq_some_iff {source r : Text} {p e : Nat}
    (h : FirstOpening source p e) : region? source = some r ↔
      ∃ q, LastAt regionEnd source q ∧ e < q ∧
        r = (source.take (q + regionEnd.length)).drop p := by
  obtain ⟨⟨tag, htag, ⟨rest, hrest⟩, rfl⟩, hfirst⟩ := h
  have hlast {q : Nat} :
      LastAt regionEnd rest q ↔ LastAt regionEnd source (p + tag.length + q) := by
    have hdrop : (tag ++ rest).drop tag.length = rest := List.drop_left
    rw [← hdrop, hrest, List.drop_drop]
    exact lastAt_drop
  have hslice {q : Nat} : tag ++ rest.take (q + regionEnd.length) =
      (source.take (p + tag.length + q + regionEnd.length)).drop p := by
    rw [Nat.add_assoc, drop_take_of_drop hrest]
  rw [region?_drop hfirst, ← hrest, region?_append htag, regionFrom?_eq_some_iff]
  constructor
  · rintro ⟨q, hq, hpos, rfl⟩
    exact ⟨p + tag.length + q, hlast.mp hq, Nat.lt_add_of_pos_right hpos, hslice⟩
  · rintro ⟨q, hq, hlt, rfl⟩
    obtain ⟨k, rfl⟩ := Nat.exists_eq_add_of_lt hlt
    exact ⟨k + 1, hlast.mpr hq, Nat.succ_pos k, (hslice (q := k + 1)).symm⟩

theorem exists_opensAt_of_region? {source r : Text} (h : region? source = some r) :
    ∃ p e, OpensAt source p e := by
  by_contra hnone
  have hbeyond : ∀ p e, OpensAt source p e → source.length ≤ p :=
    fun p e hopens => absurd ⟨p, e, hopens⟩ hnone
  rw [region?_drop hbeyond, List.drop_length] at h
  cases h

/-- The region of a source goes from its first opening tag to its last closing mark, if that stands
behind the tag with a character between them. -/
theorem region?_eq_some_iff {source r : Text} :
    region? source = some r ↔ ∃ p e q, FirstOpening source p e ∧ LastAt regionEnd source q ∧ e < q ∧
      r = (source.take (q + regionEnd.length)).drop p := by
  constructor
  · intro h
    obtain ⟨p, e, hopens⟩ := exists_opensAt_of_region? h
    obtain ⟨p, e, hfirst⟩ := exists_firstOpening hopens
    obtain ⟨q, hq⟩ := hfirst.region?_eq_some_iff.mp h
    exact ⟨p, e, q, hfirst, hq⟩
  · rintro ⟨p, e, q, hfirst, hq⟩
    exact hfirst.region?_eq_some_iff.mpr ⟨q, hq⟩

/-! ## The form of a region -/

/-- An opening tag, at least one character more, and a closing mark. -/
inductive Enclosed : Text → Prop
  | intro {tag : Text} {c : Char} {body : Text} : IsOpening tag →
      Enclosed (tag ++ c :: (body ++ regionEnd))

theorem enclosed_of_region? {source r : Text} (h : region? source = some r) : Enclosed r := by
  induction source with
  | nil => cases h
  | cons c u ih =>
      rw [region?] at h
      split at h
      · next tag rest hcut =>
          cases rest with
          | nil => cases h
          | cons d body =>
              obtain ⟨through, hthrough, rfl⟩ := Option.map_eq_some_iff.mp h
              have hend : regionEnd ≠ [] := by decide
              obtain ⟨q, hq, rfl⟩ := (throughLast?_eq_some_iff hend).mp hthrough
              rw [List.take_add, ← List.prefix_iff_eq_take.mp hq.1]
              exact .intro (eq_of_cutOpening? hcut).1
      · exact ih h

theorem OpensAt.exists_bracket {source : Text} {p e : Nat} (h : OpensAt source p e) :
    ∃ k, p ≤ k ∧ e = k + 1 ∧ source[k]? = some '>' ∧
      ∀ i, p ≤ i → source[i]? = some '>' → k ≤ i := by
  obtain ⟨tag, htag, ⟨rest, hrest⟩, rfl⟩ := h
  -- the bracket the tag ends with is its only one
  obtain ⟨u, rfl, hu⟩ : ∃ u, tag = u ++ ['>'] ∧ '>' ∉ u := by
    cases htag with
    | bare => exact ⟨regionLead, rfl, by decide⟩
    | @spaced c inside hblank hinside =>
        refine ⟨regionLead ++ c :: inside, rfl, ?_⟩
        have hlead : '>' ∉ regionLead := by decide
        have hc : '>' ≠ c := by
          rintro rfl
          cases hblank
        simp [hlead, hc, hinside]
  have hat (j : Nat) : source[p + j]? = (u ++ '>' :: rest)[j]? := by
    rw [← List.getElem?_drop, ← hrest, List.append_assoc, List.singleton_append]
  refine ⟨p + u.length, Nat.le_add_right .., by simp [Nat.add_assoc], by simp [hat], ?_⟩
  intro i hi hbracket
  obtain ⟨j, rfl⟩ := Nat.exists_eq_add_of_le hi
  by_contra hlt
  rw [hat, List.getElem?_append_left (by omega)] at hbracket
  exact hu (List.mem_of_getElem? hbracket)

theorem OpensAt.end_le {source : Text} {p e p' e' : Nat} (h : OpensAt source p e)
    (h' : OpensAt source p' e') (hle : p ≤ p') : e ≤ e' := by
  obtain ⟨k, -, rfl, -, hfirst⟩ := h.exists_bracket
  obtain ⟨k', hk', rfl, hbracket, -⟩ := h'.exists_bracket
  exact Nat.succ_le_succ (hfirst k' (hle.trans hk') hbracket)

/-- A source has no region just if no part of it has the form of one. -/
theorem region?_eq_none_iff {source : Text} :
    region? source = none ↔ ∀ t, t <:+: source → ¬ Enclosed t := by
  constructor
  · rintro hnone t ⟨before, after, hsource⟩ henclosed
    obtain @⟨tag, c, body, htag⟩ := henclosed
    have hopens : OpensAt source before.length (before.length + tag.length) := by
      rw [← hsource, List.append_assoc, List.append_assoc]
      exact opensAt_append before htag _
    have hcloses :
        regionEnd <+: source.drop (before.length + tag.length + (body.length + 1)) := by
      have hahead : source = (before ++ (tag ++ c :: body)) ++ (regionEnd ++ after) := by
        rw [← hsource]
        simp
      rw [hahead]
      exact ⟨after, by simp [Nat.add_assoc]⟩
    obtain ⟨p, e, hfirst⟩ := exists_firstOpening hopens
    obtain ⟨q, hlast⟩ := exists_lastAt (by decide) hcloses
    have hend : e ≤ before.length + tag.length := hfirst.1.end_le hopens (hfirst.2 _ _ hopens)
    have hlate : before.length + tag.length + (body.length + 1) ≤ q := hlast.2 _ hcloses
    have hbehind : e < q := by omega
    cases hnone.symm.trans (region?_eq_some_iff.mpr ⟨p, e, q, hfirst, hlast, hbehind, rfl⟩)
  · intro h
    refine Option.eq_none_iff_forall_ne_some.mpr fun r hr => ?_
    obtain ⟨p, e, q, -, -, -, hslice⟩ := region?_eq_some_iff.mp hr
    refine h r ?_ (enclosed_of_region? hr)
    rw [hslice]
    exact (List.drop_suffix ..).isInfix.trans (List.take_prefix ..).isInfix

/-! ## What stands around the region -/

theorem IsOpening.starts {tag : Text} (h : IsOpening tag) : regionLead <+: tag := by
  cases h with
  | bare => exact List.prefix_append _ _
  | spaced => exact ⟨_, (List.append_assoc ..).symm⟩

theorem region?_append_left {before tag : Text} (hbefore : ¬ regionLead <:+: before)
    (htag : IsOpening tag) (rest : Text) :
    region? (before ++ (tag ++ rest)) = region? (tag ++ rest) := by
  have hskip : region? (before ++ (tag ++ rest)) =
      region? ((before ++ (tag ++ rest)).drop before.length) := by
    refine region?_drop fun p e hopens => ?_
    by_contra hlt
    obtain ⟨tag', htag', hprefix, -⟩ := hopens
    have hlead := htag'.starts.trans hprefix
    obtain ⟨s, hs⟩ := htag.starts.trans (List.prefix_append tag rest)
    rw [List.drop_append_of_le_length (by omega), ← hs] at hlead
    have hnot : '<' ∉ "template".toList := by decide
    have hne : before.drop p ≠ [] := by simpa using hlt
    have hinside : regionLead <+: before.drop p := prefix_of_cons_prefix_append hnot hne hlead
    exact hbefore (hinside.isInfix.trans (List.drop_suffix ..).isInfix)
  rwa [List.drop_left] at hskip

/-- Text without a closing mark decides nothing behind the closing mark of a region. -/
theorem region?_append_right {r after : Text} (hr : Enclosed r) (hafter : ¬ regionEnd <:+: after) :
    region? (r ++ after) = some r := by
  obtain @⟨tag, c, body, htag⟩ := hr
  have hnot : '<' ∉ "/template>".toList := by decide
  have hthrough : throughLast? regionEnd (body ++ (regionEnd ++ after)) =
      some (body ++ regionEnd) :=
    throughLast?_append hnot body hafter
  rw [List.append_assoc, List.cons_append, List.append_assoc, region?_append htag, regionFrom?,
    hthrough, Option.map_some]

/-- A region stays the region when what stands around it is replaced by text without marks. -/
theorem region?_surrounded {r before after : Text} (hr : Enclosed r)
    (hbefore : ¬ regionLead <:+: before) (hafter : ¬ regionEnd <:+: after) :
    region? (before ++ r ++ after) = some r := by
  have hright := region?_append_right hr hafter
  obtain @⟨tag, c, body, htag⟩ := hr
  rw [List.append_assoc]
  rw [List.append_assoc] at hright ⊢
  rw [region?_append_left hbefore htag, hright]

/-- **The region of a source.**  There is one just if the last closing mark stands behind the first
opening tag, with at least one character between them, and it is all from the start of the one to
the end of the other.  What stands around it can be replaced by any text without a lead in front
and without a closing mark behind: the region stays the same, and so does every scan. -/
theorem region_between_marks (source : Text) :
    (∀ r, region? source = some r ↔ ∃ p e q, FirstOpening source p e ∧ LastAt regionEnd source q ∧
      e < q ∧ r = (source.take (q + regionEnd.length)).drop p) ∧
    (∀ r before after, region? source = some r → ¬ regionLead <:+: before →
      ¬ regionEnd <:+: after → region? (before ++ r ++ after) = some r ∧
        ∀ (s : Session) (origin : Option Text),
          s.scanText origin (before ++ r ++ after) = s.scanText origin source) := by
  refine ⟨fun r => region?_eq_some_iff, fun r before after hregion hbefore hafter => ?_⟩
  have hsame := region?_surrounded (enclosed_of_region? hregion) hbefore hafter
  refine ⟨hsame, fun s origin => ?_⟩
  rw [Session.scanText, Session.scanText, hsame, hregion]

theorem region_between_marks_scripts :
    region? "<templates/><template v-if>a</template></template>" =
      some "<template v-if>a</template></template>" ∧
    ¬ regionLead <:+: "<script>" ∧ ¬ regionEnd <:+: "</script>" ∧
    region? ("<script>" ++ "<template v-if>a</template></template>" ++ "</script>") =
      some "<template v-if>a</template></template>" := by
  have hregion : region? "<templates/><template v-if>a</template></template>" =
      some "<template v-if>a</template></template>" := rfl
  have hbefore : ¬ regionLead <:+: "<script>" := by decide
  have hafter : ¬ regionEnd <:+: "</script>" := by decide
  have hsame := (region_between_marks _).2 _ "<script>" "</script>" hregion hbefore hafter
  exact ⟨hregion, hbefore, hafter, hsame.1⟩

end AttributeCss.Markup
