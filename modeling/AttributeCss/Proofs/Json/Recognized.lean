/-
Only the grammar is read.

A text that is read was written by the grammar (`Value.read?_eq_some_iff`): spaces
apart, each word of it is one the grammar writes (`exists_cut`), the words are
those of the document, and so the text is put together as the document is.
-/
import AttributeCss.Proofs.Json.Grammar

namespace AttributeCss.Json

/-! ## Strings -/

theorem isHexDigit_of_hexValue? {c : Char} {n : Nat} (h : hexValue? c = some n) :
    IsHexDigit n c := by
  have hdigits : ∀ m < 10, (Nat.digitChar m).toNat = '0'.toNat + m := by decide
  have hletters : ∀ m < 6, (Nat.digitChar (m + 10)).toNat = 'a'.toNat + m ∧
      (Nat.digitChar (m + 10)).toUpper.toNat = 'A'.toNat + m := by decide
  have hbetween : ∀ {a b : Char}, (decide (a ≤ c) && decide (c ≤ b)) = true →
      a.toNat ≤ c.toNat ∧ c.toNat ≤ b.toNat := by
    intro a b hab
    simpa [Char.le_def, UInt32.le_iff_toNat_le] using hab
  unfold hexValue? at h
  split at h
  · next hc =>
      obtain ⟨hfirst, hlast⟩ := Char.isDigit_iff_toNat.mp hc
      obtain rfl := Option.some.inj h
      simp at hfirst hlast
      refine ⟨by simp; omega, Or.inl (Char.toNat_inj.mp ?_)⟩
      rw [hdigits _ (by simp; omega)]
      simp
      omega
  · split at h
    · next hc =>
        obtain ⟨hfirst, hlast⟩ := hbetween hc
        obtain rfl := Option.some.inj h
        simp at hfirst hlast
        refine ⟨by simp; omega, Or.inl (Char.toNat_inj.mp ?_)⟩
        rw [(hletters _ (by simp; omega)).1]
        simp
        omega
    · split at h
      · next hc =>
          obtain ⟨hfirst, hlast⟩ := hbetween hc
          obtain rfl := Option.some.inj h
          simp at hfirst hlast
          refine ⟨by simp; omega, Or.inr (Char.toNat_inj.mp ?_)⟩
          rw [(hletters _ (by simp; omega)).2]
          simp
          omega
      · cases h

theorem mem_escapeLetters {e c : Char} (h : shortEscape? e = some c) : (e, c) ∈ escapeLetters := by
  unfold shortEscape? at h
  split_ifs at h with hself hb hf hn hr ht
  · obtain rfl := Option.some.inj h
    simp only [Bool.or_eq_true, decide_eq_true_eq] at hself
    rcases hself with (rfl | rfl) | rfl <;> decide
  all_goals
    subst_vars
    obtain rfl := Option.some.inj h
    decide

theorem exists_writtenAs_of_readString? {t : Text} {s : Literal} {rest : Text}
    (h : readString? t = some (s, rest)) :
    ∃ w, s.WrittenAs w ∧ t = w ++ Text.quoteMark :: rest := by
  fun_induction readString? t generalizing s with
  | case1 | case4 | case6 | case7 | case8 => cases h
  | case2 r =>
      obtain ⟨rfl, rfl⟩ := Prod.mk.inj (Option.some.inj h)
      exact ⟨[], .nil, rfl⟩
  | case3 a b c d r n hcode _ ih =>
      obtain ⟨s', hread, rfl⟩ := eq_of_consUnit h
      obtain ⟨w, hw, rfl⟩ := ih hread
      simp only [hexCode?, bind, Option.bind_eq_some_iff, pure, Option.some.injEq] at hcode
      obtain ⟨n₁, ha, n₂, hb, n₃, hc, n₄, hd, rfl⟩ := hcode
      exact ⟨_, .cons (.code (isHexDigit_of_hexValue? ha) (isHexDigit_of_hexValue? hb)
        (isHexDigit_of_hexValue? hc) (isHexDigit_of_hexValue? hd)) hw, rfl⟩
  | case5 e r _ c hescape _ ih =>
      obtain ⟨s', hread, rfl⟩ := eq_of_consUnit h
      obtain ⟨w, hw, rfl⟩ := ih hread
      exact ⟨_, .cons (.letter (mem_escapeLetters hescape)) hw, rfl⟩
  | case9 c r hquote hback hcontrol ih =>
      obtain ⟨s', hread, rfl⟩ := eq_of_consUnit h
      obtain ⟨w, hw, rfl⟩ := ih hread
      exact ⟨_, .cons (.plain hquote hback (Nat.not_lt.mp hcontrol)) hw, rfl⟩

/-! ## Words -/

/-- The ways to write a word. -/
inductive Token.WrittenAs : Token → Text → Prop
  | mark {c : Char} {t : Token} : markOf? c = some t → WrittenAs t [c]
  | null : WrittenAs .null "null"
  | yes : WrittenAs (.bool true) "true"
  | no : WrittenAs (.bool false) "false"
  | number {n : Text} : IsNumber n → WrittenAs (.number n) n
  | string {s : Literal} {t : Text} : s.WrittenAs t →
      WrittenAs (.string s) (Text.quoteMark :: (t ++ [Text.quoteMark]))

theorem exists_writtenAs_of_readName? {s rest : Text} {t : Token}
    (h : readName? s = some (t, rest)) : ∃ u, t.WrittenAs u ∧ s = u ++ rest := by
  unfold readName? at h
  split at h
  · next r hr =>
      obtain ⟨rfl, rfl⟩ := Prod.mk.inj (Option.some.inj h)
      exact ⟨_, .null, Text.eq_of_behind? hr⟩
  · split at h
    · next r hr =>
        obtain ⟨rfl, rfl⟩ := Prod.mk.inj (Option.some.inj h)
        exact ⟨_, .yes, Text.eq_of_behind? hr⟩
    · obtain ⟨r, hr, heq⟩ := Option.map_eq_some_iff.mp h
      obtain ⟨rfl, rfl⟩ := Prod.mk.inj heq
      exact ⟨_, .no, Text.eq_of_behind? hr⟩

theorem exists_writtenAs_of_readToken? {s rest : Text} {t : Token}
    (h : readToken? s = some (t, rest)) : ∃ u, t.WrittenAs u ∧ s = u ++ rest := by
  unfold readToken? at h
  split at h
  · cases h
  · next c r =>
      split at h
      · next mark hmark =>
          obtain ⟨rfl, rfl⟩ := Prod.mk.inj (Option.some.inj h)
          exact ⟨[c], .mark hmark, rfl⟩
      · split at h
        · next hquote =>
            obtain ⟨⟨l, u⟩, hstring, heq⟩ := Option.map_eq_some_iff.mp h
            obtain ⟨rfl, rfl⟩ := Prod.mk.inj heq
            obtain ⟨w, hw, rfl⟩ := exists_writtenAs_of_readString? hstring
            exact ⟨_, .string hw, by simp [hquote]⟩
        · split at h
          · exact exists_writtenAs_of_readName? h
          · obtain ⟨⟨n, u⟩, hnumber, heq⟩ := Option.map_eq_some_iff.mp h
            obtain ⟨rfl, rfl⟩ := Prod.mk.inj heq
            exact ⟨n, .number (isNumber_of_readNumber? hnumber), (eq_of_readNumber? hnumber).1⟩

theorem exists_cut {t : Text} {w : Token} {ts : List Token} (h : tokens? t = some (w :: ts)) :
    ∃ gap u rest, Gap gap ∧ w.WrittenAs u ∧ t = gap ++ (u ++ rest) ∧ tokens? rest = some ts := by
  fun_induction tokens? t with
  | case1 => cases h
  | case2 c r hc ih =>
      obtain ⟨gap, u, rest, hgap, hu, rfl, hrest⟩ := ih h
      exact ⟨c :: gap, u, rest, List.forall_mem_cons.mpr ⟨hc, hgap⟩, hu, rfl, hrest⟩
  | case3 => cases h
  | case4 c r _ t' rest hread _ _ =>
      obtain ⟨ts', hrest, heq⟩ := Option.map_eq_some_iff.mp h
      obtain ⟨rfl, rfl⟩ := List.cons.inj heq
      obtain ⟨u, hu, hsplit⟩ := exists_writtenAs_of_readToken? hread
      exact ⟨[], u, rest, gap_nil, hu, hsplit, hrest⟩

theorem eq_of_markOf? {c : Char} {t : Token} (h : markOf? c = some t) :
    c = '[' ∧ t = .arrayOpen ∨ c = ']' ∧ t = .arrayClose ∨ c = '\x7b' ∧ t = .objectOpen ∨
      c = '\x7d' ∧ t = .objectClose ∨ c = ',' ∧ t = .comma ∨ c = ':' ∧ t = .colon := by
  simp only [markOf?] at h
  split_ifs at h <;> obtain rfl := Option.some.inj h <;> simp [*]

theorem eq_of_writtenAs_mark {c : Char} {w : Token} (hw : markOf? c = some w) {u : Text}
    (h : w.WrittenAs u) : u = [c] := by
  have hmark := eq_of_markOf? hw
  cases h with
  | mark hd =>
      have hmark' := eq_of_markOf? hd
      rcases hmark with ⟨rfl, rfl⟩ | ⟨rfl, rfl⟩ | ⟨rfl, rfl⟩ | ⟨rfl, rfl⟩ | ⟨rfl, rfl⟩ | ⟨rfl, rfl⟩
        <;> simpa using hmark'
  | null | yes | no | number _ | string _ => simp at hmark

theorem exists_writtenAs_string {s : Literal} {u : Text} (h : (Token.string s).WrittenAs u) :
    ∃ w, s.WrittenAs w ∧ u = Text.quoteMark :: (w ++ [Text.quoteMark]) := by
  cases h with
  | mark hc => simpa using eq_of_markOf? hc
  | string hw => exact ⟨_, hw, rfl⟩

theorem exists_cut_mark {t : Text} {c : Char} {w : Token} (hw : markOf? c = some w)
    {ts : List Token} (h : tokens? t = some (w :: ts)) :
    ∃ gap rest, Gap gap ∧ t = gap ++ c :: rest ∧ tokens? rest = some ts := by
  obtain ⟨gap, u, rest, hgap, hu, rfl, hrest⟩ := exists_cut h
  obtain rfl := eq_of_writtenAs_mark hw hu
  exact ⟨gap, rest, hgap, rfl, hrest⟩

/-! ## Documents -/

mutual

theorem exists_writtenAs : ∀ (v : Value) {t : Text} {ts : List Token},
    tokens? t = some (v.words ++ ts) →
    ∃ gap u rest, Gap gap ∧ v.WrittenAs u ∧ t = gap ++ (u ++ rest) ∧ tokens? rest = some ts
  | .null, _, _, h => by
      obtain ⟨gap, u, rest, hgap, hu, rfl, hrest⟩ := exists_cut h
      cases hu with
      | mark hc => simpa using eq_of_markOf? hc
      | null => exact ⟨gap, _, rest, hgap, .null, rfl, hrest⟩
  | .bool b, _, _, h => by
      obtain ⟨gap, u, rest, hgap, hu, rfl, hrest⟩ := exists_cut h
      cases hu with
      | mark hc => simpa using eq_of_markOf? hc
      | yes => exact ⟨gap, _, rest, hgap, .yes, rfl, hrest⟩
      | no => exact ⟨gap, _, rest, hgap, .no, rfl, hrest⟩
  | .number n, _, _, h => by
      obtain ⟨gap, u, rest, hgap, hu, rfl, hrest⟩ := exists_cut h
      cases hu with
      | mark hc => simpa using eq_of_markOf? hc
      | number hn => exact ⟨gap, _, rest, hgap, .number hn, rfl, hrest⟩
  | .string s, _, _, h => by
      obtain ⟨gap, u, rest, hgap, hu, rfl, hrest⟩ := exists_cut h
      obtain ⟨w, hw, rfl⟩ := exists_writtenAs_string hu
      exact ⟨gap, _, rest, hgap, .string hw, rfl, hrest⟩
  | .array items, _, ts, h => by
      have hwords : (Value.array items).words ++ ts =
          .arrayOpen :: (itemsWords items ++ .arrayClose :: ts) := by simp [Value.words]
      rw [hwords] at h
      obtain ⟨gap, inside, hgap, rfl, hinside⟩ := exists_cut_mark (c := '[') (by rfl) h
      obtain ⟨u, rest, hu, rfl, hrest⟩ := exists_itemsWrittenAs items hinside
      exact ⟨gap, _, rest, hgap, .array hu, by simp, hrest⟩
  | .object members, _, ts, h => by
      have hwords : (Value.object members).words ++ ts =
          .objectOpen :: (membersWords members ++ .objectClose :: ts) := by simp [Value.words]
      rw [hwords] at h
      obtain ⟨gap, inside, hgap, rfl, hinside⟩ := exists_cut_mark (c := '\x7b') (by rfl) h
      obtain ⟨u, rest, hu, rfl, hrest⟩ := exists_membersWrittenAs members hinside
      exact ⟨gap, _, rest, hgap, .object hu, by simp, hrest⟩

theorem exists_itemsWrittenAs : ∀ (items : List Value) {t : Text} {ts : List Token},
    tokens? t = some (itemsWords items ++ .arrayClose :: ts) →
    ∃ u rest, ItemsWrittenAs items u ∧ t = u ++ ']' :: rest ∧ tokens? rest = some ts
  | [], _, _, h => by
      obtain ⟨gap, rest, hgap, rfl, hrest⟩ := exists_cut_mark (c := ']') (by rfl) h
      exact ⟨gap, rest, .none hgap, rfl, hrest⟩
  | [v], _, _, h => by
      obtain ⟨gap, u, behind, hgap, hu, rfl, hbehind⟩ := exists_writtenAs v h
      obtain ⟨gap', rest, hgap', rfl, hrest⟩ := exists_cut_mark (c := ']') (by rfl) hbehind
      exact ⟨_, rest, .last (.mk hgap hu hgap'), by simp, hrest⟩
  | v :: w :: r, _, ts, h => by
      rw [itemsWords, List.append_assoc] at h
      obtain ⟨gap, u, behind, hgap, hu, rfl, hbehind⟩ := exists_writtenAs v h
      obtain ⟨gap', inside, hgap', rfl, hinside⟩ := exists_cut_mark (c := ',') (by rfl) hbehind
      obtain ⟨u', rest, hu', rfl, hrest⟩ := exists_itemsWrittenAs (w :: r) hinside
      exact ⟨_, rest, .more (.mk hgap hu hgap') hu', by simp, hrest⟩

theorem exists_membersWrittenAs : ∀ (members : List (Literal × Value)) {t : Text}
    {ts : List Token}, tokens? t = some (membersWords members ++ .objectClose :: ts) →
    ∃ u rest, MembersWrittenAs members u ∧ t = u ++ '\x7d' :: rest ∧ tokens? rest = some ts
  | [], _, _, h => by
      obtain ⟨gap, rest, hgap, rfl, hrest⟩ := exists_cut_mark (c := '\x7d') (by rfl) h
      exact ⟨gap, rest, .none hgap, rfl, hrest⟩
  | [m], _, _, h => by
      obtain ⟨u, rest, hu, rfl, hrest⟩ := exists_memberWrittenAs m (c := '\x7d') (by rfl) h
      exact ⟨u, rest, .last hu, rfl, hrest⟩
  | m :: m' :: r, _, ts, h => by
      rw [membersWords, List.append_assoc] at h
      obtain ⟨u, inside, hu, rfl, hinside⟩ := exists_memberWrittenAs m (c := ',') (by rfl) h
      obtain ⟨u', rest, hu', rfl, hrest⟩ := exists_membersWrittenAs (m' :: r) hinside
      exact ⟨_, rest, .more hu hu', by simp, hrest⟩

theorem exists_memberWrittenAs : ∀ (m : Literal × Value) {t : Text} {c : Char} {w : Token},
    markOf? c = some w → ∀ {ts : List Token}, tokens? t = some (memberWords m ++ w :: ts) →
    ∃ u rest, MemberWrittenAs m u ∧ t = u ++ c :: rest ∧ tokens? rest = some ts
  | (k, v), _, c, w, hw, ts, h => by
      have hwords : memberWords (k, v) ++ w :: ts =
          .string k :: .colon :: (v.words ++ w :: ts) := by simp [memberWords]
      rw [hwords] at h
      obtain ⟨gap, u, behind, hgap, hu, rfl, hbehind⟩ := exists_cut h
      obtain ⟨key, hkey, rfl⟩ := exists_writtenAs_string hu
      obtain ⟨gap', inside, hgap', rfl, hinside⟩ := exists_cut_mark (c := ':') (by rfl) hbehind
      obtain ⟨before, t, after, hbefore, ht, rfl, hafter⟩ := exists_writtenAs v hinside
      obtain ⟨gap'', rest, hgap'', rfl, hrest⟩ := exists_cut_mark hw hafter
      exact ⟨_, rest, .mk hgap hkey hgap' (.mk hbefore ht hgap''), by simp, hrest⟩

end

/-- **A text is read as a document just if it is one of the ways to write it.** -/
theorem Value.read?_eq_some_iff {t : Text} {v : Value} : read? t = some v ↔ v.PaddedAs t := by
  refine ⟨fun h => ?_, read?_of_paddedAs⟩
  obtain ⟨ts, hts, hdoc⟩ := Option.bind_eq_some_iff.mp h
  obtain rfl := ofTokens?_iff_words.mp hdoc
  have hwords : tokens? t = some (v.words ++ []) := by rw [hts, List.append_nil]
  obtain ⟨gap, u, rest, hgap, hu, rfl, hrest⟩ := exists_writtenAs v hwords
  exact .mk hgap hu (gap_of_tokens?_nil hrest)

end AttributeCss.Json
