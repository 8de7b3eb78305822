/-
The words of a JSON text with more text behind it.

Every word ends where it must: at a mark, at a closing quotation mark, at the
last letter of a name.  Only a number goes on for as long as it can.  So what
is put behind a text does not change its words (`tokens?_append`), unless it
goes on with a number in which the text ends.
-/
import AttributeCss.Json.Reader
import AttributeCss.Proofs.Text.Runs

namespace AttributeCss.Json

open Text (Stops)

/-! ## Numbers -/

/-- A character with which a number may go on. -/
def continuesNumber (c : Char) : Bool := c.isDigit || c = '.' || c = 'e' || c = 'E'

theorem readDigits?_eq_some_iff {s a b : Text} : readDigits? s = some (a, b) ↔
    s = a ++ b ∧ a ≠ [] ∧ (∀ c ∈ a, c.isDigit = true) ∧ Stops Char.isDigit b := by
  constructor
  · intro h
    obtain ⟨hs, hne⟩ := eq_of_readDigits? h
    simp only [readDigits?] at h
    split at h
    · simp at h
    · obtain ⟨rfl, rfl⟩ := Prod.mk.inj (Option.some.inj h)
      exact ⟨hs, hne, fun c hc => List.mem_takeWhile_imp hc, Text.stops_dropWhile s⟩
  · rintro ⟨rfl, hne, ha, hb⟩
    have htake : (a ++ b).takeWhile Char.isDigit = a := Text.takeWhile_append_stops ha hb
    have hdrop : (a ++ b).dropWhile Char.isDigit = b := Text.dropWhile_append_stops ha hb
    simp [readDigits?, htake, hdrop, hne]

theorem readDigits?_append {s a b u : Text} (h : readDigits? s = some (a, b))
    (hu : b = [] → Stops Char.isDigit u) : readDigits? (s ++ u) = some (a, b ++ u) := by
  obtain ⟨rfl, hne, ha, hb⟩ := readDigits?_eq_some_iff.mp h
  exact readDigits?_eq_some_iff.mpr
    ⟨List.append_assoc a b u, hne, ha, Text.stops_append hb hu⟩

theorem readWhole?_cons_of_ne {c : Char} (hc : c ≠ '0') (r : Text) :
    readWhole? (c :: r) = readDigits? (c :: r) := by
  simp [readWhole?, hc]

theorem readWhole?_append {s a b u : Text} (h : readWhole? s = some (a, b))
    (hu : b = [] → Stops Char.isDigit u) : readWhole? (s ++ u) = some (a, b ++ u) := by
  cases s with
  | nil => cases h
  | cons c r =>
      by_cases hc : c = '0'
      · subst hc
        obtain ⟨rfl, rfl⟩ := Prod.mk.inj (Option.some.inj h)
        rfl
      · rw [readWhole?_cons_of_ne hc] at h
        rw [List.cons_append, readWhole?_cons_of_ne hc]
        exact readDigits?_append h hu

theorem readFraction?_of_stops {s : Text} (h : Stops (· == '.') s) :
    readFraction? s = some ([], s) := by
  cases s with
  | nil => rfl
  | cons c r =>
      have hc : c ≠ '.' := by simpa using h c rfl
      simp [readFraction?, hc]

theorem readFraction?_append {s a b u : Text} (h : readFraction? s = some (a, b))
    (hu : b = [] → Stops continuesNumber u) : readFraction? (s ++ u) = some (a, b ++ u) := by
  by_cases hpoint : Stops (· == '.') s
  · rw [readFraction?_of_stops hpoint] at h
    obtain ⟨rfl, rfl⟩ := Prod.mk.inj (Option.some.inj h)
    apply readFraction?_of_stops
    refine Text.stops_append hpoint fun hs => Text.stops_of_imp (fun c hc => ?_) (hu hs)
    simp_all [continuesNumber]
  · obtain ⟨r, rfl⟩ : ∃ r, s = '.' :: r := by
      cases s with
      | nil => exact absurd nofun hpoint
      | cons c r =>
          refine ⟨r, ?_⟩
          by_contra hc
          exact hpoint (Text.stops_cons r (by simpa using hc))
    obtain ⟨⟨digits, rest⟩, hdigits, hab⟩ := Option.map_eq_some_iff.mp h
    obtain ⟨rfl, rfl⟩ := Prod.mk.inj hab
    have hmore := readDigits?_append hdigits
      fun hb => Text.stops_of_imp (fun c hc => by simp [continuesNumber, hc]) (hu hb)
    show (readDigits? (r ++ u)).map _ = _
    rw [hmore]
    rfl

theorem readSign_append_of_ne_nil {s : Text} (hs : s ≠ []) (u : Text) :
    readSign (s ++ u) = ((readSign s).1, (readSign s).2 ++ u) := by
  obtain ⟨c, r, rfl⟩ := List.exists_cons_of_ne_nil hs
  by_cases hplus : c = '+'
  · subst hplus
    rfl
  · by_cases hminus : c = '-'
    · subst hminus
      rfl
    · simp [readSign, hplus, hminus]

theorem readExponent?_append {s a b u : Text} (h : readExponent? s = some (a, b))
    (hu : b = [] → Stops continuesNumber u) : readExponent? (s ++ u) = some (a, b ++ u) := by
  cases s with
  | nil =>
      obtain ⟨rfl, rfl⟩ := Prod.mk.inj (Option.some.inj h)
      cases u with
      | nil => rfl
      | cons c r =>
          have hc : continuesNumber c = false := hu rfl c rfl
          simp only [continuesNumber, Bool.or_eq_false_iff, decide_eq_false_iff_not] at hc
          simp [readExponent?, hc]
  | cons c r =>
      simp only [readExponent?, List.cons_append] at h ⊢
      split at h
      · next hc =>
          obtain ⟨⟨digits, rest⟩, hdigits, hab⟩ := Option.map_eq_some_iff.mp h
          obtain ⟨rfl, rfl⟩ := Prod.mk.inj hab
          have hr : r ≠ [] := by
            rintro rfl
            cases hdigits
          have hmore := readDigits?_append hdigits
            fun hb => Text.stops_of_imp (fun c hc => by simp [continuesNumber, hc]) (hu hb)
          rw [if_pos hc, readSign_append_of_ne_nil hr, hmore]
          rfl
      · next hc =>
          obtain ⟨rfl, rfl⟩ := Prod.mk.inj (Option.some.inj h)
          rw [if_neg hc]
          rfl

theorem readMinus_append_of_ne_nil {s : Text} (hs : s ≠ []) (u : Text) :
    readMinus (s ++ u) = ((readMinus s).1, (readMinus s).2 ++ u) := by
  obtain ⟨c, r, rfl⟩ := List.exists_cons_of_ne_nil hs
  by_cases hminus : c = '-'
  · subst hminus
    rfl
  · simp [readMinus, hminus]

/-- A number with more behind it is read as before, if it did not end the text or cannot go on. -/
theorem readNumber?_append {s n rest u : Text} (h : readNumber? s = some (n, rest))
    (hu : rest = [] → Stops continuesNumber u) : readNumber? (s ++ u) = some (n, rest ++ u) := by
  have hs : s ≠ [] := by
    rintro rfl
    cases h
  simp only [readNumber?, bind, Option.bind_eq_some_iff, pure, Option.some.injEq,
    Prod.mk.injEq] at h
  obtain ⟨⟨whole, afterWhole⟩, hwhole, ⟨fraction, afterFraction⟩, hfraction,
    ⟨exponent, rest'⟩, hexponent, rfl, rfl⟩ := h
  have hexponent_eq := eq_of_readExponent? hexponent
  have hfraction_eq := eq_of_readFraction? hfraction
  dsimp only at hexponent_eq hfraction_eq
  -- what ends the text after one part ends it after all that follow
  have hafterFraction : afterFraction = [] → Stops continuesNumber u := by
    rintro rfl
    exact hu (List.append_eq_nil_iff.mp hexponent_eq.symm).2
  have hafterWhole : afterWhole = [] → Stops Char.isDigit u := by
    rintro rfl
    exact Text.stops_of_imp (fun c hc => by simp [continuesNumber, hc])
      (hafterFraction (List.append_eq_nil_iff.mp hfraction_eq.symm).2)
  have hwhole' := readWhole?_append hwhole hafterWhole
  have hfraction' := readFraction?_append hfraction hafterFraction
  have hexponent' := readExponent?_append hexponent hu
  simp only [readNumber?, readMinus_append_of_ne_nil hs, hwhole', hfraction', hexponent', bind,
    Option.bind_some, pure]

/-! ## Strings and names -/

theorem readString?_quote (r : Text) : readString? (Text.quoteMark :: r) = some ([], r) := by
  rw [readString?.eq_def]
  exact if_pos rfl

theorem readString?_code {a b c d : Char} {n : Nat} (h : hexCode? a b c d = some n) (r : Text) :
    readString? (Text.backslash :: 'u' :: a :: b :: c :: d :: r) =
      consUnit (.code n) (readString? r) := by
  have hne : Text.backslash ≠ Text.quoteMark := by decide
  rw [readString?.eq_def]
  simp only [if_neg hne, if_pos, h]

theorem readString?_short {e c : Char} (h : shortEscape? e = some c) (r : Text) :
    readString? (Text.backslash :: e :: r) = consUnit (.char c) (readString? r) := by
  have hne : Text.backslash ≠ Text.quoteMark := by decide
  have he : e ≠ 'u' := by
    rintro rfl
    cases h
  rw [readString?.eq_def]
  simp only [if_neg hne, if_pos]
  split
  · next heq => exact absurd (List.cons.inj heq).1 he
  · next e' r' _ heq =>
      obtain ⟨rfl, rfl⟩ := List.cons.inj heq
      rw [h]
  · next heq => cases heq

theorem readString?_plain {c : Char} (hquote : c ≠ Text.quoteMark) (hback : c ≠ Text.backslash)
    (hcontrol : ¬ c.toNat < 32) (r : Text) :
    readString? (c :: r) = consUnit (.char c) (readString? r) := by
  rw [readString?.eq_def]
  simp only [if_neg hquote, if_neg hback, if_neg hcontrol]

theorem eq_of_consUnit {x : StringUnit} {read : Option (Literal × Text)} {l : Literal} {rest : Text}
    (h : consUnit x read = some (l, rest)) : ∃ l', read = some (l', rest) ∧ l = x :: l' := by
  obtain ⟨⟨l', rest'⟩, hread, heq⟩ := Option.map_eq_some_iff.mp h
  obtain ⟨rfl, rfl⟩ := Prod.mk.inj heq
  exact ⟨l', hread, rfl⟩

theorem readString?_append {s : Text} {l : Literal} {rest : Text}
    (h : readString? s = some (l, rest)) (u : Text) :
    readString? (s ++ u) = some (l, rest ++ u) := by
  fun_induction readString? s generalizing l with
  | case1 => cases h
  | case2 r =>
      obtain ⟨rfl, rfl⟩ := Prod.mk.inj (Option.some.inj h)
      exact readString?_quote (r ++ u)
  | case3 a b c d r n hcode _ ih =>
      obtain ⟨l', hread, rfl⟩ := eq_of_consUnit h
      show readString? (Text.backslash :: 'u' :: a :: b :: c :: d :: (r ++ u)) = _
      rw [readString?_code hcode, ih hread]
      rfl
  | case4 | case6 | case7 | case8 => cases h
  | case5 e r _ c hescape _ ih =>
      obtain ⟨l', hread, rfl⟩ := eq_of_consUnit h
      show readString? (Text.backslash :: e :: (r ++ u)) = _
      rw [readString?_short hescape, ih hread]
      rfl
  | case9 c r hquote hback hcontrol ih =>
      obtain ⟨l', hread, rfl⟩ := eq_of_consUnit h
      rw [List.cons_append, readString?_plain hquote hback hcontrol, ih hread]
      rfl

theorem behind?_append_of_some {lead s r : Text} (h : Text.behind? lead s = some r) (u : Text) :
    Text.behind? lead (s ++ u) = some (r ++ u) := by
  rw [Text.eq_of_behind? h, List.append_assoc]
  exact Text.behind?_append lead (r ++ u)

theorem readName?_append {s rest : Text} {t : Token} (h : readName? s = some (t, rest)) (u : Text) :
    readName? (s ++ u) = some (t, rest ++ u) := by
  unfold readName? at h
  split at h
  · next r hnull =>
      obtain ⟨rfl, rfl⟩ := Prod.mk.inj (Option.some.inj h)
      simp only [readName?, behind?_append_of_some hnull]
  · split at h
    · next r htrue =>
        obtain ⟨rfl, rfl⟩ := Prod.mk.inj (Option.some.inj h)
        rw [Text.eq_of_behind? htrue]
        rfl
    · obtain ⟨r, hfalse, heq⟩ := Option.map_eq_some_iff.mp h
      obtain ⟨rfl, rfl⟩ := Prod.mk.inj heq
      rw [Text.eq_of_behind? hfalse]
      rfl

/-! ## Words -/

theorem readToken?_append {s rest u : Text} {t : Token} (h : readToken? s = some (t, rest))
    (hu : ∀ n, t = .number n → rest = [] → Stops continuesNumber u) :
    readToken? (s ++ u) = some (t, rest ++ u) := by
  cases s with
  | nil => cases h
  | cons c r =>
      simp only [readToken?, List.cons_append] at h ⊢
      cases hmark : markOf? c with
      | some mark =>
          rw [hmark] at h
          obtain ⟨rfl, rfl⟩ := Prod.mk.inj (Option.some.inj h)
          rfl
      | none =>
          rw [hmark] at h
          dsimp only at h ⊢
          split at h
          · next hquote =>
              obtain ⟨⟨l, rest'⟩, hstring, heq⟩ := Option.map_eq_some_iff.mp h
              obtain ⟨rfl, rfl⟩ := Prod.mk.inj heq
              rw [if_pos hquote, readString?_append hstring]
              rfl
          · next hquote =>
              rw [if_neg hquote]
              split at h
              · next halpha =>
                  rw [if_pos halpha]
                  exact readName?_append h u
              · next halpha =>
                  obtain ⟨⟨n, rest'⟩, hnumber, heq⟩ := Option.map_eq_some_iff.mp h
                  obtain ⟨rfl, rfl⟩ := Prod.mk.inj heq
                  have hmore := readNumber?_append hnumber (hu n rfl)
                  rw [List.cons_append] at hmore
                  rw [if_neg halpha, hmore]
                  rfl

theorem tokens?_space {c : Char} (hc : Text.isSpace c = true) (r : Text) :
    tokens? (c :: r) = tokens? r := by
  rw [tokens?, if_pos hc]

theorem tokens?_token {c : Char} (hc : Text.isSpace c = false) {r rest : Text} {t : Token}
    (h : readToken? (c :: r) = some (t, rest)) :
    tokens? (c :: r) = (tokens? rest).map (t :: ·) := by
  rw [tokens?, if_neg (by simp [hc])]
  split
  · next hnone => simp [h] at hnone
  · next t' rest' hsome =>
      obtain ⟨rfl, rfl⟩ := Prod.mk.inj (Option.some.inj (h.symm.trans hsome))
      rfl

/-- What is put behind a text does not change its words, unless the text ends in a number that it
goes on with. -/
theorem tokens?_append {s u : Text} {ts : List Token} (h : tokens? s = some ts)
    (hu : ∀ n, ts.getLast? = some (.number n) → Stops continuesNumber u) :
    tokens? (s ++ u) = (tokens? u).map (ts ++ ·) := by
  fun_induction tokens? s generalizing ts with
  | case1 =>
      obtain rfl := Option.some.inj h
      simp
  | case2 c r hc ih =>
      rw [List.cons_append, tokens?_space hc]
      exact ih h hu
  | case3 => cases h
  | case4 c r hc t rest hread hlt ih =>
      obtain ⟨ts', hrest, rfl⟩ := Option.map_eq_some_iff.mp h
      have hmore : readToken? (c :: r ++ u) = some (t, rest ++ u) := by
        refine readToken?_append hread ?_
        rintro n rfl rfl
        -- the number is the last word, since nothing is left behind it
        rw [tokens?] at hrest
        obtain rfl := Option.some.inj hrest
        exact hu n rfl
      have hlast : ∀ n, ts'.getLast? = some (.number n) → Stops continuesNumber u := by
        intro n hn
        refine hu n ?_
        rw [List.getLast?_cons, hn]
        rfl
      rw [List.cons_append] at hmore ⊢
      rw [tokens?_token (by simpa using hc) hmore, ih hrest hlast, Option.map_map]
      rfl

end AttributeCss.Json
