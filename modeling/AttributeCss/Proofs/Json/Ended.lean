/-
Where a document ends.

A finished machine reads no word more, so nothing but spaces can stand behind
a document.  A text that starts with a bracket is therefore a document in one
place only: had it been one earlier, the same words would stand at the start
of the whole text, and the machine would have stopped at them.  Only a number
could have read on into what follows, and a number ends a document only where
it is all of it.
-/
import AttributeCss.Proofs.Json.RoundTrip

namespace AttributeCss.Json

namespace State

@[simp] theorem put_ne_value (v : Value) (frames frames' : List Frame) :
    put v frames ≠ value frames' := by
  rcases frames with _ | ⟨_ | _, _⟩ <;> nofun

theorem step_ne_start (st : State) (t : Token) : st.step t ≠ some (value []) := by
  cases st <;> cases t <;> simp [step, startValue]

theorem start_of_run {ts : List Token} {st : State} (h : st.run ts = some (value [])) :
    ts = [] := by
  induction ts generalizing st with
  | nil => rfl
  | cons t ts ih =>
      obtain ⟨st', hstep, hrun⟩ := Option.bind_eq_some_iff.mp h
      obtain rfl := ih hrun
      obtain rfl := Option.some.inj hrun
      exact absurd hstep (step_ne_start st t)

theorem start_of_step_number {st : State} {n : Text} {v : Value}
    (h : st.step (.number n) = some (finished v)) : st = value [] := by
  rcases st with ⟨_ | ⟨_ | _, _⟩⟩ | _ | _ | _ | _ | _ | _ | _
  case value.nil => rfl
  all_goals cases h

theorem run_finished {v : Value} {ts : List Token} {st : State}
    (h : (finished v).run ts = some st) : ts = [] := by
  cases ts with
  | nil => rfl
  | cons => cases h

end State

theorem Value.eq_number_of_getLast? {ts : List Token} {v : Value} {n : Text}
    (h : ofTokens? ts = some v) (hlast : ts.getLast? = some (.number n)) : ts = [.number n] := by
  obtain ⟨ts, rfl⟩ := List.getLast?_eq_some_iff.mp hlast
  rw [ofTokens?_eq_some_iff, State.run_append] at h
  obtain ⟨st, hrun, hnumber⟩ := Option.bind_eq_some_iff.mp h
  obtain ⟨st', hstep, hend⟩ := Option.bind_eq_some_iff.mp hnumber
  obtain rfl := Option.some.inj hend
  obtain rfl := State.start_of_step_number hstep
  rw [State.start_of_run hrun, List.nil_append]

theorem Value.eq_nil_of_ofTokens?_append {ts us : List Token} {v w : Value}
    (hts : ofTokens? ts = some v) (hall : ofTokens? (ts ++ us) = some w) : us = [] := by
  rw [ofTokens?_eq_some_iff] at hts hall
  rw [State.run_append, hts] at hall
  exact State.run_finished hall

theorem ne_number_of_markOf? {c : Char} {t : Token} (h : markOf? c = some t) (n : Text) :
    t ≠ .number n := by
  rintro rfl
  simp only [markOf?] at h
  split_ifs at h <;> cases h

/-- **A document that starts with a bracket ends once:** no text that it goes on with, other than
spaces, can be taken from its end without leaving none. -/
theorem Value.read?_eq_none_of_cut {c : Char} {t : Token} (hc : markOf? c = some t) {r u : Text}
    {v : Value} (hwhole : read? (c :: r ++ u) = some v) (hu : ∃ x ∈ u, Text.isSpace x = false) :
    read? (c :: r) = none := by
  rw [Option.eq_none_iff_forall_ne_some]
  intro w hw
  obtain ⟨ts, hts, hdoc⟩ := Option.bind_eq_some_iff.mp hw
  have hnumber : ∀ n, ts.getLast? = some (.number n) → Text.Stops continuesNumber u := by
    intro n hn
    obtain rfl := eq_number_of_getLast? hdoc hn
    rw [tokens?_mark hc] at hts
    obtain ⟨_, -, hcons⟩ := Option.map_eq_some_iff.mp hts
    exact absurd (List.cons.inj hcons).1 (ne_number_of_markOf? hc n)
  obtain ⟨all, hall, hdoc'⟩ := Option.bind_eq_some_iff.mp hwhole
  rw [tokens?_append hts hnumber] at hall
  obtain ⟨us, hus, rfl⟩ := Option.map_eq_some_iff.mp hall
  obtain rfl := eq_nil_of_ofTokens?_append hdoc hdoc'
  obtain ⟨x, hx, hspace⟩ := hu
  simp [gap_of_tokens?_nil hus x hx] at hspace

end AttributeCss.Json
