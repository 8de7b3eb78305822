/-
The words of a document.

A document has its words in one order (`Value.words`), whatever spaces stand
between them.  The machine puts them together again, and it puts together
nothing else:

    ofTokens? ts = some v  ↔  ts = v.words

Wherever the machine stands, the words that brought it there are known from what
it remembers (`State.readSoFar`), so a finished document has been read word by
word.
-/
import AttributeCss.Json.Reader

namespace AttributeCss.Json

mutual

def Value.words : Value → List Token
  | .null => [.null]
  | .bool b => [.bool b]
  | .number n => [.number n]
  | .string s => [.string s]
  | .array items => .arrayOpen :: itemsWords items ++ [.arrayClose]
  | .object members => .objectOpen :: membersWords members ++ [.objectClose]

def itemsWords : List Value → List Token
  | [] => []
  | [v] => v.words
  | v :: w :: r => v.words ++ .comma :: itemsWords (w :: r)

def membersWords : List (Literal × Value) → List Token
  | [] => []
  | [m] => memberWords m
  | m :: m' :: r => memberWords m ++ .comma :: membersWords (m' :: r)

def memberWords : Literal × Value → List Token
  | (k, v) => .string k :: .colon :: v.words

end

/-! ## The machine puts the words together -/

namespace State

theorem run_firstItem {items : List Value} (h : items ≠ []) (frames : List Frame)
    (ts : List Token) : (firstItem frames).run (itemsWords items ++ ts) =
      (value (.items [] :: frames)).run (itemsWords items ++ ts) := by
  obtain ⟨v, r, rfl⟩ := List.exists_cons_of_ne_nil h
  cases r <;> cases v <;> rfl

theorem run_firstKey {members : List (Literal × Value)} (h : members ≠ []) (frames : List Frame)
    (ts : List Token) : (firstKey frames).run (membersWords members ++ ts) =
      (key [] frames).run (membersWords members ++ ts) := by
  obtain ⟨⟨k, v⟩, r, rfl⟩ := List.exists_cons_of_ne_nil h
  cases r <;> rfl

mutual

theorem run_words : ∀ (v : Value) (frames : List Frame) (ts : List Token),
    (value frames).run (v.words ++ ts) = (put v frames).run ts
  | .null, _, _ => rfl
  | .bool _, _, _ => rfl
  | .number _, _, _ => rfl
  | .string _, _, _ => rfl
  | .array items, frames, ts => by
      by_cases hitems : items = []
      · subst hitems
        rfl
      · show (firstItem frames).run (itemsWords items ++ [.arrayClose] ++ ts) = _
        rw [List.append_assoc, run_firstItem hitems, run_itemsWords items hitems]
        rfl
  | .object members, frames, ts => by
      by_cases hmembers : members = []
      · subst hmembers
        rfl
      · show (firstKey frames).run (membersWords members ++ [.objectClose] ++ ts) = _
        rw [List.append_assoc, run_firstKey hmembers, run_membersWords members hmembers]
        rfl

theorem run_itemsWords : ∀ (items : List Value), items ≠ [] → ∀ (done : List Value)
    (frames : List Frame) (ts : List Token),
    (value (.items done :: frames)).run (itemsWords items ++ ts) =
      (afterItem (done ++ items) frames).run ts
  | [], h, _, _, _ => absurd rfl h
  | [v], _, done, frames, ts => run_words v (.items done :: frames) ts
  | v :: w :: r, _, done, frames, ts => by
      rw [itemsWords, List.append_assoc, run_words]
      show (value (.items (done ++ [v]) :: frames)).run (itemsWords (w :: r) ++ ts) = _
      rw [run_itemsWords (w :: r) (List.cons_ne_nil w r), List.append_assoc]
      rfl

theorem run_membersWords : ∀ (members : List (Literal × Value)), members ≠ [] →
    ∀ (done : List (Literal × Value)) (frames : List Frame) (ts : List Token),
    (key done frames).run (membersWords members ++ ts) =
      (afterMember (done ++ members) frames).run ts
  | [], h, _, _, _ => absurd rfl h
  | [m], _, done, frames, ts => run_memberWords m done frames ts
  | m :: m' :: r, _, done, frames, ts => by
      rw [membersWords, List.append_assoc, run_memberWords]
      show (key (done ++ [m]) frames).run (membersWords (m' :: r) ++ ts) = _
      rw [run_membersWords (m' :: r) (List.cons_ne_nil m' r), List.append_assoc]
      rfl

theorem run_memberWords : ∀ (m : Literal × Value) (done : List (Literal × Value))
    (frames : List Frame) (ts : List Token),
    (key done frames).run (memberWords m ++ ts) = (afterMember (done ++ [m]) frames).run ts
  | (k, v), done, frames, ts => run_words v (.members done k :: frames) ts

end

end State

theorem Value.ofTokens?_words (v : Value) : ofTokens? v.words = some v := by
  have hrun := State.run_words v [] []
  rw [List.append_nil] at hrun
  rw [ofTokens?, hrun]
  rfl

/-! ## Nothing else is put together -/

/-- The words of items with a comma behind each. -/
def itemsDone (items : List Value) : List Token := items.flatMap fun v => v.words ++ [.comma]

def membersDone (members : List (Literal × Value)) : List Token :=
  members.flatMap fun m => memberWords m ++ [.comma]

theorem itemsWords_concat (items : List Value) (v : Value) :
    itemsWords (items ++ [v]) = itemsDone items ++ v.words := by
  induction items with
  | nil => rfl
  | cons w r ih =>
      obtain ⟨u, us, hu⟩ : ∃ u us, r ++ [v] = u :: us :=
        List.exists_cons_of_ne_nil (List.append_ne_nil_of_right_ne_nil r (List.cons_ne_nil v []))
      rw [List.cons_append, hu, itemsWords, ← hu, ih]
      simp [itemsDone]

theorem membersWords_concat (members : List (Literal × Value)) (m : Literal × Value) :
    membersWords (members ++ [m]) = membersDone members ++ memberWords m := by
  induction members with
  | nil => rfl
  | cons w r ih =>
      obtain ⟨u, us, hu⟩ : ∃ u us, r ++ [m] = u :: us :=
        List.exists_cons_of_ne_nil (List.append_ne_nil_of_right_ne_nil r (List.cons_ne_nil m []))
      rw [List.cons_append, hu, membersWords, ← hu, ih]
      simp [membersDone]

theorem itemsWords_comma {items : List Value} (h : items ≠ []) :
    itemsWords items ++ [.comma] = itemsDone items := by
  obtain ⟨r, v, rfl⟩ := (List.eq_nil_or_concat items).resolve_left h
  simp [itemsWords_concat, itemsDone]

theorem membersWords_comma {members : List (Literal × Value)} (h : members ≠ []) :
    membersWords members ++ [.comma] = membersDone members := by
  obtain ⟨r, m, rfl⟩ := (List.eq_nil_or_concat members).resolve_left h
  simp [membersWords_concat, membersDone]

/-- The words of an open array or object up to the value it waits for. -/
def Frame.words : Frame → List Token
  | items done => .arrayOpen :: itemsDone done
  | members done k => .objectOpen :: (membersDone done ++ [.string k, .colon])

/-- The words of open arrays and objects, the innermost last. -/
def framesWords : List Frame → List Token
  | [] => []
  | f :: frames => framesWords frames ++ f.words

namespace State

/-- The words that bring the machine where it stands. -/
def readSoFar : State → List Token
  | value frames => framesWords frames
  | firstItem frames => framesWords frames ++ [.arrayOpen]
  | afterItem done frames => framesWords frames ++ .arrayOpen :: itemsWords done
  | firstKey frames => framesWords frames ++ [.objectOpen]
  | key done frames => framesWords frames ++ .objectOpen :: membersDone done
  | colon done k frames => framesWords frames ++ .objectOpen :: (membersDone done ++ [.string k])
  | afterMember done frames => framesWords frames ++ .objectOpen :: membersWords done
  | finished v => v.words

/-- Where a comma may follow, something stands in front of it. -/
def Begun : State → Prop
  | afterItem done _ => done ≠ []
  | afterMember done _ => done ≠ []
  | _ => True

theorem readSoFar_put (v : Value) (frames : List Frame) :
    (put v frames).readSoFar = framesWords frames ++ v.words ∧ (put v frames).Begun := by
  rcases frames with _ | ⟨done | ⟨done, k⟩, frames⟩
  · exact ⟨rfl, trivial⟩
  · exact ⟨by simp [put, readSoFar, framesWords, Frame.words, itemsWords_concat],
      List.append_ne_nil_of_right_ne_nil done (List.cons_ne_nil v [])⟩
  · exact ⟨by simp [put, readSoFar, framesWords, Frame.words, membersWords_concat, memberWords],
      List.append_ne_nil_of_right_ne_nil done (List.cons_ne_nil (k, v) [])⟩

theorem readSoFar_startValue (frames : List Frame) {t : Token} {st : State}
    (h : startValue frames t = some st) :
    st.readSoFar = framesWords frames ++ [t] ∧ st.Begun := by
  cases t with
  | null | bool _ | number _ | string _ =>
      obtain rfl := Option.some.inj h
      exact readSoFar_put _ frames
  | arrayOpen | objectOpen =>
      obtain rfl := Option.some.inj h
      exact ⟨rfl, trivial⟩
  | arrayClose | objectClose | comma | colon => cases h

theorem readSoFar_step {st st' : State} {t : Token} (hst : st.Begun) (h : st.step t = some st') :
    st'.readSoFar = st.readSoFar ++ [t] ∧ st'.Begun := by
  cases st with
  | value frames => exact readSoFar_startValue _ h
  | firstItem frames =>
      cases t with
      | arrayClose =>
          obtain rfl := Option.some.inj h
          obtain ⟨hread, hbegun⟩ := readSoFar_put (.array []) frames
          exact ⟨by rw [hread]; simp [readSoFar, Value.words, itemsWords], hbegun⟩
      | _ => exact readSoFar_startValue (.items [] :: frames) h
  | afterItem done frames =>
      cases t with
      | comma =>
          obtain rfl := Option.some.inj h
          exact ⟨by simp [readSoFar, framesWords, Frame.words, ← itemsWords_comma hst], trivial⟩
      | arrayClose =>
          obtain rfl := Option.some.inj h
          obtain ⟨hread, hbegun⟩ := readSoFar_put (.array done) frames
          exact ⟨by rw [hread]; simp [readSoFar, Value.words], hbegun⟩
      | _ => cases h
  | firstKey frames =>
      cases t with
      | objectClose =>
          obtain rfl := Option.some.inj h
          obtain ⟨hread, hbegun⟩ := readSoFar_put (.object []) frames
          exact ⟨by rw [hread]; simp [readSoFar, Value.words, membersWords], hbegun⟩
      | string s =>
          obtain rfl := Option.some.inj h
          exact ⟨by simp [readSoFar, membersDone], trivial⟩
      | _ => cases h
  | key done frames =>
      cases t with
      | string s =>
          obtain rfl := Option.some.inj h
          exact ⟨by simp [readSoFar], trivial⟩
      | _ => cases h
  | colon done k frames =>
      cases t with
      | colon =>
          obtain rfl := Option.some.inj h
          exact ⟨by simp [readSoFar, framesWords, Frame.words], trivial⟩
      | _ => cases h
  | afterMember done frames =>
      cases t with
      | comma =>
          obtain rfl := Option.some.inj h
          exact ⟨by simp [readSoFar, ← membersWords_comma hst], trivial⟩
      | objectClose =>
          obtain rfl := Option.some.inj h
          obtain ⟨hread, hbegun⟩ := readSoFar_put (.object done) frames
          exact ⟨by rw [hread]; simp [readSoFar, Value.words], hbegun⟩
      | _ => cases h
  | finished v => cases h

theorem readSoFar_run {ts : List Token} {st st' : State} (hst : st.Begun)
    (h : st.run ts = some st') : st'.readSoFar = st.readSoFar ++ ts := by
  induction ts generalizing st with
  | nil =>
      obtain rfl := Option.some.inj h
      exact (List.append_nil _).symm
  | cons t ts ih =>
      obtain ⟨next, hstep, hrun⟩ := Option.bind_eq_some_iff.mp h
      obtain ⟨hread, hbegun⟩ := readSoFar_step hst hstep
      rw [ih hbegun hrun, hread, List.append_assoc, List.singleton_append]

end State

theorem finished_of_result? {st : State} {v : Value} (h : st.result? = some v) :
    st = .finished v := by
  cases st <;> cases h
  rfl

theorem Value.ofTokens?_eq_some_iff {ts : List Token} {v : Value} :
    ofTokens? ts = some v ↔ (State.value []).run ts = some (.finished v) := by
  refine ⟨fun h => ?_, fun h => by rw [ofTokens?, h]; rfl⟩
  obtain ⟨st, hrun, hresult⟩ := Option.bind_eq_some_iff.mp h
  rw [hrun, finished_of_result? hresult]

/-- **A document is put together from its own words only.** -/
theorem Value.ofTokens?_iff_words {ts : List Token} {v : Value} :
    ofTokens? ts = some v ↔ ts = v.words := by
  constructor
  · intro h
    have hbegun : (State.value []).Begun := trivial
    have hread := State.readSoFar_run hbegun (ofTokens?_eq_some_iff.mp h)
    exact hread.symm
  · rintro rfl
    exact ofTokens?_words v

end AttributeCss.Json
