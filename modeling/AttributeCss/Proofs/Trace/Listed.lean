/-
What is read of a list of sinks.

A list of names is a text of pieces between commas, each a name with blanks
around it (`ListedAs`).  Every text is the list of some names and of no others,
and reading it depends on nothing but these names.  Either all of them are
names of sinks or there is a first that is not, and what stands behind that one
is not looked at.

There is a name in every list, an empty one in the empty text.  So no list
names no sinks, and a variable that names none is one that was not read as a
list.
-/
import Mathlib.Data.List.Forall2
import AttributeCss.Proofs.Lists
import AttributeCss.Proofs.Text.Trimmed
import AttributeCss.Proofs.Text.Words
import AttributeCss.Trace.Sink

namespace AttributeCss.Trace.Sink

/-! ## The names in a list -/

/-- The text is a list of the names. -/
def ListedAs (t : Text) (ns : List Text) : Prop :=
  ∃ pieces : List Text, pieces ≠ [] ∧ (∀ p ∈ pieces, ',' ∉ p) ∧ [','].intercalate pieces = t ∧
    List.Forall₂ Text.Trimmed pieces ns

theorem names_intercalate {pieces : List Text} (hne : pieces ≠ []) (h : ∀ p ∈ pieces, ',' ∉ p) :
    names ([','].intercalate pieces) = pieces.map Text.trim := by
  rw [names, List.splitOn_intercalate ',' h hne]

theorem names_append_comma (t r : Text) : names (t ++ ',' :: r) = names t ++ names r := by
  rw [names, List.splitOn_append_cons_self, List.map_append, names, names]

theorem names_ne_nil (t : Text) : names t ≠ [] := by
  rw [names, ne_eq, List.map_eq_nil_iff]
  exact List.splitOn_ne_nil _ _

theorem forall₂_trimmed_iff {pieces ns : List Text} :
    List.Forall₂ Text.Trimmed pieces ns ↔ pieces.map Text.trim = ns := by
  have htrimmed : Text.Trimmed = fun t n => Text.trim t = n :=
    funext fun t => funext fun n => propext Text.trimmed_iff
  rw [htrimmed, ← List.forall₂_map_left_iff, List.forall₂_eq_eq_eq]

theorem listedAs_iff {t : Text} {ns : List Text} : ListedAs t ns ↔ ns = names t := by
  constructor
  · rintro ⟨pieces, hne, hcommas, rfl, hnames⟩
    rw [names_intercalate hne hcommas, forall₂_trimmed_iff.mp hnames]
  · rintro rfl
    exact ⟨t.splitOn ',', List.splitOn_ne_nil _ _, fun p hp => Text.notMem_of_mem_splitOn hp,
      List.intercalate_splitOn ',', forall₂_trimmed_iff.mpr rfl⟩

/-! ## Lists of sinks, written -/

/-- A sink as it may stand in a list, with blanks around its name. -/
structure Item where
  before : Text
  sink : Sink
  after : Text
  blankBefore : Text.allBlank before = true
  blankAfter : Text.allBlank after = true

def Item.text (i : Item) : Text := i.before ++ i.sink.name ++ i.after

/-- The items with commas between them. -/
def written (items : List Item) : Text := [','].intercalate (items.map Item.text)

theorem trim_name (s : Sink) : Text.trim s.name = s.name := by
  cases s <;> decide

theorem Item.trim_text (i : Item) : Text.trim i.text = i.sink.name :=
  (Text.trim_surrounded i.blankBefore i.blankAfter _).trans (trim_name i.sink)

theorem Item.comma_notMem_text (i : Item) : ',' ∉ i.text := by
  have hblank : ∀ {b : Text}, Text.allBlank b = true → ',' ∉ b := by
    intro b hb hcomma
    exact absurd (List.all_eq_true.mp hb ',' hcomma) (by decide)
  have hname : ',' ∉ i.sink.name := by
    cases i.sink <;> decide
  simp only [text, List.mem_append, not_or]
  exact ⟨⟨hblank i.blankBefore, hname⟩, hblank i.blankAfter⟩

theorem names_written {items : List Item} (hne : items ≠ []) :
    names (written items) = (items.map Item.sink).map name := by
  have hcommas : ∀ p ∈ items.map Item.text, ',' ∉ p :=
    List.forall_mem_map.mpr fun i _ => i.comma_notMem_text
  rw [written, names_intercalate (by simpa using hne) hcommas, List.map_map, List.map_map]
  exact List.map_congr_left fun i _ => i.trim_text

/-! ## Reading the names -/

def Known (n : Text) : Prop := n = "stdout".toList ∨ n = "file".toList

/-- `n` is the first of the names that no sink has. -/
def FirstStray (ns : List Text) (n : Text) : Prop :=
  ∃ before after, ns = before ++ n :: after ∧ (∀ m ∈ before, Known m) ∧ ¬ Known n

/-- The sinks are those that the names mention, each once, in the order in which they are first
mentioned. -/
structure FirstMentions (ns : List Text) (sinks : List Sink) : Prop where
  mem_iff : ∀ s, s ∈ sinks ↔ s.name ∈ ns
  ordered : sinks.Pairwise fun s s' => ns.idxOf s.name < ns.idxOf s'.name

theorem known_iff {n : Text} : Known n ↔ ∃ s : Sink, s.name = n := by
  constructor
  · rintro (rfl | rfl)
    · exact ⟨stdout, rfl⟩
    · exact ⟨file, rfl⟩
  · rintro ⟨s, rfl⟩
    cases s with
    | stdout => exact Or.inl rfl
    | file => exact Or.inr rfl

theorem ofName_name (s : Sink) : ofName s.name = .ok s := by
  cases s <;> rfl

theorem name_injective : Function.Injective name := by
  intro s s' h
  have hread := congrArg ofName h
  rw [ofName_name, ofName_name] at hread
  exact Except.ok.inj hread

theorem ofName_of_not_known {n : Text} (h : ¬ Known n) : ofName n = .error ⟨n⟩ := by
  obtain ⟨hstdout, hfile⟩ := not_or.mp h
  have hnone : ofName? n = none := (if_neg hstdout).trans (if_neg hfile)
  rw [ofName, hnone]

theorem exists_map_name {ns : List Text} (h : ∀ n ∈ ns, Known n) :
    ∃ sinks : List Sink, ns = sinks.map name := by
  induction ns with
  | nil => exact ⟨[], rfl⟩
  | cons n ns ih =>
      obtain ⟨hn, hns⟩ := List.forall_mem_cons.mp h
      obtain ⟨s, rfl⟩ := known_iff.mp hn
      obtain ⟨sinks, rfl⟩ := ih hns
      exact ⟨s :: sinks, rfl⟩

theorem known_or_firstStray (ns : List Text) : (∀ n ∈ ns, Known n) ∨ ∃ n, FirstStray ns n := by
  induction ns with
  | nil => exact Or.inl (List.forall_mem_nil _)
  | cons n ns ih =>
      by_cases hn : Known n
      · rcases ih with hall | ⟨m, before, after, rfl, hbefore, hm⟩
        · exact Or.inl (List.forall_mem_cons.mpr ⟨hn, hall⟩)
        · exact Or.inr ⟨m, n :: before, after, rfl, List.forall_mem_cons.mpr ⟨hn, hbefore⟩, hm⟩
      · exact Or.inr ⟨n, [], ns, rfl, List.forall_mem_nil _, hn⟩

theorem ofNames_append (sinks : List Sink) (ns : List Text) :
    ofNames (sinks.map name ++ ns) = (ofNames ns).map (sinks ++ ·) := by
  induction sinks with
  | nil => cases h : ofNames ns <;> simp [h, Except.map]
  | cons s sinks ih =>
      rw [List.map_cons, List.cons_append, ofNames, ofName_name, ih]
      cases ofNames ns <;> rfl

theorem firstMentions_eraseDups (sinks : List Sink) :
    FirstMentions (sinks.map name) sinks.eraseDups where
  mem_iff s := by rw [List.mem_eraseDups, List.mem_map_of_injective name_injective]
  ordered := by
    have hordered := pairwise_idxOf_eraseDups (sinks.map name)
    rw [eraseDups_map_of_injective name_injective, List.pairwise_map] at hordered
    exact hordered

/-! ## Reading a list -/

variable {t : Text}

theorem parseList_of_sinks {sinks : List Sink} (h : names t = sinks.map name) :
    parseList t = .ok sinks.eraseDups := by
  rw [parseList, h, ← List.append_nil (sinks.map name), ofNames_append]
  simp [ofNames, Except.map]

theorem parseList_of_firstStray {n : Text} (h : FirstStray (names t) n) :
    parseList t = .error ⟨n⟩ := by
  obtain ⟨before, after, hnames, hbefore, hn⟩ := h
  obtain ⟨sinks, rfl⟩ := exists_map_name hbefore
  rw [parseList, hnames, ofNames_append, ofNames, ofName_of_not_known hn]
  rfl

theorem exists_parseList_iff :
    (∃ sinks, parseList t = .ok sinks) ↔ ∀ n ∈ names t, Known n := by
  constructor
  · rintro ⟨sinks, hsinks⟩
    rcases known_or_firstStray (names t) with hall | ⟨n, hstray⟩
    · exact hall
    · rw [parseList_of_firstStray hstray] at hsinks
      cases hsinks
  · intro hall
    obtain ⟨sinks, hnames⟩ := exists_map_name hall
    exact ⟨_, parseList_of_sinks hnames⟩

theorem firstMentions_of_parseList {sinks : List Sink} (h : parseList t = .ok sinks) :
    FirstMentions (names t) sinks := by
  obtain ⟨mentioned, hnames⟩ := exists_map_name (exists_parseList_iff.mp ⟨sinks, h⟩)
  rw [parseList_of_sinks hnames] at h
  rw [hnames, ← Except.ok.inj h]
  exact firstMentions_eraseDups mentioned

theorem parseList_eq_error_iff {e : InvalidSink} :
    parseList t = .error e ↔ FirstStray (names t) e.name := by
  refine ⟨fun h => ?_, parseList_of_firstStray⟩
  rcases known_or_firstStray (names t) with hall | ⟨n, hstray⟩
  · obtain ⟨sinks, hsinks⟩ := exists_parseList_iff.mpr hall
    rw [hsinks] at h
    cases h
  · rw [parseList_of_firstStray hstray] at h
    rw [← Except.error.inj h]
    exact hstray

theorem FirstStray.append {ns : List Text} {n : Text} (h : FirstStray ns n) (ms : List Text) :
    FirstStray (ns ++ ms) n := by
  obtain ⟨before, after, rfl, hbefore, hn⟩ := h
  exact ⟨before, after ++ ms, by rw [List.append_assoc, List.cons_append], hbefore, hn⟩

theorem parseList_ne_nil : parseList t ≠ .ok [] := by
  intro h
  obtain ⟨n, hn⟩ := List.exists_mem_of_ne_nil _ (names_ne_nil t)
  obtain ⟨s, rfl⟩ := known_iff.mp (exists_parseList_iff.mp ⟨[], h⟩ n hn)
  cases ((firstMentions_of_parseList h).mem_iff s).mpr hn

/-- A variable names no sinks if it is not set, holds no text or holds a blank one. -/
theorem ofVariable_eq_nil_iff {value : Option ByteArray} :
    ofVariable value = .ok [] ↔ value = none ∨ (∃ b, value = some b ∧ ∀ t, Text.toBytes t ≠ b) ∨
      ∃ t, value = some (Text.toBytes t) ∧ Text.allBlank t = true := by
  cases value with
  | none => simp [ofVariable]
  | some b =>
      cases hb : Text.ofBytes? b with
      | none =>
          have hnot : ∀ t, Text.toBytes t ≠ b := by
            rintro t rfl
            rw [Text.ofBytes?_toBytes] at hb
            cases hb
          simp only [ofVariable, Option.bind_some, hb, true_iff]
          exact Or.inr (Or.inl ⟨b, rfl, hnot⟩)
      | some t =>
          obtain rfl := Text.toBytes_of_ofBytes? hb
          simp only [ofVariable, Option.bind_some, hb]
          split
          · next hblank => exact iff_of_true rfl (Or.inr (Or.inr ⟨t, rfl, hblank⟩))
          · next hblank =>
              refine iff_of_false parseList_ne_nil ?_
              rintro (h | ⟨b, heq, hnot⟩ | ⟨u, heq, hu⟩)
              · cases h
              · exact hnot t (Option.some.inj heq)
              · have hbytes := congrArg Text.ofBytes? (Option.some.inj heq)
                rw [Text.ofBytes?_toBytes, Text.ofBytes?_toBytes] at hbytes
                exact hblank (Option.some.inj hbytes ▸ hu)

/-- **Lists of sinks.**  A list is read exactly if a sink has each of its names, and what is read are
these sinks in the order of first mention, whatever blanks the list was written with.  If not, the
first name that no sink has is the error, whatever follows it.  A variable that was read as a list
names a sink. -/
theorem lists_read :
    (∀ t, (∀ ns, ListedAs t ns ↔ ns = names t) ∧
      ((∃ sinks, parseList t = .ok sinks) ↔ ∀ n ∈ names t, Known n) ∧
      (∀ sinks, parseList t = .ok sinks → FirstMentions (names t) sinks) ∧
      (∀ e, parseList t = .error e ↔ FirstStray (names t) e.name) ∧
      ∀ e r, parseList t = .error e → parseList (t ++ ',' :: r) = .error e) ∧
    (∀ items : List Item, items ≠ [] →
      parseList (written items) = .ok (items.map Item.sink).eraseDups) ∧
    ∀ value, ofVariable value = .ok [] ↔
      value = none ∨ (∃ b, value = some b ∧ ∀ t, Text.toBytes t ≠ b) ∨
        ∃ t, value = some (Text.toBytes t) ∧ Text.allBlank t = true := by
  refine ⟨fun t => ⟨fun ns => listedAs_iff, exists_parseList_iff, fun sinks => ?_, fun e => ?_, ?_⟩,
    ?_, fun value => ofVariable_eq_nil_iff⟩
  · exact firstMentions_of_parseList
  · exact parseList_eq_error_iff
  · intro e r herror
    have hstray := (parseList_eq_error_iff.mp herror).append (names r)
    rw [← names_append_comma] at hstray
    exact parseList_of_firstStray hstray
  · intro items hne
    exact parseList_of_sinks (names_written hne)

/-- A list with a sink that is mentioned again, and with three kinds of blanks. -/
def repeated : List Item :=
  [⟨[' '], file, [], rfl, rfl⟩, ⟨[], stdout, ['\u2003'], rfl, rfl⟩, ⟨['\n'], file, [], rfl, rfl⟩]

theorem lists_read_repeated :
    repeated ≠ [] ∧ parseList (written repeated) = .ok [file, stdout] ∧
      FirstMentions (names (written repeated)) [file, stdout] ∧
      parseList "stdout, chrome".toList = .error ⟨"chrome"⟩ ∧
      ∀ r, parseList ("stdout, chrome".toList ++ ',' :: r) = .error ⟨"chrome"⟩ := by
  obtain ⟨hlists, hwritten, -⟩ := lists_read
  have hne : repeated ≠ [] := List.cons_ne_nil _ _
  have hread : parseList (written repeated) = .ok [file, stdout] := (hwritten repeated hne).trans rfl
  have herror : parseList "stdout, chrome".toList = .error ⟨"chrome"⟩ := by rfl
  obtain ⟨-, -, hmentions, -⟩ := hlists (written repeated)
  obtain ⟨-, -, -, -, hfollowed⟩ := hlists "stdout, chrome".toList
  exact ⟨hne, hread, hmentions _ hread, herror, fun r => hfollowed _ r herror⟩

end AttributeCss.Trace.Sink
