/-
The elements a scan looks at, and what their attributes declare.

`scanned` lists them by their attributes, in the order of the template; the
occurrences of a template are those of each element in turn.  Under a name
that was written no equals sign is found, so name and value of every
occurrence can be told from its keys.
-/
import AttributeCss.Occurrence
import AttributeCss.Proofs.Markup.Written
import AttributeCss.Proofs.Text.Words

namespace AttributeCss.Markup

/-! ## Scanned elements -/

mutual

/-- The attributes of each element in the node that is scanned: all but pictures and what they
contain. -/
def scannedIn : Node → List (List Attribute)
  | .element tag attributes children =>
      if tag = "svg" then [] else attributes :: scanned children
  | .choice branches => scannedInBranches branches
  | .loop _ children => scanned children
  | .text _ | .comment _ | .interpolation _ => []

def scanned : List Node → List (List Attribute)
  | [] => []
  | n :: r => scannedIn n ++ scanned r

def scannedInBranches : List (Option Text × List Node) → List (List Attribute)
  | [] => []
  | b :: r => scannedInBranch b ++ scannedInBranches r

def scannedInBranch : Option Text × List Node → List (List Attribute)
  | (_, body) => scanned body

end

mutual

theorem every_scannedIn {P : Attribute → Prop} : ∀ {n : Node}, n.Every P →
    ∀ attributes ∈ scannedIn n, ∀ a ∈ attributes, P a
  | .element tag attributes children, .element hattributes hchildren => by
      simp only [scannedIn]
      split
      · nofun
      · intro found hfound
        rcases List.mem_cons.mp hfound with rfl | hfound
        · exact hattributes
        · exact every_scanned hchildren found hfound
  | .choice branches, .choice hbranches => by
      simp only [scannedIn]
      exact every_scannedInBranches hbranches
  | .loop source children, .loop hchildren => by
      simp only [scannedIn]
      exact every_scanned hchildren
  | .text t, _ => by simp [scannedIn]
  | .comment t, _ => by simp [scannedIn]
  | .interpolation t, _ => by simp [scannedIn]

theorem every_scanned {P : Attribute → Prop} : ∀ {nodes : List Node}, (∀ n ∈ nodes, n.Every P) →
    ∀ attributes ∈ scanned nodes, ∀ a ∈ attributes, P a
  | [], _ => by simp [scanned]
  | n :: r, h => by
      intro found hfound
      simp only [scanned] at hfound
      rcases List.mem_append.mp hfound with hfound | hfound
      · exact every_scannedIn (h n List.mem_cons_self) found hfound
      · exact every_scanned (fun m hm => h m (List.mem_cons_of_mem _ hm)) found hfound

theorem every_scannedInBranches {P : Attribute → Prop} :
    ∀ {branches : List (Option Text × List Node)}, (∀ b ∈ branches, ∀ n ∈ b.2, n.Every P) →
      ∀ attributes ∈ scannedInBranches branches, ∀ a ∈ attributes, P a
  | [], _ => by simp [scannedInBranches]
  | b :: r, h => by
      intro found hfound
      simp only [scannedInBranches] at hfound
      rcases List.mem_append.mp hfound with hfound | hfound
      · exact every_scannedInBranch (h b List.mem_cons_self) found hfound
      · exact every_scannedInBranches (fun m hm => h m (List.mem_cons_of_mem _ hm)) found hfound

theorem every_scannedInBranch {P : Attribute → Prop} :
    ∀ {b : Option Text × List Node}, (∀ n ∈ b.2, n.Every P) →
      ∀ attributes ∈ scannedInBranch b, ∀ a ∈ attributes, P a
  | (_, body), h => by
      simp only [scannedInBranch]
      exact every_scanned h

end

end AttributeCss.Markup

namespace AttributeCss.Occurrence

open Markup

/-! ## Occurrences are those of the scanned elements -/

mutual

theorem ofNode_eq (v : Vocabulary) :
    ∀ n, ofNode v n = (scannedIn n).flatMap (ofAttributes v)
  | .element tag attributes children => by
      simp only [ofNode, scannedIn]
      split
      · rfl
      · rw [List.flatMap_cons, ofNodes_eq v children]
  | .choice branches => by
      simp only [ofNode, scannedIn]
      exact ofBranches_eq v branches
  | .loop source children => by
      simp only [ofNode, scannedIn]
      exact ofNodes_eq v children
  | .text t => by simp [ofNode, scannedIn]
  | .comment t => by simp [ofNode, scannedIn]
  | .interpolation t => by simp [ofNode, scannedIn]

theorem ofNodes_eq (v : Vocabulary) :
    ∀ nodes, ofNodes v nodes = (scanned nodes).flatMap (ofAttributes v)
  | [] => by simp [ofNodes, scanned]
  | n :: r => by
      simp only [ofNodes, scanned, List.flatMap_append]
      rw [ofNode_eq v n, ofNodes_eq v r]

theorem ofBranches_eq (v : Vocabulary) :
    ∀ branches, ofBranches v branches = (scannedInBranches branches).flatMap (ofAttributes v)
  | [] => by simp [ofBranches, scannedInBranches]
  | b :: r => by
      simp only [ofBranches, scannedInBranches, List.flatMap_append]
      rw [ofBranch_eq v b, ofBranches_eq v r]

theorem ofBranch_eq (v : Vocabulary) :
    ∀ b, ofBranch v b = (scannedInBranch b).flatMap (ofAttributes v)
  | (_, body) => by
      simp only [ofBranch, scannedInBranch]
      exact ofNodes_eq v body

end

theorem mem_ofAttributes {v : Vocabulary} {attributes : List Attribute} {o : Occurrence} :
    o ∈ ofAttributes v attributes ↔ ∃ a ∈ attributes, ∃ name value,
      (bound? a = some (name, value) ∨ static? a = some (name, value)) ∧
        of? v name value = some o := by
  simp only [ofAttributes, List.mem_filterMap, List.mem_append, Prod.exists]
  constructor
  · rintro ⟨name, value, ⟨a, ha, hfound⟩ | ⟨a, ha, hfound⟩, ho⟩
    · exact ⟨a, ha, name, value, Or.inl hfound, ho⟩
    · exact ⟨a, ha, name, value, Or.inr hfound, ho⟩
  · rintro ⟨a, ha, name, value, hfound | hfound, ho⟩
    · exact ⟨name, value, Or.inl ⟨a, ha, hfound⟩, ho⟩
    · exact ⟨name, value, Or.inr ⟨a, ha, hfound⟩, ho⟩

theorem eq_of_of? {v : Vocabulary} {name value : Text} {o : Occurrence}
    (h : of? v name value = some o) :
    o = ⟨name, value, v.nameFacets name ∪ v.occurrenceFacets name value⟩ := by
  simp only [of?] at h
  split at h
  · exact (Option.some.inj h).symm
  · cases h

theorem facets_of_of? {v : Vocabulary} {name value : Text} {o : Occurrence}
    (h : of? v name value = some o) :
    o.facets.listed = value.contains ' ' ∧ o.facets.valuePseudo = false := by
  rw [eq_of_of? h]
  show ((v.nameFacets name).listed || value.contains ' ') = _ ∧
    ((v.nameFacets name).valuePseudo || false) = false
  unfold Vocabulary.nameFacets
  split
  · exact ⟨rfl, rfl⟩
  · split <;> exact ⟨rfl, rfl⟩

theorem eq_of_bound? {a : Attribute} {name value : Text} (h : bound? a = some (name, value)) :
    ∃ modifiers expression, a = .directive ⟨"bind", some name, modifiers, some expression⟩ ∧
      Ternary.combined? expression = some value := by
  unfold bound? at h
  split at h
  · next directive argument modifiers expression =>
      split at h
      · next hbind =>
          obtain ⟨combined, hcombined, hfound⟩ := Option.map_eq_some_iff.mp h
          obtain ⟨rfl, rfl⟩ := Prod.mk.inj hfound
          exact ⟨modifiers, expression, by rw [hbind], hcombined⟩
      · cases h
  · cases h

theorem isNameChar_of_written {a : Attribute} (ha : a.Written) {name value : Text}
    (h : bound? a = some (name, value) ∨ static? a = some (name, value)) :
    ∀ c ∈ name, isNameChar c = true := by
  obtain ⟨written, given, -, hwritten, hraw⟩ := ha
  intro c hc
  apply hwritten
  rcases h with h | h
  · obtain ⟨modifiers, expression, rfl, -⟩ := eq_of_bound? h
    exact mem_name_of_mem_argument hraw.symm rfl hc
  · cases a with
    | static n w =>
        obtain ⟨rfl, -⟩ := Prod.mk.inj (Option.some.inj h)
        exact eq_of_ofRaw_eq_static hraw.symm ▸ hc
    | directive d => cases h

/-- In a template that was read, no name that declares holds an equals sign. -/
theorem notMem_name_of_read {v : Vocabulary} {source : Text} {nodes : List Node}
    (hread : read source = .ok nodes) {o : Occurrence} (ho : o ∈ ofNodes v nodes) :
    '=' ∉ o.name := by
  rw [ofNodes_eq] at ho
  obtain ⟨attributes, hscanned, ho⟩ := List.mem_flatMap.mp ho
  obtain ⟨a, ha, name, value, hfound, hof⟩ := mem_ofAttributes.mp ho
  have hwritten := every_scanned (written_of_read hread) attributes hscanned a ha
  intro hequals
  rw [eq_of_of? hof] at hequals
  exact absurd (isNameChar_of_written hwritten hfound _ hequals) (by decide)

end AttributeCss.Occurrence
