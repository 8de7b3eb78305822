/-
Maps that keep the order of first insertion.

An ordered map is a list of keyed values in which no key occurs twice.  One
operation changes it: `alter` replaces the value of a key where it stands,
or puts a new key at the end.  Order is visible (rules are written and
snapshots are stored in it), so the list itself is the view of the map.
-/
import AttributeCss.Text.Basic

namespace AttributeCss

/-- A map from text that keeps the order in which keys were first inserted. -/
structure OrderedMap (β : Type) where
  toList : List (Text × β)
  nodup_keys : (toList.map Prod.fst).Nodup

namespace OrderedMap

variable {β : Type}

/-- The value of a key in a list of keyed values. -/
def find? (k : Text) : List (Text × β) → Option β
  | [] => none
  | (k', v) :: r => if k' = k then some v else find? k r

/-- Gives `k` the value `f` of its old value, in place, or at the end if `k` is new. -/
def put (k : Text) (f : Option β → β) : List (Text × β) → List (Text × β)
  | [] => [(k, f none)]
  | (k', v) :: r => if k' = k then (k', f (some v)) :: r else (k', v) :: put k f r

theorem keys_put (k : Text) (f : Option β → β) (l : List (Text × β)) :
    (put k f l).map Prod.fst =
      if k ∈ l.map Prod.fst then l.map Prod.fst else l.map Prod.fst ++ [k] := by
  induction l with
  | nil => rfl
  | cons p r ih =>
    obtain ⟨k', v⟩ := p
    by_cases h : k' = k
    · simp [put, h]
    · have h' : ¬ k = k' := fun e => h e.symm
      simp only [put, if_neg h, List.map_cons, ih, List.mem_cons, h', false_or]
      split <;> simp

theorem nodup_keys_put (k : Text) (f : Option β → β) {l : List (Text × β)}
    (h : (l.map Prod.fst).Nodup) : ((put k f l).map Prod.fst).Nodup := by
  rw [keys_put]
  split
  · exact h
  · next hk =>
    rw [List.nodup_append]
    refine ⟨h, by simp, ?_⟩
    intro a ha b hb hab
    simp only [List.mem_singleton] at hb
    exact hk (hb ▸ hab ▸ ha)

def empty : OrderedMap β := ⟨[], by simp⟩

def get? (m : OrderedMap β) (k : Text) : Option β := find? k m.toList

/-- Gives `k` the value `f` of its old value, in place, or at the end if `k` is new. -/
def alter (m : OrderedMap β) (k : Text) (f : Option β → β) : OrderedMap β :=
  ⟨put k f m.toList, nodup_keys_put k f m.nodup_keys⟩

/-- Gives `k` the value `v`, in place, or at the end if `k` is new. -/
def insert (m : OrderedMap β) (k : Text) (v : β) : OrderedMap β := m.alter k fun _ => v

/-- Inserts the pairs one after the other. -/
def ofPairs (l : List (Text × β)) : OrderedMap β :=
  l.foldl (fun m p => m.insert p.1 p.2) empty

def keys (m : OrderedMap β) : List Text := m.toList.map Prod.fst

def size (m : OrderedMap β) : Nat := m.toList.length

def isEmpty (m : OrderedMap β) : Bool := m.toList.isEmpty

/-! ## What `alter` does to the view -/

theorem ext {m n : OrderedMap β} (h : m.toList = n.toList) : m = n := by
  cases m; cases n; simp_all

theorem find?_put_self (k : Text) (f : Option β → β) (l : List (Text × β)) :
    find? k (put k f l) = some (f (find? k l)) := by
  induction l with
  | nil => simp [put, find?]
  | cons p r ih => by_cases h : p.1 = k <;> simp [put, find?, h, ih]

theorem find?_put_of_ne {k k' : Text} (h : k' ≠ k) (f : Option β → β) (l : List (Text × β)) :
    find? k' (put k f l) = find? k' l := by
  induction l with
  | nil => simp [put, find?, Ne.symm h]
  | cons p r ih =>
    by_cases hk : p.1 = k
    · have hp : ¬ p.1 = k' := fun e => h (e.symm.trans hk)
      simp [put, find?, hk, Ne.symm h]
    · by_cases hp : p.1 = k'
      · subst hp
        simp [put, find?, hk]
      · simp [put, find?, hk, hp, ih]

theorem find?_eq_none {k : Text} {l : List (Text × β)} :
    find? k l = none ↔ k ∉ l.map Prod.fst := by
  induction l with
  | nil => simp [find?]
  | cons p r ih =>
    by_cases h : p.1 = k
    · simp [find?, h]
    · simp only [find?, if_neg h, ih, List.map_cons, List.mem_cons, not_or]
      exact ⟨fun hr => ⟨fun e => h e.symm, hr⟩, And.right⟩

@[simp] theorem toList_empty : (empty : OrderedMap β).toList = [] := rfl

@[simp] theorem toList_alter (m : OrderedMap β) (k : Text) (f : Option β → β) :
    (m.alter k f).toList = put k f m.toList := rfl

theorem get?_alter_self (m : OrderedMap β) (k : Text) (f : Option β → β) :
    (m.alter k f).get? k = some (f (m.get? k)) := find?_put_self k f m.toList

theorem get?_alter_of_ne (m : OrderedMap β) {k k' : Text} (h : k' ≠ k) (f : Option β → β) :
    (m.alter k f).get? k' = m.get? k' := find?_put_of_ne h f m.toList

theorem keys_alter (m : OrderedMap β) (k : Text) (f : Option β → β) :
    (m.alter k f).keys = if k ∈ m.keys then m.keys else m.keys ++ [k] := keys_put k f m.toList

theorem get?_eq_none {m : OrderedMap β} {k : Text} : m.get? k = none ↔ k ∉ m.keys :=
  find?_eq_none

end OrderedMap

end AttributeCss
