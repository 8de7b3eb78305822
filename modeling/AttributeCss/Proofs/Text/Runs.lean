/-
Runs of characters, and where they end.

A reader that takes all it can of a class of characters takes the same of a
longer text, if what was put behind does not go on with the class.  `Stops`
says that it does not.
-/
import AttributeCss.Text.Basic
import Mathlib.Data.List.TakeWhile

namespace AttributeCss.Text

/-- The text does not start with a character of the class. -/
def Stops (p : Char → Bool) (t : Text) : Prop := ∀ c ∈ t.head?, p c = false

variable {p : Char → Bool}

theorem stops_nil : Stops p [] := nofun

theorem stops_cons {c : Char} (r : Text) (h : p c = false) : Stops p (c :: r) := by
  intro d hd
  obtain rfl := Option.some.inj hd
  exact h

theorem stops_dropWhile (t : Text) : Stops p (t.dropWhile p) := by
  induction t with
  | nil => nofun
  | cons c r ih =>
      rw [List.dropWhile_cons]
      split
      · exact ih
      · next hc => exact stops_cons r (by simpa using hc)

theorem stops_append {a b : Text} (ha : Stops p a) (hb : a = [] → Stops p b) :
    Stops p (a ++ b) := by
  cases a with
  | nil => exact hb rfl
  | cons c r => exact stops_cons (r ++ b) (ha c rfl)

theorem stops_of_imp {q : Char → Bool} (hpq : ∀ c, p c = true → q c = true) {t : Text}
    (h : Stops q t) : Stops p t := by
  intro c hc
  rw [Bool.eq_false_iff]
  exact fun hp => absurd (hpq c hp) (by simp [h c hc])

theorem takeWhile_of_stops {t : Text} (h : Stops p t) : t.takeWhile p = [] := by
  cases t with
  | nil => rfl
  | cons c r => exact List.takeWhile_cons_of_neg (by simp [h c rfl])

theorem dropWhile_of_stops {t : Text} (h : Stops p t) : t.dropWhile p = t := by
  cases t with
  | nil => rfl
  | cons c r => exact List.dropWhile_cons_of_neg (by simp [h c rfl])

theorem takeWhile_append_stops {a b : Text} (ha : ∀ c ∈ a, p c = true) (hb : Stops p b) :
    (a ++ b).takeWhile p = a := by
  rw [List.takeWhile_append_of_pos ha, takeWhile_of_stops hb, List.append_nil]

theorem dropWhile_append_stops {a b : Text} (ha : ∀ c ∈ a, p c = true) (hb : Stops p b) :
    (a ++ b).dropWhile p = b := by
  rw [List.dropWhile_append_of_pos ha, dropWhile_of_stops hb]

end AttributeCss.Text
