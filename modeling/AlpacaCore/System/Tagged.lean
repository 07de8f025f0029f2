import Mathlib.Data.List.Basic
import Mathlib.Data.List.Count

/-!
Lists whose elements carry the name of who put them there.

Several parties put elements in one list. What is `under` a name is what this party put there, in
order; the list is then an interleaving of what is under the names.
-/

namespace AlpacaCore.System

variable {K A B : Type*}

/-- The elements that `f` picks, under the names that they had. -/
def pick (f : A → Option B) (l : List (K × A)) : List (K × B) :=
  l.filterMap fun p => (f p.2).map (p.1, ·)

@[simp] theorem pick_nil (f : A → Option B) : pick f ([] : List (K × A)) = [] := rfl

@[simp] theorem pick_append (f : A → Option B) (l l' : List (K × A)) : pick f (l ++ l') = pick f l ++ pick f l' :=
  List.filterMap_append

theorem pick_singleton (f : A → Option B) (k : K) (a : A) : pick f [(k, a)] = (f a).toList.map (k, ·) := by
  cases picked : f a <;> simp [pick, picked]

variable [DecidableEq K]

/-- What stands under the name, in order. -/
def under (k : K) (l : List (K × A)) : List A := l.filterMap fun p => if p.1 = k then some p.2 else none

@[simp] theorem under_nil (k : K) : under k ([] : List (K × A)) = [] := rfl

@[simp] theorem under_append (k : K) (l l' : List (K × A)) : under k (l ++ l') = under k l ++ under k l' :=
  List.filterMap_append

theorem under_mono (k : K) {l l' : List (K × A)} (initial : l <+: l') : under k l <+: under k l' :=
  initial.filterMap _

theorem under_cons_self (k : K) (a : A) (l : List (K × A)) : under k ((k, a) :: l) = a :: under k l := by
  simp [under]

theorem under_cons_of_ne {j k : K} (other : j ≠ k) (a : A) (l : List (K × A)) :
    under k ((j, a) :: l) = under k l := by
  simp [under, other]

/-- What one party puts there is under its name. -/
@[simp] theorem under_map_self (k : K) (l : List A) : under k (l.map (k, ·)) = l := by
  induction l with
  | nil => rfl
  | cons a l ih => rw [List.map_cons, under_cons_self, ih]

theorem under_map_of_ne {j k : K} (other : j ≠ k) (l : List A) : under k (l.map (j, ·)) = [] := by
  induction l with
  | nil => rfl
  | cons a l ih => rw [List.map_cons, under_cons_of_ne other, ih]

/-- The same element, put there by each of these. -/
theorem under_map_const (k : K) (names : List K) (a : A) :
    under k (names.map (·, a)) = List.replicate (names.count k) a := by
  induction names with
  | nil => rfl
  | cons j names ih =>
      by_cases here : j = k
      · rw [here, List.map_cons, under_cons_self, ih, List.count_cons_self]
        rfl
      · rw [List.map_cons, under_cons_of_ne here, ih, List.count_cons_of_ne here]

/-- What is under a name is found in the list, in that order. -/
theorem under_sublist (k : K) (l : List (K × A)) : (under k l).Sublist (l.map Prod.snd) := by
  induction l with
  | nil => exact .slnil
  | cons p l ih =>
      obtain ⟨j, a⟩ := p
      by_cases here : j = k
      · rw [here, under_cons_self]
        exact ih.cons_cons _
      · rw [under_cons_of_ne here]
        exact ih.cons _

end AlpacaCore.System
