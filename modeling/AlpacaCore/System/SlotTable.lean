import Mathlib.Data.List.Nodup

/-!
Tables whose slots are used again.

`place free x xs` puts `x` into the first slot of `xs` that is free, or into a new
slot at the end. What can be said of the result follows from how `xs` is split:
nothing before the slot is free.
-/

namespace AlpacaCore.System

variable {A : Type*}

def place (free : A → Bool) (x : A) : List A → List A
  | [] => [x]
  | y :: ys => if free y then x :: ys else y :: place free x ys

variable {free : A → Bool} {x : A}

/-- Either the first free slot is used again, or none is free and one is added. -/
theorem place_cases (free : A → Bool) (x : A) (xs : List A) :
    (∃ before old after, xs = before ++ old :: after ∧ free old = true ∧
        (∀ y ∈ before, free y = false) ∧ place free x xs = before ++ x :: after) ∨
      (∀ y ∈ xs, free y = false) ∧ place free x xs = xs ++ [x] := by
  induction xs with
  | nil => exact .inr ⟨by simp, rfl⟩
  | cons y ys ih =>
      unfold place
      cases isFree : free y with
      | true => exact .inl ⟨[], y, ys, rfl, isFree, by simp, by simp⟩
      | false =>
          rcases ih with ⟨before, old, after, split, oldFree, none, placed⟩ | ⟨none, placed⟩
          · refine .inl ⟨y :: before, old, after, by simp [split], oldFree, ?_, by simp [placed]⟩
            simpa [isFree] using none
          · exact .inr ⟨by simpa [isFree] using none, by simp [placed]⟩

theorem mem_place_self (free : A → Bool) (x : A) (xs : List A) : x ∈ place free x xs := by
  rcases place_cases free x xs with ⟨before, old, after, -, -, -, placed⟩ | ⟨-, placed⟩
  · simp [placed]
  · simp [placed]

/-- What was not free stays. -/
theorem mem_place_of_mem {xs : List A} {y : A} (member : y ∈ xs) (taken : free y = false) :
    y ∈ place free x xs := by
  rcases place_cases free x xs with ⟨before, old, after, rfl, oldFree, -, placed⟩ | ⟨-, placed⟩
  · rw [placed]
    rcases List.mem_append.mp member with earlier | later
    · exact List.mem_append_left _ earlier
    · rcases List.mem_cons.mp later with rfl | later
      · rw [oldFree] at taken
        cases taken
      · exact List.mem_append_right _ (List.mem_cons_of_mem _ later)
  · rw [placed]
    exact List.mem_append_left _ member

theorem mem_of_mem_place {xs : List A} {y : A} (member : y ∈ place free x xs) : y = x ∨ y ∈ xs := by
  rcases place_cases free x xs with ⟨before, old, after, rfl, -, -, placed⟩ | ⟨-, placed⟩
  · rw [placed] at member
    simp only [List.mem_append, List.mem_cons] at member ⊢
    tauto
  · rw [placed] at member
    simp only [List.mem_append, List.mem_singleton] at member
    tauto

/-- The table grows only when every slot is taken. -/
theorem length_place (free : A → Bool) (x : A) (xs : List A) :
    (place free x xs).length = xs.length ∨
      (∀ y ∈ xs, free y = false) ∧ (place free x xs).length = xs.length + 1 := by
  rcases place_cases free x xs with ⟨before, old, after, rfl, -, -, placed⟩ | ⟨none, placed⟩
  · left
    simp [placed]
  · right
    exact ⟨none, by simp [placed]⟩

/-- The count of what was not free does not change, but for `x` itself. -/
theorem count_place [BEq A] [LawfulBEq A] {xs : List A} {y : A} (taken : free y = false) :
    (place free x xs).count y = xs.count y + if x == y then 1 else 0 := by
  rcases place_cases free x xs with ⟨before, old, after, rfl, oldFree, -, placed⟩ | ⟨-, placed⟩
  · have other : (old == y) = false := by
      rw [beq_eq_false_iff_ne]
      rintro rfl
      rw [oldFree] at taken
      cases taken
    rw [placed]
    simp only [List.count_append, List.count_cons, other, Bool.false_eq_true, if_false, Nat.add_zero]
    omega
  · rw [placed]
    simp only [List.count_append, List.count_singleton]

/-- A relation that `x` has to everything not free, both ways, and that what comes
before a free slot does not need to have to it. -/
theorem pairwise_place {R : A → A → Prop} {xs : List A} (held : xs.Pairwise R)
    (toLater : ∀ y ∈ xs, R x y) (fromEarlier : ∀ y ∈ xs, free y = false → R y x) :
    (place free x xs).Pairwise R := by
  rcases place_cases free x xs with ⟨before, old, after, rfl, -, none, placed⟩ | ⟨none, placed⟩
  · rw [placed]
    rw [List.pairwise_append, List.pairwise_cons] at held ⊢
    obtain ⟨earlier, ⟨-, later⟩, across⟩ := held
    refine ⟨earlier, ⟨fun y member => toLater y (by simp [member]), later⟩, ?_⟩
    intro y member z inside
    rcases List.mem_cons.mp inside with rfl | inside
    · exact fromEarlier y (by simp [member]) (none y member)
    · exact across y member z (List.mem_cons_of_mem _ inside)
  · rw [placed, List.pairwise_append]
    refine ⟨held, by simp, ?_⟩
    intro y member z inside
    obtain rfl := List.mem_singleton.mp inside
    exact fromEarlier y member (none y member)

end AlpacaCore.System
