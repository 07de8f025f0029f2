import Mathlib.Data.List.Basic

/-!
Coroutines that ask their environment for things and may throw.

A coroutine is the tree of what it asks for: `call op next` suspends at the operation
`op` and goes on with `next` of its result. The tree has no infinite path; a loop of a
program is given by a coroutine for its body and the point the body ends at.

`Follows` says what a coroutine does whatever its environment answers: its operations
are those of some protocol, which goes from state to state with the answers. It is proved
of a program along its structure, by one rule for each construct.
-/

namespace AlpacaCore.System

/-- `Res op` is what the environment answers to `op`. -/
inductive Coro (Op : Type) (Res : Op → Type) (X A : Type) where
  | ret (a : A)
  | throw (x : X)
  | call (op : Op) (next : Res op → Coro Op Res X A)

namespace Coro

variable {Op : Type} {Res : Op → Type} {X A B : Type}

def bind : Coro Op Res X A → (A → Coro Op Res X B) → Coro Op Res X B
  | .ret a, f => f a
  | .throw x, _ => .throw x
  | .call op next, f => .call op fun r => (next r).bind f

/-- Runs the handler when the coroutine throws. -/
def tryCatch : Coro Op Res X A → (X → Coro Op Res X A) → Coro Op Res X A
  | .ret a, _ => .ret a
  | .throw x, handler => handler x
  | .call op next, handler => .call op fun r => (next r).tryCatch handler

instance : Monad (Coro Op Res X) where
  pure := .ret
  bind := .bind

/-- What a coroutine goes on with. -/
inductive Next : Coro Op Res X A → Coro Op Res X A → Prop where
  | next (op : Op) (next : Res op → Coro Op Res X A) (r : Res op) : Next (next r) (.call op next)

theorem next_wf : WellFounded (Next : Coro Op Res X A → Coro Op Res X A → Prop) := by
  constructor
  intro c
  induction c with
  | ret a => exact ⟨_, nofun⟩
  | throw x => exact ⟨_, nofun⟩
  | call op next ih =>
      constructor
      rintro - ⟨_, _, r⟩
      exact ih r

/-- A computation without operations. -/
def ofExcept : Except X A → Coro Op Res X A
  | .ok a => .ret a
  | .error x => .throw x

instance : MonadLift (Except X) (Coro Op Res X) := ⟨ofExcept⟩

/-- A single operation. -/
def perform (op : Op) : Coro Op Res X (Res op) := .call op .ret

instance : LawfulMonad (Coro Op Res X) := by
  refine LawfulMonad.mk' (Coro Op Res X) ?_ (fun _ _ => rfl) ?_
  · intro A c
    induction c with
    | ret a => rfl
    | throw x => rfl
    | call op next ih => exact congrArg (Coro.call op) (funext ih)
  · intro A B C c f g
    induction c with
    | ret a => rfl
    | throw x => rfl
    | call op next ih => exact congrArg (Coro.call op) (funext ih)

/-! ### Protocols -/

section Follows

variable {P : Type} {moves : P → (op : Op) → Res op → P → Prop} {answers : (op : Op) → Res op → Prop}

/-- From the state `p` on, each operation of the coroutine is one that the protocol has in
the state it has come to, as long as the environment answers as it should; `ends` holds of
the state and the result, or `fails` of the state and the exception. -/
def Follows (moves : P → (op : Op) → Res op → P → Prop) (answers : (op : Op) → Res op → Prop)
    (ends : P → A → Prop) (fails : P → X → Prop) : P → Coro Op Res X A → Prop
  | p, .ret a => ends p a
  | p, .throw x => fails p x
  | p, .call op next => ∀ r, answers op r →
      ∃ p', moves p op r p' ∧ Follows moves answers ends fails p' (next r)

variable {ends ends' : P → A → Prop} {fails fails' : P → X → Prop}

theorem Follows.mono {p : P} {c : Coro Op Res X A} (follows : Follows moves answers ends fails p c)
    (weakenEnds : ∀ p a, ends p a → ends' p a) (weakenFails : ∀ p x, fails p x → fails' p x) :
    Follows moves answers ends' fails' p c := by
  induction c generalizing p with
  | ret a => exact weakenEnds p a follows
  | throw x => exact weakenFails p x follows
  | call op next ih =>
      intro r answered
      obtain ⟨p', moved, later⟩ := follows r answered
      exact ⟨p', moved, ih r later⟩

theorem Follows.bind {p : P} {c : Coro Op Res X A} {f : A → Coro Op Res X B}
    {after : P → B → Prop} (first : Follows moves answers ends fails p c)
    (rest : ∀ p a, ends p a → Follows moves answers after fails p (f a)) :
    Follows moves answers after fails p (c >>= f) := by
  induction c generalizing p with
  | ret a => exact rest p a first
  | throw x => exact first
  | call op next ih =>
      intro r answered
      obtain ⟨p', moved, later⟩ := first r answered
      exact ⟨p', moved, ih r later⟩

theorem Follows.tryCatch {p : P} {c : Coro Op Res X A} {handler : X → Coro Op Res X A}
    (first : Follows moves answers ends fails p c)
    (handled : ∀ p x, fails p x → Follows moves answers ends fails' p (handler x)) :
    Follows moves answers ends fails' p (c.tryCatch handler) := by
  induction c generalizing p with
  | ret a => exact first
  | throw x => exact handled p x first
  | call op next ih =>
      intro r answered
      obtain ⟨p', moved, later⟩ := first r answered
      exact ⟨p', moved, ih r later⟩

theorem Follows.ofExcept_bind {p : P} {x : Except X A} {f : A → Coro Op Res X B}
    {after : P → B → Prop} (rest : ∀ a, x = .ok a → Follows moves answers after fails p (f a))
    (failed : ∀ e, x = .error e → fails p e) :
    Follows moves answers after fails p (Coro.ofExcept x >>= f) := by
  cases x with
  | ok a => exact rest a rfl
  | error e => exact failed e rfl

end Follows

end Coro

end AlpacaCore.System
