import Mathlib.Data.List.ReduceOption
import AlpacaCore.System.Run

/-!
`sc_queue`: many producers and one consumer.

The producers meet the consumer at `m_prod`, under the mutex; `m_cons` is the consumer's own.
A `try_pop` is three steps here: it looks at `m_cons`, it takes the lock if that was empty, and
it pops. Pushes may come between any two of them. The two deques stand for one queue, in which
what the consumer has taken over comes first.
-/

namespace AlpacaCore.Astl

open AlpacaCore.System (Reachable Free)

variable {T : Type}

structure ScQueue (T : Type) where
  cons : List T
  prod : List T
deriving DecidableEq

namespace ScQueue

def push (q : ScQueue T) (t : T) : ScQueue T := { q with prod := q.prod ++ [t] }

/-- `pop_cons`. With nothing in `m_cons` it is undefined. -/
def popCons (q : ScQueue T) : Option (T × ScQueue T) :=
  match q.cons with
  | [] => none
  | ret :: cons => some (ret, { q with cons })

def swap (q : ScQueue T) : ScQueue T := ⟨q.prod, q.cons⟩

/-- The queue that the two deques stand for. -/
def contents (q : ScQueue T) : List T := q.cons ++ q.prod

end ScQueue

/-- Where the consumer is in `try_pop`. -/
inductive Consumer where
  | idle
  /-- `m_cons` was empty; the lock comes next -/
  | empty
  /-- `pop_cons` comes next -/
  | pops
deriving DecidableEq

structure State (T : Type) where
  queue : ScQueue T
  consumer : Consumer
  /-- The values in the order their pushes took the lock, those that were popped, and what
  `try_pop` has returned. The code does not keep them. -/
  pushed : List T
  popped : List T
  returned : List (Option T)
deriving DecidableEq

inductive Action (T : Type) where
  | push (producer : Nat) (t : T)
  /-- `!m_cons.empty()` -/
  | check
  /-- the locked part -/
  | lock
  | pop

namespace State

def start : State T := ⟨⟨[], []⟩, .idle, [], [], []⟩

def step (s : State T) : Action T → Option (State T)
  | .push _ t => some { s with queue := s.queue.push t, pushed := s.pushed ++ [t] }
  | .check =>
      match s.consumer with
      | .idle => some { s with consumer := if s.queue.cons = [] then .empty else .pops }
      | _ => none
  | .lock =>
      match s.consumer with
      | .empty =>
          match s.queue.prod with
          | [] => some { s with consumer := .idle, returned := s.returned ++ [none] }
          | _ :: _ => some { s with queue := s.queue.swap, consumer := .pops }
      | _ => none
  | .pop =>
      match s.consumer with
      | .pops => s.queue.popCons.map fun (ret, queue) => { s with
          queue, consumer := .idle, popped := s.popped ++ [ret], returned := s.returned ++ [some ret] }
      | _ => none

/-- What is between the two ends of the queue, and what the consumer knows of its deque. -/
structure Inv (s : State T) : Prop where
  order : s.pushed = s.popped ++ s.queue.contents
  empty : s.consumer = .empty → s.queue.cons = []
  pops : s.consumer = .pops → s.queue.cons ≠ []
  returned : s.returned.reduceOption = s.popped

theorem inv_start : (start : State T).Inv :=
  ⟨rfl, by simp [start], by simp [start], rfl⟩

/-- A push adds at the back, whatever the consumer is at. -/
theorem Inv.push {s : State T} (inv : s.Inv) (t : T) :
    Inv { s with queue := s.queue.push t, pushed := s.pushed ++ [t] } where
  order := by
    rw [inv.order, ScQueue.contents, ScQueue.contents, ScQueue.push]
    simp only [List.append_assoc]
  empty := inv.empty
  pops := inv.pops
  returned := inv.returned

/-- The deques are swapped with nothing in front. -/
theorem contents_swap {q : ScQueue T} (empty : q.cons = []) : q.swap.contents = q.contents := by
  simp [ScQueue.contents, ScQueue.swap, empty]

theorem contents_of_popCons {q q' : ScQueue T} {ret : T} (popped : q.popCons = some (ret, q')) :
    q.contents = ret :: q'.contents := by
  unfold ScQueue.popCons at popped
  split at popped
  · cases popped
  · rename_i front
    cases popped
    rw [ScQueue.contents, front]
    rfl

theorem step_inv (s : State T) (a : Action T) (s' : State T) (inv : s.Inv)
    (stepped : s.step a = some s') : s'.Inv := by
  cases a with
  | push producer t =>
      cases stepped
      exact inv.push t
  | check =>
      simp only [step] at stepped
      split at stepped
      · cases stepped
        refine ⟨inv.order, ?_, ?_, inv.returned⟩
        · simp only
          split <;> simp_all
        · simp only
          split <;> simp_all
      · cases stepped
  | lock =>
      simp only [step] at stepped
      split at stepped
      · rename_i atLock
        split at stepped
        · cases stepped
          refine ⟨inv.order, by simp, by simp, ?_⟩
          rw [List.reduceOption_append, inv.returned]
          exact List.append_nil _
        · rename_i first rest waiting
          cases stepped
          refine ⟨?_, by simp, fun _ => ?_, inv.returned⟩
          · rw [contents_swap (inv.empty atLock)]
            exact inv.order
          · rw [ScQueue.swap, waiting]
            exact List.cons_ne_nil _ _
      · cases stepped
  | pop =>
      simp only [step] at stepped
      split at stepped
      · obtain ⟨⟨ret, queue⟩, popped, rfl⟩ := Option.map_eq_some_iff.mp stepped
        refine ⟨?_, by simp, by simp, ?_⟩
        · rw [inv.order, contents_of_popCons popped]
          simp only [List.append_assoc, List.singleton_append]
        · rw [List.reduceOption_append, inv.returned]
          rfl
      · cases stepped

/-- At nothing a `try_pop` has found both deques empty. -/
theorem Inv.nothing {s s' : State T} {a : Action T} (inv : s.Inv) (stepped : s.step a = some s')
    (returns : s'.returned = s.returned ++ [none]) : s.queue.contents = [] := by
  cases a with
  | push producer t =>
      cases stepped
      simp at returns
  | check =>
      simp only [step] at stepped
      split at stepped
      · cases stepped
        simp at returns
      · cases stepped
  | lock =>
      simp only [step] at stepped
      split at stepped
      · rename_i atLock
        split at stepped
        · rename_i none
          rw [ScQueue.contents, inv.empty atLock, none]
          rfl
        · cases stepped
          simp at returns
      · cases stepped
  | pop =>
      simp only [step] at stepped
      split at stepped
      · obtain ⟨⟨ret, queue⟩, popped, rfl⟩ := Option.map_eq_some_iff.mp stepped
        simp at returns
      · cases stepped

/-- First in, first out. -/
structure Fifo (s : State T) : Prop where
  order : s.popped <+: s.pushed
  /-- What `try_pop` has returned is what was popped. -/
  returned : s.returned.reduceOption = s.popped
  /-- It returns nothing only if everything is popped that was pushed before its locked check. -/
  nothing : ∀ a s', s.step a = some s' → s'.returned = s.returned ++ [none] → s.popped = s.pushed
  /-- It does not pop from an empty deque. -/
  pops : s.consumer = .pops → ∃ ret queue, s.queue.popCons = some (ret, queue)

/-- **The queue is first in, first out.** Whatever the threads that push do between the consumer's
look without the lock, its swap with the lock and its pop, what is popped is an initial part of
what was pushed and is returned; and it returns nothing only if nothing was left at its swap. -/
theorem fifo_of_reachable {s : State T} (reached : Reachable step Free .start s) : s.Fifo := by
  have inv := reached.invariant inv_start fun s a s' inv _ => step_inv s a s' inv
  refine ⟨⟨_, inv.order.symm⟩, inv.returned, ?_, ?_⟩
  · intro a s' stepped returns
    have order := inv.order
    rw [inv.nothing stepped returns, List.append_nil] at order
    exact order.symm
  · intro pops
    unfold ScQueue.popCons
    cases front : s.queue.cons with
    | nil => exact absurd front (inv.pops pops)
    | cons ret cons => exact ⟨ret, _, rfl⟩

/-- A push comes between the look at `m_cons` and the lock, and another one before the pop. -/
theorem fifo_of_reachable_late_push :
    ∃ s : State Nat, System.run step .start [.push 0 1, .check, .push 1 2, .lock, .push 0 3, .pop] =
      some s ∧ s.popped = [1] ∧ s.queue = ⟨[2], [3]⟩ ∧ s.Fifo := by
  refine ⟨_, rfl, rfl, rfl, fifo_of_reachable (System.reachable_of_run
    [.push 0 1, .check, .push 1 2, .lock, .push 0 3, .pop] rfl)⟩

end State

end AlpacaCore.Astl
