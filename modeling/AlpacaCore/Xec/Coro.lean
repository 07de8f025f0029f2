import Mathlib.Logic.Function.Basic

/-!
`coro`, by its promises and awaitables.

The code of the coroutines is given by `view`: what a coroutine that is resumed at some point
of its body does next. `Machine.step` does it the way `coro.hpp` does, through the links that
an awaitable writes into the promise of the coroutine it awaits: `m_prev` to come back by,
`m_result` and `m_generated` to leave something at. They are numbers of frames and of
awaitables here. What would be undefined there, like using an awaitable that is no more or
resuming a coroutine that is done, is no step.

Destroying coroutines is left out, and so is what else an executor runs: nothing a coroutine
awaits here waits for it.
-/

namespace AlpacaCore.Xec

/-- `astl::expected<Gen, Ret>`, which `next` returns. -/
inductive Item (V : Type) where
  | yielded (v : V)
  | returned (v : V)

/-- What `next` returns at the end, or throws. -/
def Item.ended {V X : Type} (r : Except X V) : Except X (Item V) := r.map .returned

/-- What a coroutine does next; `C` is the points its code is resumed at, `M` the memory it
shares with the others. -/
inductive Instr (C V X E M : Type) where
  | ret (v : V)
  /-- an exception leaves the body -/
  | throw (x : X)
  | yield (v : V) (k : C)
  /-- a coroutine with this body is made -/
  | create (body : C) (k : Nat → C)
  /-- `co_await c`, or `co_await c.safe_result()`: where the first throws an exception, `k` of it
  is where the body goes on then -/
  | await (g : Nat) (k : Except X V → C)
  /-- `co_await c.next()` -/
  | next (g : Nat) (k : Except X (Item V) → C)
  | done (g : Nat) (k : Bool → C)
  /-- `co_await executor{}` -/
  | executor (k : E → C)
  | get (k : M → C)
  | set (m : M) (k : C)

structure Promise (E : Type) where
  executor : Option E := none
  prev : Option Nat := none
  result : Option Nat := none
  generated : Option Nat := none

/-- The awaitable a coroutine is suspended at, by what `await_resume` gives to it. -/
inductive Resume (C V X : Type) where
  /-- `throwing_awaitable` and `result_awaitable` -/
  | result (k : Except X V → C)
  /-- `gen_awaitable` -/
  | gen (g : Nat) (k : Except X (Item V) → C)
  /-- the `result_awaitable` in `execute_helper::run` -/
  | helper

/-- `m_generated`, once `await_suspend` of the awaitable has left it as it was or written it. -/
def Resume.generated {C V X : Type} (a : Nat) (before : Option Nat) : Resume C V X → Option Nat
  | .gen _ _ => some a
  | _ => before

inductive Point (C V X : Type) where
  | initial (body : C)
  | yielded (k : C)
  | awaiting (a : Nat) (resume : Resume C V X)
  | running
  | final

/-- The frame of a coroutine. -/
structure Frame (C V X E : Type) where
  promise : Promise E := {}
  point : Point C V X
  /-- What the body has yielded so far, how it ended, and what `next` has given to those who
  called it. The code does not keep them. -/
  yields : List V := []
  outcome : Option (Except X V) := none
  received : List (Except X (Item V)) := []

/-- `gen` and `result` of an awaitable; `none` is `unexpected()`. -/
structure Awaitable (V X : Type) where
  gen : Option V := none
  result : Option (Except X V) := none

/-- `gen_awaitable::await_resume`. -/
def Awaitable.item {V X : Type} (a : Awaitable V X) : Option (Except X (Item V)) :=
  match a.gen with
  | some v => some (.ok (.yielded v))
  | none => a.result.map Item.ended

structure Machine (C V X E M : Type) where
  frames : Nat → Option (Frame C V X E)
  /-- the number of the next frame -/
  born : Nat
  awaitables : Nat → Option (Awaitable V X)
  /-- the number of the next awaitable -/
  made : Nat
  /-- the coroutine that is running, and where it is -/
  running : Option (Nat × C)
  mem : M
  /-- what `co_execute` returns or throws -/
  returned : Option (Except X V)

namespace Machine

variable {C V X E M : Type}

def setFrame (κ : Machine C V X E M) (h : Nat) (f : Frame C V X E) : Machine C V X E M :=
  { κ with frames := Function.update κ.frames h (some f) }

def setAwaitable (κ : Machine C V X E M) (a : Nat) (aw : Option (Awaitable V X)) : Machine C V X E M :=
  { κ with awaitables := Function.update κ.awaitables a aw }

def goOn (κ : Machine C V X E M) (h : Nat) (c : C) : Machine C V X E M :=
  { κ with running := some (h, c) }

/-- The coroutine of the frame runs. -/
def enter (κ : Machine C V X E M) (h : Nat) (f : Frame C V X E) (c : C) : Machine C V X E M :=
  (κ.setFrame h { f with point := .running }).goOn h c

/-- `await_resume` of what the coroutine `h` is suspended at. The helper is the coroutine that was
spawned: nobody awaits it, so its frame is destroyed at its end. -/
def awaitResume (κ : Machine C V X E M) (h : Nat) (f : Frame C V X E) (aw : Awaitable V X) :
    Resume C V X → Option (Machine C V X E M)
  | .result k => aw.result.map fun r => κ.enter h f (k r)
  | .gen g k => aw.item.bind fun item => (κ.frames g).map fun callee =>
      (κ.setFrame g { callee with received := callee.received ++ [item] }).enter h f (k item)
  | .helper => aw.result.map fun r =>
      { κ with frames := Function.update κ.frames h none, running := none, returned := some r }

/-- Control is transferred to a coroutine. The awaitable it was suspended at is destroyed. -/
def resume (κ : Machine C V X E M) (h : Nat) : Option (Machine C V X E M) :=
  (κ.frames h).bind fun f =>
    match f.point with
    | .initial body => some (κ.enter h f body)
    | .yielded k => some (κ.enter h f k)
    | .awaiting a resume => (κ.awaitables a).bind fun aw =>
        (κ.setAwaitable a none).awaitResume h f aw resume
    | .running => none
    | .final => none

/-- `await_suspend` of `basic_awaitable`, and of `gen_awaitable` if that is it. -/
def awaitSuspend (κ : Machine C V X E M) (caller g : Nat) (resume : Resume C V X) :
    Option (Machine C V X E M) :=
  (κ.frames caller).bind fun f =>
    let a := κ.made
    let κ := ({ κ with made := a + 1 }.setAwaitable a (some {})).setFrame caller
      { f with point := .awaiting a resume }
    (κ.frames g).bind fun callee =>
      let promise : Promise E := {
        executor := f.promise.executor
        prev := some caller
        result := some a
        generated := resume.generated a callee.promise.generated }
      (κ.setFrame g { callee with promise }).resume g

/-- `return_value` or `unhandled_exception`, and `final_suspend`. Only the helper has no
`m_result` and no `m_prev`. -/
def finish (κ : Machine C V X E M) (h : Nat) (r : Except X V) : Option (Machine C V X E M) :=
  (κ.frames h).bind fun f => f.promise.result.bind fun a => (κ.awaitables a).bind fun aw =>
    f.promise.prev.bind fun prev =>
      ((κ.setAwaitable a (some { aw with result := some r })).setFrame h
        { f with point := .final, outcome := some r }).resume prev

def yieldValue (κ : Machine C V X E M) (h : Nat) (v : V) (k : C) : Option (Machine C V X E M) :=
  (κ.frames h).bind fun f =>
    match f.promise.generated with
    | none => some ((κ.setFrame h { f with yields := f.yields ++ [v] }).goOn h k)
    | some a => (κ.awaitables a).bind fun aw => f.promise.prev.bind fun prev =>
        ((κ.setAwaitable a (some { aw with gen := some v })).setFrame h
          { f with point := .yielded k, yields := f.yields ++ [v] }).resume prev

/-- `coro::done`, for a coroutine that is suspended. -/
def done (κ : Machine C V X E M) (g : Nat) : Option Bool :=
  (κ.frames g).bind fun f =>
    match f.point with
    | .running => none
    | .final => some true
    | _ => some false

def step (view : C → Instr C V X E M) (κ : Machine C V X E M) : Option (Machine C V X E M) :=
  κ.running.bind fun (h, c) =>
    match view c with
    | .ret v => κ.finish h (.ok v)
    | .throw x => κ.finish h (.error x)
    | .yield v k => κ.yieldValue h v k
    | .create body k =>
        some ({ κ.setFrame κ.born { point := .initial body } with born := κ.born + 1 }.goOn h (k κ.born))
    | .await g k => κ.awaitSuspend h g (.result k)
    | .next g k => κ.awaitSuspend h g (.gen g k)
    | .done g k => (κ.done g).map fun finished => κ.goOn h (k finished)
    | .executor k => (κ.frames h).bind fun f => f.promise.executor.map fun e => κ.goOn h (k e)
    | .get k => some (κ.goOn h (k κ.mem))
    | .set m k => some ({ κ with mem := m }.goOn h k)

/-- The helper of `co_execute`, spawned with the executor, and the coroutine it is for. -/
def spawned (ex : E) (m : M) (body : C) : Machine C V X E M where
  frames := Function.update (Function.update (fun _ => none)
    0 (some { promise := { executor := some ex }, point := .running }))
    1 (some { point := .initial body })
  born := 2
  awaitables := fun _ => none
  made := 0
  running := none
  mem := m
  returned := none

/-- `co_execute`: the helper awaits `safe_result` of the coroutine. -/
def coExecute (ex : E) (m : M) (body : C) : Machine C V X E M :=
  ((spawned ex m body).awaitSuspend 0 1 .helper).getD (spawned ex m body)

/-- Generators are consumed through `next` only, and not once they are done; nothing awaits a
coroutine that is at work for it. -/
def Disciplined (view : C → Instr C V X E M) (κ : Machine C V X E M) : Prop :=
  ∀ h c, κ.running = some (h, c) →
    match view c with
    | .await g _ => ∃ f body, κ.frames g = some f ∧ f.point = .initial body
    | .next g _ => ∃ f k, κ.frames g = some f ∧ (f.point = .initial k ∨ f.point = .yielded k)
    | .done g _ => ∃ f, κ.frames g = some f ∧
        ((∃ k, f.point = .initial k ∨ f.point = .yielded k) ∨ f.point = .final)
    | _ => True

end Machine

end AlpacaCore.Xec
