import AlpacaCore.Xec.Coro

/-!
Coroutines evaluated directly.

A coroutine that is awaited is a function that is called: its body is evaluated as part of
the evaluation of the body that awaits it. A `next` evaluates the body of a generator up to
the next value it yields. There is no control transfer and no link, only the objects: what is
left of the body of each coroutine.
-/

namespace AlpacaCore.Xec

/-- A coroutine object. -/
inductive Obj (C : Type) where
  | fresh (body : C)
  | yielded (k : C)
  /-- the body is being evaluated -/
  | busy
  | finished

structure World (C M : Type) where
  objs : Nat → Option (Obj C)
  born : Nat
  mem : M

namespace World

variable {C M : Type}

def put (w : World C M) (g : Nat) (obj : Obj C) : World C M :=
  { w with objs := Function.update w.objs g (some obj) }

def drop (w : World C M) (g : Nat) : World C M :=
  { w with objs := Function.update w.objs g none }

def create (w : World C M) (body : C) : World C M :=
  { w.put w.born (.fresh body) with born := w.born + 1 }

@[simp] theorem put_self (w : World C M) (g : Nat) (obj : Obj C) : (w.put g obj).objs g = some obj :=
  Function.update_self _ _ _

@[simp] theorem put_of_ne (w : World C M) {g j : Nat} (other : j ≠ g) (obj : Obj C) :
    (w.put g obj).objs j = w.objs j := Function.update_of_ne other _ _

end World

/-- What the evaluation of a body comes to. -/
inductive Outcome (C V X : Type) where
  | ended (r : Except X V)
  | yielded (v : V) (k : C)

namespace Outcome

variable {C V X : Type}

def obj : Outcome C V X → Obj C
  | .ended _ => .finished
  | .yielded _ k => .yielded k

/-- What `next` makes of it. -/
def item : Outcome C V X → Except X (Item V)
  | .ended r => Item.ended r
  | .yielded v _ => .ok (.yielded v)

end Outcome

section Runs

variable {C V X E M : Type} (view : C → Instr C V X E M) (ex : E)

/-- The object has something left that `next` can evaluate. -/
def Obj.Left (obj : Obj C) (k : C) : Prop := obj = .fresh k ∨ obj = .yielded k

/-- A body is evaluated from a point on: up to the next value it yields if it is that of a
generator, to its end otherwise, the values it yields being discarded. -/
inductive Runs : Bool → World C M → C → Outcome C V X → World C M → Prop where
  | ret {gen : Bool} {w : World C M} {c : C} {v : V} (at_ : view c = .ret v) :
      Runs gen w c (.ended (.ok v)) w
  | throw {gen : Bool} {w : World C M} {c : C} {x : X} (at_ : view c = .throw x) :
      Runs gen w c (.ended (.error x)) w
  | yields {w : World C M} {c k : C} {v : V} (at_ : view c = .yield v k) :
      Runs true w c (.yielded v k) w
  | discards {w w' : World C M} {c k : C} {v : V} {o : Outcome C V X} (at_ : view c = .yield v k)
      (rest : Runs false w k o w') : Runs false w c o w'
  | create {gen : Bool} {w w' : World C M} {c body : C} {k : Nat → C} {o : Outcome C V X}
      (at_ : view c = .create body k) (rest : Runs gen (w.create body) (k w.born) o w') :
      Runs gen w c o w'
  | await {gen : Bool} {w w₁ w' : World C M} {c body : C} {g : Nat} {k : Except X V → C}
      {r : Except X V} {o : Outcome C V X} (at_ : view c = .await g k)
      (there : w.objs g = some (.fresh body)) (call : Runs false (w.put g .busy) body (.ended r) w₁)
      (rest : Runs gen (w₁.put g .finished) (k r) o w') : Runs gen w c o w'
  | next {gen : Bool} {w w₁ w' : World C M} {c body : C} {g : Nat} {k : Except X (Item V) → C}
      {obj : Obj C} {pulled o : Outcome C V X} (at_ : view c = .next g k)
      (there : w.objs g = some obj) (left : obj.Left body)
      (pull : Runs true (w.put g .busy) body pulled w₁)
      (rest : Runs gen (w₁.put g pulled.obj) (k pulled.item) o w') : Runs gen w c o w'
  | done {gen : Bool} {w w' : World C M} {c : C} {g : Nat} {k : Bool → C} {o : Outcome C V X}
      (at_ : view c = .done g k) (finished : Bool)
      (there : (finished = true ∧ w.objs g = some .finished) ∨
        (finished = false ∧ ∃ obj body, w.objs g = some obj ∧ obj.Left body))
      (rest : Runs gen w (k finished) o w') : Runs gen w c o w'
  | executor {gen : Bool} {w w' : World C M} {c : C} {k : E → C} {o : Outcome C V X}
      (at_ : view c = .executor k) (rest : Runs gen w (k ex) o w') : Runs gen w c o w'
  | get {gen : Bool} {w w' : World C M} {c : C} {k : M → C} {o : Outcome C V X}
      (at_ : view c = .get k) (rest : Runs gen w (k w.mem) o w') : Runs gen w c o w'
  | set {gen : Bool} {w w' : World C M} {c k : C} {m : M} {o : Outcome C V X}
      (at_ : view c = .set m k) (rest : Runs gen { w with mem := m } k o w') : Runs gen w c o w'

/-- What `next` gives of a generator, and what that leaves. -/
def Pull (w : World C M) (g : Nat) (item : Except X (Item V)) (w' : World C M) : Prop :=
  ∃ obj body, ∃ pulled : Outcome C V X, ∃ w₁, w.objs g = some obj ∧ obj.Left body ∧
    Runs view ex true (w.put g .busy) body pulled w₁ ∧ item = pulled.item ∧ w' = w₁.put g pulled.obj

/-- A coroutine with this body is being evaluated, in a memory; 0 is the number of who asked
for it. -/
def World.start (m : M) : World C M where
  objs := Function.update (Function.update (fun _ => none) 0 (some .busy)) 1 (some .busy)
  born := 2
  mem := m

/-- The body returns or throws this, and leaves that in the memory. -/
def Evaluates (m : M) (body : C) (r : Except X V) (m' : M) : Prop :=
  ∃ w', Runs view ex false (.start m) body (.ended r) w' ∧ w'.mem = m'

end Runs

/-- Evaluation by what the body does next. -/
theorem runs_iff {C V X E M : Type} {view : C → Instr C V X E M} {ex : E} {gen : Bool}
    {w w' : World C M} {c : C} {o : Outcome C V X} : Runs view ex gen w c o w' ↔
      match view c with
      | .ret v => o = .ended (.ok v) ∧ w' = w
      | .throw x => o = .ended (.error x) ∧ w' = w
      | .yield v k => if gen then o = .yielded v k ∧ w' = w else Runs view ex gen w k o w'
      | .create body k => Runs view ex gen (w.create body) (k w.born) o w'
      | .await g k => ∃ body r w₁, w.objs g = some (.fresh body) ∧
          Runs view ex false (w.put g .busy) body (.ended r) w₁ ∧
          Runs view ex gen (w₁.put g .finished) (k r) o w'
      | .next g k => ∃ item w₁, Pull view ex w g item w₁ ∧ Runs view ex gen w₁ (k item) o w'
      | .done g k => ∃ finished, ((finished = true ∧ w.objs g = some .finished) ∨
          (finished = false ∧ ∃ obj body, w.objs g = some obj ∧ obj.Left body)) ∧
          Runs view ex gen w (k finished) o w'
      | .executor k => Runs view ex gen w (k ex) o w'
      | .get k => Runs view ex gen w (k w.mem) o w'
      | .set m k => Runs view ex gen { w with mem := m } k o w' := by
  constructor
  · intro runs
    cases runs with
    | ret at_ => simp only [at_, and_self]
    | throw at_ => simp only [at_, and_self]
    | yields at_ => simp only [at_, if_true, and_self]
    | discards at_ rest => simpa only [at_, Bool.false_eq_true, if_false] using rest
    | create at_ rest => simpa only [at_] using rest
    | await at_ there call rest =>
        simp only [at_]
        exact ⟨_, _, _, there, call, rest⟩
    | next at_ there left pull rest =>
        simp only [at_]
        exact ⟨_, _, ⟨_, _, _, _, there, left, pull, rfl, rfl⟩, rest⟩
    | done at_ finished there rest =>
        simp only [at_]
        exact ⟨finished, there, rest⟩
    | executor at_ rest => simpa only [at_] using rest
    | get at_ rest => simpa only [at_] using rest
    | set at_ rest => simpa only [at_] using rest
  · intro runs
    cases at_ : view c with
    | ret v =>
        simp only [at_] at runs
        obtain ⟨rfl, rfl⟩ := runs
        exact .ret at_
    | throw x =>
        simp only [at_] at runs
        obtain ⟨rfl, rfl⟩ := runs
        exact .throw at_
    | yield v k =>
        simp only [at_] at runs
        cases gen with
        | true =>
            obtain ⟨rfl, rfl⟩ := runs
            exact .yields at_
        | false => exact .discards at_ runs
    | create body k =>
        simp only [at_] at runs
        exact .create at_ runs
    | await g k =>
        simp only [at_] at runs
        obtain ⟨body, r, w₁, there, call, rest⟩ := runs
        exact .await at_ there call rest
    | next g k =>
        simp only [at_] at runs
        obtain ⟨item, w₁, ⟨obj, body, pulled, w₂, there, left, pull, rfl, rfl⟩, rest⟩ := runs
        exact .next at_ there left pull rest
    | done g k =>
        simp only [at_] at runs
        obtain ⟨finished, there, rest⟩ := runs
        exact .done at_ finished there rest
    | executor k =>
        simp only [at_] at runs
        exact .executor at_ runs
    | get k =>
        simp only [at_] at runs
        exact .get at_ runs
    | set m k =>
        simp only [at_] at runs
        exact .set at_ runs

end AlpacaCore.Xec
