import AlpacaCore.System.Run
import AlpacaCore.Xec.Direct

/-!
Direct evaluation, one step after the other.

The machine here has the objects of direct evaluation, and a stack: who awaits the coroutine
that runs, who awaits that one, and so on. A run of it from a body to its end is an evaluation
of the body, whatever the stack below.
-/

namespace AlpacaCore.Xec

open AlpacaCore.System (Reachable Free run run_cons)

/-- Who awaits, and at what. -/
abbrev Stack (C V X : Type) : Type := List (Nat × Resume C V X)

/-- The coroutine that runs is awaited through `next`. -/
def Stack.generating {C V X : Type} : Stack C V X → Bool
  | (_, .gen _ _) :: _ => true
  | _ => false

inductive State (C V X M : Type) where
  | running (w : World C M) (h : Nat) (c : C) (stack : Stack C V X)
  | returned (w : World C M) (r : Except X V)

namespace State

variable {C V X E M : Type}

/-- The coroutine `h` gives control to who awaits it. -/
def leave (w : World C M) (h : Nat) (o : Outcome C V X) : Stack C V X → Option (State C V X M)
  | (caller, .gen _ k) :: rest => some (.running (w.put h o.obj) caller (k o.item) rest)
  | (caller, .result k) :: rest =>
      match o with
      | .ended r => some (.running (w.put h .finished) caller (k r) rest)
      | .yielded _ _ => none
  | (caller, .helper) :: _ =>
      match o with
      | .ended r => some (.returned ((w.put h .finished).drop caller) r)
      | .yielded _ _ => none
  | [] => none

/-- What is left of the body, for who may await the coroutine. -/
def body (w : World C M) (g : Nat) (resume : Resume C V X) : Option C :=
  match w.objs g, resume with
  | some (.fresh body), _ => some body
  | some (.yielded k), .gen _ _ => some k
  | _, _ => none

def done (w : World C M) (g : Nat) : Option Bool :=
  match w.objs g with
  | some (.fresh _) => some false
  | some (.yielded _) => some false
  | some .finished => some true
  | _ => none

def call (w : World C M) (h g : Nat) (resume : Resume C V X) (stack : Stack C V X) :
    Option (State C V X M) :=
  (body w g resume).map fun body => .running (w.put g .busy) g body ((h, resume) :: stack)

def step (view : C → Instr C V X E M) (ex : E) : State C V X M → Option (State C V X M)
  | .running w h c stack =>
      match view c with
      | .ret v => leave w h (.ended (.ok v)) stack
      | .throw x => leave w h (.ended (.error x)) stack
      | .yield v k =>
          if stack.generating then leave w h (.yielded v k) stack else some (.running w h k stack)
      | .create body k => some (.running (w.create body) h (k w.born) stack)
      | .await g k => call w h g (.result k) stack
      | .next g k => call w h g (.gen g k) stack
      | .done g k => (done w g).map fun finished => .running w h (k finished) stack
      | .executor k => some (.running w h (k ex) stack)
      | .get k => some (.running w h (k w.mem) stack)
      | .set m k => some (.running { w with mem := m } h k stack)
  | .returned _ _ => none

end State

/-! ### From evaluations to runs -/

section Evaluation

variable {C V X E M : Type} {view : C → Instr C V X E M} {ex : E}

/-- One step after the other. -/
abbrev Steps (view : C → Instr C V X E M) (ex : E) : State C V X M → State C V X M → Prop :=
  Reachable (fun s (_ : Unit) => State.step view ex s) Free

theorem Steps.head {s mid s' : State C V X M} (first : State.step view ex s = some mid)
    (rest : Steps view ex mid s') : Steps view ex s s' :=
  (Reachable.next .start (a := ()) trivial first).trans rest

/-- A run to an end leads through whatever is reached on the way. -/
theorem Steps.rest_of_run {s mid last : State C V X M} (steps : Steps view ex s mid)
    {actions : List Unit} (ran : run (fun s (_ : Unit) => State.step view ex s) s actions = some last)
    (ended : State.step view ex last = none) :
    ∃ rest, rest.length ≤ actions.length ∧
      run (fun s (_ : Unit) => State.step view ex s) mid rest = some last := by
  induction steps with
  | start => exact ⟨actions, Nat.le_refl _, ran⟩
  | @next mid s' _ _ _ stepped ih =>
      obtain ⟨rest, shorter, ran⟩ := ih
      cases rest with
      | nil =>
          cases ran
          cases stepped.symm.trans ended
      | cons action rest =>
          rw [run_cons] at ran
          obtain ⟨s'', stepped', ran⟩ := Option.bind_eq_some_iff.mp ran
          cases stepped.symm.trans stepped'
          exact ⟨rest, Nat.le_of_succ_le shorter, ran⟩

theorem body_left {w : World C M} {g : Nat} {k : Except X (Item V) → C} {c : C} :
    State.body w g (.gen g k) = some c ↔ ∃ obj, w.objs g = some obj ∧ obj.Left c := by
  unfold State.body
  cases there : w.objs g with
  | none => simp
  | some obj => cases obj <;> simp [Obj.Left]

theorem body_fresh {w : World C M} {g : Nat} {k : Except X V → C} {c : C} :
    State.body w g (.result k) = some c ↔ w.objs g = some (.fresh c) := by
  unfold State.body
  cases there : w.objs g with
  | none => simp
  | some obj => cases obj <;> simp

theorem done_iff {w : World C M} {g : Nat} {finished : Bool} :
    State.done w g = some finished ↔ (finished = true ∧ w.objs g = some .finished) ∨
      (finished = false ∧ ∃ obj body, w.objs g = some obj ∧ obj.Left body) := by
  unfold State.done
  cases there : w.objs g with
  | none => simp
  | some obj => cases obj <;> cases finished <;> simp [Obj.Left]

/-- What is evaluated is what the machine does, up to where control goes back. -/
theorem Runs.steps {gen : Bool} {w w' : World C M} {c : C} {o : Outcome C V X}
    (runs : Runs view ex gen w c o w') {h : Nat} {stack : Stack C V X} {s' : State C V X M}
    (mode : stack.generating = gen) (left : State.leave w' h o stack = some s') :
    Steps view ex (.running w h c stack) s' := by
  induction runs generalizing h stack s' with
  | ret at_ => exact Steps.head (by simpa only [State.step, at_] using left) .start
  | throw at_ => exact Steps.head (by simpa only [State.step, at_] using left) .start
  | yields at_ => exact Steps.head (by simpa only [State.step, at_, mode, if_true] using left) .start
  | discards at_ _ ih =>
      refine Steps.head ?_ (ih mode left)
      simp only [State.step, at_, mode, Bool.false_eq_true, if_false]
  | create at_ _ ih =>
      refine Steps.head ?_ (ih mode left)
      simp only [State.step, at_]
  | @await _ w w₁ _ _ body g k r _ at_ there _ _ call rest =>
      have called : Steps view ex (.running (w.put g .busy) g body ((h, .result k) :: stack))
        (.running (w₁.put g .finished) h (k r) stack) := call rfl rfl
      refine Steps.head ?_ (called.trans (rest mode left))
      simp only [State.step, at_, State.call, body_fresh.mpr there, Option.map_some]
  | @next _ w w₁ _ _ body g k _ pulled _ at_ there isLeft _ _ pull rest =>
      have called : Steps view ex (.running (w.put g .busy) g body ((h, .gen g k) :: stack))
        (.running (w₁.put g pulled.obj) h (k pulled.item) stack) := pull rfl rfl
      refine Steps.head ?_ (called.trans (rest mode left))
      simp only [State.step, at_, State.call, body_left.mpr ⟨_, there, isLeft⟩, Option.map_some]
  | done at_ finished there _ ih =>
      refine Steps.head ?_ (ih mode left)
      simp only [State.step, at_, done_iff.mpr there, Option.map_some]
  | executor at_ _ ih =>
      refine Steps.head ?_ (ih mode left)
      simp only [State.step, at_]
  | get at_ _ ih =>
      refine Steps.head ?_ (ih mode left)
      simp only [State.step, at_]
  | set at_ _ ih =>
      refine Steps.head ?_ (ih mode left)
      simp only [State.step, at_]

/-! ### From runs to evaluations -/

theorem leave_ended {w : World C M} {h caller : Nat} {o : Outcome C V X} {k : Except X V → C}
    {stack : Stack C V X} {s' : State C V X M}
    (left : State.leave w h o ((caller, .result k) :: stack) = some s') :
    ∃ r, o = .ended r ∧ s' = .running (w.put h .finished) caller (k r) stack := by
  cases o with
  | ended r => exact ⟨r, rfl, (Option.some.inj left).symm⟩
  | yielded v k => cases left

/-- A run that comes to the end has evaluated the body of the coroutine that was running. -/
theorem runs_of_run {w wEnd : World C M} {h : Nat} {c : C} {stack : Stack C V X} {r : Except X V}
    {actions : List Unit}
    (ran : run (fun s (_ : Unit) => State.step view ex s) (.running w h c stack) actions =
      some (.returned wEnd r)) :
    ∃ o w' s' rest, Runs view ex stack.generating w c o w' ∧ State.leave w' h o stack = some s' ∧
      rest.length < actions.length ∧
      run (fun s (_ : Unit) => State.step view ex s) s' rest = some (.returned wEnd r) := by
  generalize length : actions.length = n
  induction n using Nat.strongRecOn generalizing w h c stack actions with
  | _ n ih =>
      cases actions with
      | nil => cases ran
      | cons action actions =>
          rw [run_cons] at ran
          obtain ⟨mid, stepped, ran⟩ := Option.bind_eq_some_iff.mp ran
          rw [List.length_cons] at length
          -- the coroutine goes on by itself
          have goesOn : ∀ w₁ c₁, mid = .running w₁ h c₁ stack →
              (∀ o w', Runs view ex stack.generating w₁ c₁ o w' → Runs view ex stack.generating w c o w') →
              ∃ o w' s' rest, Runs view ex stack.generating w c o w' ∧
                State.leave w' h o stack = some s' ∧ rest.length < n ∧
                run (fun s (_ : Unit) => State.step view ex s) s' rest = some (.returned wEnd r) := by
            rintro w₁ c₁ rfl rule
            obtain ⟨o, w', s', rest, runs, left, shorter, ran⟩ := ih _ (by omega) ran rfl
            exact ⟨o, w', s', rest, rule o w' runs, left, by omega, ran⟩
          simp only [State.step] at stepped
          cases at_ : view c with
          | ret v =>
              simp only [at_] at stepped
              exact ⟨_, _, mid, actions, .ret at_, stepped, by omega, ran⟩
          | throw x =>
              simp only [at_] at stepped
              exact ⟨_, _, mid, actions, .throw at_, stepped, by omega, ran⟩
          | yield v k =>
              simp only [at_] at stepped
              cases mode : stack.generating with
              | true =>
                  simp only [mode, if_true] at stepped
                  exact ⟨_, _, mid, actions, .yields at_, stepped, by omega, ran⟩
              | false =>
                  simp only [mode, Bool.false_eq_true, if_false] at stepped
                  rw [← mode]
                  apply goesOn w k (Option.some.inj stepped).symm
                  intro o w' runs
                  rw [mode] at runs ⊢
                  exact .discards at_ runs
          | create body k =>
              simp only [at_] at stepped
              exact goesOn _ _ (Option.some.inj stepped).symm fun o w' runs => .create at_ runs
          | await g k =>
              simp only [at_, State.call] at stepped
              obtain ⟨body, there, rfl⟩ := Option.map_eq_some_iff.mp stepped
              obtain ⟨o, w₁, s₁, rest, called, left, shorter, ran⟩ := ih _ (by omega) ran rfl
              obtain ⟨r', rfl, rfl⟩ := leave_ended left
              obtain ⟨o, w', s', rest', runs, left, shorter', ran⟩ := ih _ (by omega) ran rfl
              exact ⟨o, w', s', rest', .await at_ (body_fresh.mp there) called runs, left, by omega, ran⟩
          | next g k =>
              simp only [at_, State.call] at stepped
              obtain ⟨body, there, rfl⟩ := Option.map_eq_some_iff.mp stepped
              obtain ⟨pulled, w₁, s₁, rest, called, left, shorter, ran⟩ := ih _ (by omega) ran rfl
              cases left
              obtain ⟨o, w', s', rest', runs, left, shorter', ran⟩ := ih _ (by omega) ran rfl
              obtain ⟨obj, there, isLeft⟩ := body_left.mp there
              exact ⟨o, w', s', rest', .next at_ there isLeft called runs, left, by omega, ran⟩
          | done g k =>
              simp only [at_] at stepped
              obtain ⟨finished, there, same⟩ := Option.map_eq_some_iff.mp stepped
              exact goesOn _ _ same.symm fun o w' runs => .done at_ finished (done_iff.mp there) runs
          | executor k =>
              simp only [at_] at stepped
              exact goesOn _ _ (Option.some.inj stepped).symm fun o w' runs => .executor at_ runs
          | get k =>
              simp only [at_] at stepped
              exact goesOn _ _ (Option.some.inj stepped).symm fun o w' runs => .get at_ runs
          | set m k =>
              simp only [at_] at stepped
              exact goesOn _ _ (Option.some.inj stepped).symm fun o w' runs => .set at_ runs

/-- A coroutine on its own is evaluated to what the machine returns. -/
theorem evaluates_iff {m m' : M} {body : C} {r : Except X V} :
    Evaluates view ex m body r m' ↔
      ∃ w, Steps view ex (.running (.start m) 1 body [(0, .helper)]) (.returned w r) ∧ w.mem = m' := by
  constructor
  · rintro ⟨w', runs, mem⟩
    exact ⟨(w'.put 1 .finished).drop 0, runs.steps rfl rfl, mem⟩
  · rintro ⟨w, steps, mem⟩
    obtain ⟨actions, ran⟩ := steps.exists_run
    obtain ⟨o, w', s', rest, runs, left, -, ran⟩ := runs_of_run ran
    cases o with
    | yielded v k => cases left
    | ended r' =>
        cases left
        cases rest with
        | nil =>
            cases ran
            exact ⟨w', runs, mem⟩
        | cons action rest => cases ran

end Evaluation

end AlpacaCore.Xec
