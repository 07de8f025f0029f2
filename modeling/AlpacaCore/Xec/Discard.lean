import AlpacaCore.Xec.Stale

/-!
What a plain await comes to, of any coroutine that is suspended before its end.

`Settles` is direct evaluation where a coroutine can be awaited plainly after `next`: what is left
of it is evaluated to its end. That the promises do so depends on what it yields on the way.
-/

namespace AlpacaCore.Xec

open AlpacaCore.System (Reachable Free Meets run)
open Function (update update_self update_of_ne update_eq_self_iff)

/-- `next` has been called of the coroutine. -/
def Obj.pulled {C : Type} : Obj C → Bool
  | .yielded _ => true
  | _ => false

section Settle

variable {C V X E M : Type} (view : C → Instr C V X E M) (ex : E)

/-- A body is evaluated from a point on, as by `Runs`, and a plain await evaluates whatever is left of
a coroutine, discarding what that yields. If it is to be strict, a coroutine that `next` has been
called of must yield nothing more. -/
inductive Settles (strict : Bool) : Bool → World C M → C → Outcome C V X → World C M → Prop where
  | ret {gen : Bool} {w : World C M} {c : C} {v : V} (at_ : view c = .ret v) :
      Settles strict gen w c (.ended (.ok v)) w
  | throw {gen : Bool} {w : World C M} {c : C} {x : X} (at_ : view c = .throw x) :
      Settles strict gen w c (.ended (.error x)) w
  | yields {w : World C M} {c k : C} {v : V} (at_ : view c = .yield v k) :
      Settles strict true w c (.yielded v k) w
  | discards {w w' : World C M} {c k : C} {v : V} {o : Outcome C V X} (at_ : view c = .yield v k)
      (rest : Settles strict false w k o w') : Settles strict false w c o w'
  | create {gen : Bool} {w w' : World C M} {c body : C} {k : Nat → C} {o : Outcome C V X}
      (at_ : view c = .create body k) (rest : Settles strict gen (w.create body) (k w.born) o w') :
      Settles strict gen w c o w'
  | await {gen : Bool} {w w₁ w' : World C M} {c body : C} {g : Nat} {k : Except X V → C}
      {obj : Obj C} {r : Except X V} {o : Outcome C V X} (at_ : view c = .await g k)
      (there : w.objs g = some obj) (left : obj.Left body)
      (call : Settles strict (strict && obj.pulled) (w.put g .busy) body (.ended r) w₁)
      (rest : Settles strict gen (w₁.put g .finished) (k r) o w') : Settles strict gen w c o w'
  | next {gen : Bool} {w w₁ w' : World C M} {c body : C} {g : Nat} {k : Except X (Item V) → C}
      {obj : Obj C} {pulled o : Outcome C V X} (at_ : view c = .next g k)
      (there : w.objs g = some obj) (left : obj.Left body)
      (pull : Settles strict true (w.put g .busy) body pulled w₁)
      (rest : Settles strict gen (w₁.put g pulled.obj) (k pulled.item) o w') : Settles strict gen w c o w'
  | done {gen : Bool} {w w' : World C M} {c : C} {g : Nat} {k : Bool → C} {o : Outcome C V X}
      (at_ : view c = .done g k) (finished : Bool)
      (there : (finished = true ∧ w.objs g = some .finished) ∨
        (finished = false ∧ ∃ obj body, w.objs g = some obj ∧ obj.Left body))
      (rest : Settles strict gen w (k finished) o w') : Settles strict gen w c o w'
  | executor {gen : Bool} {w w' : World C M} {c : C} {k : E → C} {o : Outcome C V X}
      (at_ : view c = .executor k) (rest : Settles strict gen w (k ex) o w') : Settles strict gen w c o w'
  | get {gen : Bool} {w w' : World C M} {c : C} {k : M → C} {o : Outcome C V X}
      (at_ : view c = .get k) (rest : Settles strict gen w (k w.mem) o w') : Settles strict gen w c o w'
  | set {gen : Bool} {w w' : World C M} {c k : C} {m : M} {o : Outcome C V X}
      (at_ : view c = .set m k) (rest : Settles strict gen { w with mem := m } k o w') :
      Settles strict gen w c o w'

end Settle

variable {C V X E M : Type} {view : C → Instr C V X E M} {ex : E}

/-- Direct evaluation, which awaits nothing plainly after `next`, is strict. -/
theorem Runs.settles {strict gen : Bool} {w w' : World C M} {c : C} {o : Outcome C V X}
    (runs : Runs view ex gen w c o w') : Settles view ex strict gen w c o w' := by
  induction runs generalizing strict with
  | ret at_ => exact .ret at_
  | throw at_ => exact .throw at_
  | yields at_ => exact .yields at_
  | discards at_ _ ih => exact .discards at_ ih
  | create at_ _ ih => exact .create at_ ih
  | @await _ _ _ _ _ body _ _ _ _ at_ there _ _ call rest =>
      have mode : (strict && (Obj.fresh body).pulled) = false := Bool.and_false strict
      exact .await at_ there (.inl rfl) (mode ▸ call) rest
  | next at_ there left _ _ pull rest => exact .next at_ there left pull rest
  | done at_ finished there _ ih => exact .done at_ finished there ih
  | executor at_ _ ih => exact .executor at_ ih
  | get at_ _ ih => exact .get at_ ih
  | set at_ _ ih => exact .set at_ ih

/-! ### Who is at work stays at work -/

/-- The coroutine is at work, and what is not born is nothing. -/
structure Grounded (w : World C M) (j : Nat) : Prop where
  busy : w.objs j = some .busy
  unborn : ∀ i, w.born ≤ i → w.objs i = none

theorem Grounded.lt_born {w : World C M} {j g : Nat} {obj : Obj C} (grounded : Grounded w j)
    (there : w.objs g = some obj) : g < w.born := by
  apply Nat.lt_of_not_le
  intro later
  cases (grounded.unborn g later).symm.trans there

/-- An object is written that is not that of the coroutine. -/
theorem Grounded.put {w : World C M} {j g : Nat} {obj : Obj C} (grounded : Grounded w j)
    (there : w.objs g = some obj) (other : j ≠ g) (obj' : Obj C) : Grounded (w.put g obj') j := by
  constructor
  · rw [World.put_of_ne w other]
    exact grounded.busy
  · intro i later
    have after : i ≠ g := Nat.ne_of_gt (Nat.lt_of_lt_of_le (grounded.lt_born there) later)
    rw [World.put_of_ne w after]
    exact grounded.unborn i later

theorem Grounded.call {w : World C M} {j g : Nat} {obj : Obj C} (grounded : Grounded w j)
    (there : w.objs g = some obj) : Grounded (w.put g .busy) g := by
  constructor
  · exact World.put_self w g .busy
  · intro i later
    have after : i ≠ g := Nat.ne_of_gt (Nat.lt_of_lt_of_le (grounded.lt_born there) later)
    rw [World.put_of_ne w after]
    exact grounded.unborn i later

theorem Grounded.create {w : World C M} {j : Nat} (grounded : Grounded w j) (body : C) :
    Grounded (w.create body) j := by
  have other : j ≠ w.born := Nat.ne_of_lt (grounded.lt_born grounded.busy)
  constructor
  · exact (World.put_of_ne w other _).trans grounded.busy
  · intro i later
    have after : i ≠ w.born := Nat.ne_of_gt later
    exact (World.put_of_ne w after _).trans (grounded.unborn i (Nat.le_of_succ_le later))

theorem ne_of_left {w : World C M} {j g : Nat} {obj : Obj C} {body : C} (grounded : Grounded w j)
    (there : w.objs g = some obj) (left : obj.Left body) : j ≠ g := by
  rintro rfl
  cases grounded.busy.symm.trans there
  rcases left with left | left <;> cases left

theorem Settles.grounded {strict gen : Bool} {w w' : World C M} {c : C} {o : Outcome C V X}
    (settles : Settles view ex strict gen w c o w') {j : Nat} (grounded : Grounded w j) :
    Grounded w' j := by
  induction settles generalizing j with
  | ret => exact grounded
  | throw => exact grounded
  | yields => exact grounded
  | discards _ _ ih => exact ih grounded
  | create _ _ ih => exact ih (grounded.create _)
  | await _ there left _ _ call rest =>
      have other := ne_of_left grounded there left
      have mid := call (grounded.put there other .busy)
      exact rest (mid.put (call (grounded.call there)).busy other .finished)
  | next _ there left _ _ pull rest =>
      have other := ne_of_left grounded there left
      have mid := pull (grounded.put there other .busy)
      exact rest (mid.put (pull (grounded.call there)).busy other _)
  | done _ _ _ _ ih => exact ih grounded
  | executor _ _ ih => exact ih grounded
  | get _ _ ih => exact ih grounded
  | set _ _ ih => exact ih ⟨grounded.busy, grounded.unborn⟩

/-! ### What is strict is done -/

/-- The stages where `stack` waits. -/
def Stage.Above (stack : Stack C V X) (s : Stage C V X M) : Prop :=
  ∃ w h c pre, s.state = .running w h c (pre ++ stack)

/-- Steps that are all taken while `stack` waits. -/
abbrev Stage.Steps (view : C → Instr C V X E M) (ex : E) (stack : Stack C V X) :
    Stage C V X M → Stage C V X M → Prop :=
  Reachable (fun s (_ : Unit) => Stage.step view ex s) fun s _ => s.Above stack

theorem Stage.above_self (w : World C M) (h : Nat) (c : C) (stack : Stack C V X) (stale : Nat → Bool) :
    Stage.Above stack ⟨.running w h c stack, stale⟩ := ⟨w, h, c, [], rfl⟩

theorem Stage.Above.tail {entry : Nat × Resume C V X} {stack : Stack C V X} {s : Stage C V X M}
    (above : s.Above (entry :: stack)) : s.Above stack := by
  obtain ⟨w, h, c, pre, same⟩ := above
  exact ⟨w, h, c, pre ++ [entry], by simp [same]⟩

theorem Stage.Steps.head {w : World C M} {h : Nat} {c : C} {stack : Stack C V X} {stale : Nat → Bool}
    {mid s' : Stage C V X M} (first : Stage.step view ex ⟨.running w h c stack, stale⟩ = some mid)
    (rest : Stage.Steps view ex stack mid s') :
    Stage.Steps view ex stack ⟨.running w h c stack, stale⟩ s' :=
  (Reachable.next .start (a := ()) (Stage.above_self w h c stack stale) first).trans rest

/-- A call is a run while the caller waits too. -/
theorem Stage.Steps.tail {entry : Nat × Resume C V X} {stack : Stack C V X} {s s' : Stage C V X M}
    (steps : Stage.Steps view ex (entry :: stack) s s') : Stage.Steps view ex stack s s' :=
  Reachable.mono (fun _ _ above => above.tail) steps

theorem Stage.step_await {w : World C M} {h g : Nat} {c body : C} {k : Except X V → C}
    {stack : Stack C V X} {stale : Nat → Bool} {obj : Obj C} (at_ : view c = .await g k)
    (there : w.objs g = some obj) (left : obj.Left body) :
    Stage.step view ex ⟨.running w h c stack, stale⟩ =
      some ⟨.running (w.put g .busy) g body ((h, .result k) :: stack), update stale g obj.pulled⟩ := by
  rcases left with rfl | rfl <;> simp only [Stage.step, at_, there, Obj.pulled]

theorem Stage.step_next {w : World C M} {h g : Nat} {c body : C} {k : Except X (Item V) → C}
    {stack : Stack C V X} {stale : Nat → Bool} {obj : Obj C} (at_ : view c = .next g k)
    (there : w.objs g = some obj) (left : obj.Left body) :
    Stage.step view ex ⟨.running w h c stack, stale⟩ =
      some ⟨.running (w.put g .busy) g body ((h, .gen g k) :: stack), stale⟩ := by
  have taken : State.body w g (.gen g k : Resume C V X) = some body := body_left.mpr ⟨obj, there, left⟩
  simp only [Stage.step, State.step, at_, State.call, taken, Option.map_some]

theorem Stage.step_done {w : World C M} {h g : Nat} {c : C} {k : Bool → C} {finished : Bool}
    {stack : Stack C V X} {stale : Nat → Bool} (at_ : view c = .done g k)
    (there : (finished = true ∧ w.objs g = some .finished) ∨
      (finished = false ∧ ∃ obj body, w.objs g = some obj ∧ obj.Left body)) :
    Stage.step view ex ⟨.running w h c stack, stale⟩ = some ⟨.running w h (k finished) stack, stale⟩ := by
  have answer := done_iff.mpr there
  simp only [Stage.step, State.step, at_, answer, Option.map_some]
  split
  · rename_i busy
    rcases there with ⟨-, there⟩ | ⟨-, obj, body, there, rfl | rfl⟩
    all_goals cases there.symm.trans busy
  · rfl

theorem generating_of_leave {w : World C M} {h : Nat} {v : V} {k : C} {stack : Stack C V X}
    {s' : State C V X M} (left : State.leave w h (.yielded v k) stack = some s') :
    stack.generating = true := by
  cases stack with
  | nil => cases left
  | cons entry rest =>
      obtain ⟨caller, resume⟩ := entry
      cases resume with
      | gen g k' => rfl
      | result k' => cases left
      | helper => cases left

/-- What a call leaves at the caller. -/
theorem Grounded.called {strict gen : Bool} {w w₁ : World C M} {j g : Nat} {body : C} {obj : Obj C}
    {o : Outcome C V X} (grounded : Grounded w j) (there : w.objs g = some obj) (left : obj.Left body)
    (call : Settles view ex strict gen (w.put g .busy) body o w₁) (obj' : Obj C) :
    Grounded (w₁.put g obj') j := by
  have other := ne_of_left grounded there left
  exact (call.grounded (grounded.put there other .busy)).put (call.grounded (grounded.call there)).busy other obj'

/-- What is evaluated strictly is what the machine does, up to where control goes back. -/
theorem Settles.steps {gen : Bool} {w w' : World C M} {c : C} {o : Outcome C V X}
    (settles : Settles view ex true gen w c o w') {h : Nat} {stack : Stack C V X} {stale : Nat → Bool}
    {s' : State C V X M} (grounded : Grounded w h) (mode : gen = (stack.generating || stale h))
    (left : State.leave w' h o stack = some s') :
    ∃ stale', Stage.Steps view ex stack ⟨.running w h c stack, stale⟩ ⟨s', stale'⟩ ∧
      ∀ j, Grounded w j → stale' j = stale j := by
  induction settles generalizing h stack stale s' with
  | ret at_ =>
      refine ⟨stale, Stage.Steps.head ?_ .start, fun _ _ => rfl⟩
      simp only [Stage.step, State.step, at_, left, Option.map_some]
  | throw at_ =>
      refine ⟨stale, Stage.Steps.head ?_ .start, fun _ _ => rfl⟩
      simp only [Stage.step, State.step, at_, left, Option.map_some]
  | yields at_ =>
      have generating := generating_of_leave left
      refine ⟨stale, Stage.Steps.head ?_ .start, fun _ _ => rfl⟩
      simp only [Stage.step, State.step, at_, generating, if_true, left, Option.map_some, Bool.true_eq_false,
        false_and, if_false]
  | discards at_ _ ih =>
      obtain ⟨plain, current⟩ := Bool.or_eq_false_iff.mp mode.symm
      obtain ⟨stale', steps, same⟩ := ih grounded mode left
      refine ⟨stale', Stage.Steps.head ?_ steps, same⟩
      simp only [Stage.step, State.step, at_, plain, current, Bool.false_eq_true, and_false, if_false,
        Option.map_some]
  | create at_ _ ih =>
      obtain ⟨stale', steps, same⟩ := ih (grounded.create _) mode left
      refine ⟨stale', Stage.Steps.head ?_ steps, fun j there => same j (there.create _)⟩
      simp only [Stage.step, State.step, at_, Option.map_some]
  | @await gen' w w₁ _ _ body g k obj r _ at_ there isLeft call _ ihCall ihRest =>
      have inner : (true && obj.pulled) =
          (Stack.generating ((h, (.result k : Resume C V X)) :: stack) || update stale g obj.pulled g) := by
        rw [update_self]
        rfl
      have back : State.leave w₁ g (.ended r) ((h, .result k) :: stack) =
          some (.running (w₁.put g .finished) h (k r) stack) := rfl
      obtain ⟨stale₁, called, same₁⟩ := ihCall (grounded.call there) inner back
      have kept : ∀ j, Grounded w j → stale₁ j = stale j := by
        intro j at_work
        have other := ne_of_left at_work there isLeft
        exact (same₁ j (at_work.put there other .busy)).trans (update_of_ne other _ _)
      have mode' : gen' = (stack.generating || stale₁ h) := by
        rw [kept h grounded]
        exact mode
      obtain ⟨stale', steps, same⟩ := ihRest (grounded.called there isLeft call .finished) mode' left
      refine ⟨stale', Stage.Steps.head (Stage.step_await at_ there isLeft) (called.tail.trans steps), ?_⟩
      exact fun j at_work => (same j (at_work.called there isLeft call .finished)).trans (kept j at_work)
  | @next gen' w w₁ _ _ body g k obj pulled _ at_ there isLeft pull _ ihPull ihRest =>
      have inner : true = (Stack.generating ((h, (.gen g k : Resume C V X)) :: stack) || stale g) := rfl
      have back : State.leave w₁ g pulled ((h, .gen g k) :: stack) =
          some (.running (w₁.put g pulled.obj) h (k pulled.item) stack) := rfl
      obtain ⟨stale₁, called, same₁⟩ := ihPull (grounded.call there) inner back
      have kept : ∀ j, Grounded w j → stale₁ j = stale j := by
        intro j at_work
        have other := ne_of_left at_work there isLeft
        exact same₁ j (at_work.put there other .busy)
      have mode' : gen' = (stack.generating || stale₁ h) := by
        rw [kept h grounded]
        exact mode
      obtain ⟨stale', steps, same⟩ := ihRest (grounded.called there isLeft pull pulled.obj) mode' left
      refine ⟨stale', Stage.Steps.head (Stage.step_next at_ there isLeft) (called.tail.trans steps), ?_⟩
      exact fun j at_work => (same j (at_work.called there isLeft pull pulled.obj)).trans (kept j at_work)
  | done at_ finished there _ ih =>
      obtain ⟨stale', steps, same⟩ := ih grounded mode left
      exact ⟨stale', Stage.Steps.head (Stage.step_done at_ there) steps, same⟩
  | executor at_ _ ih =>
      obtain ⟨stale', steps, same⟩ := ih grounded mode left
      refine ⟨stale', Stage.Steps.head ?_ steps, same⟩
      simp only [Stage.step, State.step, at_, Option.map_some]
  | get at_ _ ih =>
      obtain ⟨stale', steps, same⟩ := ih grounded mode left
      refine ⟨stale', Stage.Steps.head ?_ steps, same⟩
      simp only [Stage.step, State.step, at_, Option.map_some]
  | set at_ _ ih =>
      obtain ⟨stale', steps, same⟩ := ih ⟨grounded.busy, grounded.unborn⟩ mode left
      refine ⟨stale', Stage.Steps.head ?_ steps, fun j there => same j ⟨there.busy, there.unborn⟩⟩
      simp only [Stage.step, State.step, at_, Option.map_some]

/-! ### What is not strict stops -/

/-- The machine comes to where it has no step, while `stack` waits. -/
def Stage.Stops (view : C → Instr C V X E M) (ex : E) (stack : Stack C V X) (s : Stage C V X M) : Prop :=
  ∃ last, Stage.Steps view ex stack s last ∧ last.Above stack ∧ last.step view ex = none

theorem Stage.Stops.head {w : World C M} {h : Nat} {c : C} {stack : Stack C V X} {stale : Nat → Bool}
    {mid : Stage C V X M} (first : Stage.step view ex ⟨.running w h c stack, stale⟩ = some mid)
    (stops : Stage.Stops view ex stack mid) : Stage.Stops view ex stack ⟨.running w h c stack, stale⟩ := by
  obtain ⟨last, steps, above, stuck⟩ := stops
  exact ⟨last, Stage.Steps.head first steps, above, stuck⟩

theorem Stage.Stops.tail {entry : Nat × Resume C V X} {stack : Stack C V X} {s : Stage C V X M}
    (stops : Stage.Stops view ex (entry :: stack) s) : Stage.Stops view ex stack s := by
  obtain ⟨last, steps, above, stuck⟩ := stops
  exact ⟨last, steps.tail, above.tail, stuck⟩

theorem Stage.Stops.after {stack : Stack C V X} {s mid : Stage C V X M}
    (steps : Stage.Steps view ex stack s mid) (stops : Stage.Stops view ex stack mid) :
    Stage.Stops view ex stack s := by
  obtain ⟨last, rest, above, stuck⟩ := stops
  exact ⟨last, steps.trans rest, above, stuck⟩

/-- A coroutine that goes on by itself. -/
theorem goesOn_strict {gen : Bool} {w w' w₁ : World C M} {h : Nat} {c c₁ : C} {o : Outcome C V X}
    {stack : Stack C V X} {stale : Nat → Bool}
    (first : Stage.step view ex ⟨.running w h c stack, stale⟩ = some ⟨.running w₁ h c₁ stack, stale⟩)
    (rule : Settles view ex true gen w₁ c₁ o w' → Settles view ex true gen w c o w')
    (rest : Settles view ex true gen w₁ c₁ o w' ∨
      Stage.Stops view ex stack ⟨.running w₁ h c₁ stack, stale⟩) :
    Settles view ex true gen w c o w' ∨ Stage.Stops view ex stack ⟨.running w h c stack, stale⟩ := by
  rcases rest with strict | stops
  · exact .inl (rule strict)
  · exact .inr (stops.head first)

theorem Settles.strict_or_stops {gen : Bool} {w w' : World C M} {c : C} {o : Outcome C V X}
    (settles : Settles view ex false gen w c o w') {h : Nat} {stack : Stack C V X} {stale : Nat → Bool}
    (grounded : Grounded w h) (mode : stack.generating = gen) :
    Settles view ex true (gen || stale h) w c o w' ∨
      Stage.Stops view ex stack ⟨.running w h c stack, stale⟩ := by
  induction settles generalizing h stack stale with
  | ret at_ => exact .inl (.ret at_)
  | throw at_ => exact .inl (.throw at_)
  | yields at_ => exact .inl (.yields at_)
  | @discards w _ c k _ _ at_ _ ih =>
      cases current : stale h with
      | true =>
          -- the value would be left at an awaitable that is no more
          refine .inr ⟨_, .start, Stage.above_self w h c stack stale, ?_⟩
          simp only [Stage.step, at_, mode, current, and_self, if_true]
      | false =>
          have first : Stage.step view ex ⟨.running w h c stack, stale⟩ = some ⟨.running w h k stack, stale⟩ := by
            simp only [Stage.step, State.step, at_, mode, current, Bool.false_eq_true, and_false, if_false,
              Option.map_some]
          have rest : _ ∨ Stage.Stops view ex stack ⟨.running w h k stack, stale⟩ := ih grounded mode
          rw [current] at rest
          exact goesOn_strict first (.discards at_) rest
  | create at_ _ ih =>
      refine goesOn_strict ?_ (.create at_) (ih (grounded.create _) mode)
      simp only [Stage.step, State.step, at_, Option.map_some]
  | @await gen' w w₁ _ _ body g k obj r _ at_ there isLeft call _ ihCall ihRest =>
      have first : Stage.step view ex ⟨.running w h _ stack, stale⟩ = _ := Stage.step_await at_ there isLeft
      have strict : _ ∨ Stage.Stops view ex ((h, .result k) :: stack)
          ⟨.running (w.put g .busy) g body ((h, .result k) :: stack), update stale g obj.pulled⟩ :=
        ihCall (grounded.call there) rfl
      rw [Bool.false_and, Bool.false_or, update_self] at strict
      rcases strict with strict | stops
      · have back : State.leave w₁ g (.ended r) ((h, .result k) :: stack) =
            some (.running (w₁.put g .finished) h (k r) stack) := rfl
        have inner : obj.pulled =
            (Stack.generating ((h, (.result k : Resume C V X)) :: stack) || update stale g obj.pulled g) := by
          rw [update_self]
          rfl
        obtain ⟨stale₁, called, same⟩ := strict.steps (grounded.call there) inner back
        have kept : stale₁ h = stale h := by
          have other := ne_of_left grounded there isLeft
          exact (same h (grounded.put there other .busy)).trans (update_of_ne other _ _)
        have rest : _ ∨ Stage.Stops view ex stack ⟨.running (w₁.put g .finished) h (k r) stack, stale₁⟩ :=
          ihRest (grounded.called there isLeft call .finished) mode
        rw [kept] at rest
        rcases rest with rest | stops
        · exact .inl (.await at_ there isLeft strict rest)
        · exact .inr ((stops.after called.tail).head first)
      · exact .inr (stops.tail.head first)
  | @next gen' w w₁ _ _ body g k obj pulled _ at_ there isLeft pull _ ihPull ihRest =>
      have first : Stage.step view ex ⟨.running w h _ stack, stale⟩ = _ := Stage.step_next at_ there isLeft
      have strict : _ ∨ Stage.Stops view ex ((h, .gen g k) :: stack)
          ⟨.running (w.put g .busy) g body ((h, .gen g k) :: stack), stale⟩ :=
        ihPull (grounded.call there) rfl
      rw [Bool.true_or] at strict
      rcases strict with strict | stops
      · have back : State.leave w₁ g pulled ((h, .gen g k) :: stack) =
            some (.running (w₁.put g pulled.obj) h (k pulled.item) stack) := rfl
        have inner : true = (Stack.generating ((h, (.gen g k : Resume C V X)) :: stack) || stale g) := rfl
        obtain ⟨stale₁, called, same⟩ := strict.steps (grounded.call there) inner back
        have kept : stale₁ h = stale h :=
          same h (grounded.put there (ne_of_left grounded there isLeft) .busy)
        have rest : _ ∨ Stage.Stops view ex stack
            ⟨.running (w₁.put g pulled.obj) h (k pulled.item) stack, stale₁⟩ :=
          ihRest (grounded.called there isLeft pull pulled.obj) mode
        rw [kept] at rest
        rcases rest with rest | stops
        · exact .inl (.next at_ there isLeft strict rest)
        · exact .inr ((stops.after called.tail).head first)
      · exact .inr (stops.tail.head first)
  | done at_ finished there _ ih =>
      exact goesOn_strict (Stage.step_done at_ there) (.done at_ finished there) (ih grounded mode)
  | executor at_ _ ih =>
      refine goesOn_strict ?_ (.executor at_) (ih grounded mode)
      simp only [Stage.step, State.step, at_, Option.map_some]
  | get at_ _ ih =>
      refine goesOn_strict ?_ (.get at_) (ih grounded mode)
      simp only [Stage.step, State.step, at_, Option.map_some]
  | set at_ _ ih =>
      refine goesOn_strict ?_ (.set at_) (ih ⟨grounded.busy, grounded.unborn⟩ mode)
      simp only [Stage.step, State.step, at_, Option.map_some]

/-! ### The promises -/

/-- The objects of the frames. -/
def Machine.world (κ : Machine C V X E M) : World C M := ⟨fun j => (κ.frames j).map Frame.obj, κ.born, κ.mem⟩

variable {κ : Machine C V X E M} {w : World C M} {h : Nat} {c : C} {stack : Stack C V X}
  {stale : Nat → Bool} {m : M} {body : C}

theorem Stands.world (stands : Stands ex κ ⟨.running w h c stack, stale⟩) : κ.world = w := by
  obtain ⟨⟨κ₀, like, links, -, rep⟩, -⟩ := stands
  have objs : ∀ j, (κ.frames j).map Frame.obj = w.objs j := by
    intro j
    rw [(rep.frames.shows j).obj]
    have alike := like.frames j
    generalize κ.frames j = frame at alike
    generalize κ₀.frames j = frame₀ at alike
    cases alike with
    | none => rfl
    | some alike => simp only [Option.map_some, Frame.obj, alike.point]
  obtain ⟨objs', born, mem⟩ := w
  simp only [Machine.world, World.mk.injEq]
  exact ⟨funext objs, like.born.symm.trans rep.frames.born, like.mem.symm.trans rep.frames.mem⟩

theorem Stands.running (stands : Stands ex κ ⟨.running w h c stack, stale⟩) : κ.running = some (h, c) := by
  obtain ⟨⟨κ₀, like, links, -, rep⟩, -⟩ := stands
  exact like.running.symm.trans rep.running

theorem Stands.of_running {s : Stage C V X M} (stands : Stands ex κ s) (running : κ.running = some (h, c)) :
    ∃ stack, s = ⟨.running κ.world h c stack, s.stale⟩ := by
  obtain ⟨state, stale⟩ := s
  cases state with
  | returned w r =>
      obtain ⟨⟨κ₀, like, represents⟩, -⟩ := stands
      cases (running.symm.trans like.running.symm).trans represents.2.1
  | running w h' c' stack =>
      cases stands.running.symm.trans running
      exact ⟨stack, by rw [stands.world]⟩

theorem Stands.grounded (stands : Stands ex κ ⟨.running w h c stack, stale⟩) : Grounded w h := by
  obtain ⟨⟨κ₀, like, links, -, rep⟩, -⟩ := stands
  constructor
  · exact rep.busy List.mem_cons_self
  · intro i later
    rw [← rep.frames.born] at later
    rw [(rep.frames.shows i).obj, rep.frames.unborn i later]
    rfl

/-- Who waits does not run. -/
theorem Stands.waits {s : Stage C V X M} {resume : Resume C V X} (stands : Stands ex κ s)
    (above : s.Above ((h, resume) :: stack)) (c : C) : κ.running ≠ some (h, c) := by
  obtain ⟨w, h', c', pre, same⟩ := above
  obtain ⟨state, stale⟩ := s
  cases same
  intro running
  cases stands.running.symm.trans running
  obtain ⟨⟨κ₀, like, links, entries, rep⟩, -⟩ := stands
  apply (List.nodup_cons.mp rep.callers).1
  have callers : links.map Link.caller = (links.map Link.entry).map Prod.fst := by
    rw [List.map_map]
    rfl
  rw [callers, ← entries]
  simp

/-- What the stage does the machine does. -/
theorem Stands.path {s s' : Stage C V X M} {above : Stage C V X M → Prop} {along : Machine C V X E M → Prop}
    (implied : ∀ κ s, Stands ex κ s → above s → along κ) (stands : Stands ex κ s)
    (steps : Reachable (fun s (_ : Unit) => Stage.step view ex s) (fun s _ => above s) s s') :
    ∃ κ', Reachable (fun κ (_ : Unit) => κ.step view) (fun κ _ => along κ) κ κ' ∧ Stands ex κ' s' := by
  induction steps with
  | start => exact ⟨κ, .start, stands⟩
  | next _ here stepped ih =>
      obtain ⟨κ₁, reached, stands₁⟩ := ih
      have same : Option.Rel (Stands ex) (κ₁.step view) (Stage.step view ex _) := stands₁.step
      rw [stepped] at same
      generalize next : κ₁.step view = after at same
      cases same with
      | some stands' => exact ⟨_, .next (a := ()) reached (implied _ _ stands₁ here) next, stands'⟩

theorem stands_start (ex : E) (m : M) (body : C) :
    Stands ex (.coExecute ex m body : Machine C V X E M) ⟨.start m body, fun _ => false⟩ := by
  constructor
  · exact ⟨_, .refl _, represents_start m body⟩
  · intro j busy
    by_cases root : j = 1
    · exact .inl root
    · by_cases helper : j = 0
      · exact .inr (by simp [helper])
      · simp [World.start, update_of_ne root, update_of_ne helper] at busy

/-- Every state is at some stage. -/
theorem stands_of_reachable
    (reached : Reachable (fun κ (_ : Unit) => κ.step view) Free (.coExecute ex m body) κ) :
    ∃ s, Stands ex κ s := by
  induction reached with
  | start => exact ⟨_, stands_start ex m body⟩
  | next _ _ stepped ih =>
      obtain ⟨s, stands⟩ := ih
      have same : Option.Rel (Stands ex) (Machine.step view _) (s.step view ex) := stands.step
      rw [stepped] at same
      generalize s.step view ex = after at same
      cases same with
      | some stands' => exact ⟨_, stands'⟩

/-! ### A plain await -/

/-- The await has come to its end: `h` goes on with what the coroutine `g` came to. -/
def Machine.Delivers (view : C → Instr C V X E M) (κ : Machine C V X E M) (h g : Nat) (c' : C)
    (w' : World C M) : Prop :=
  ∃ κ', Reachable (fun κ (_ : Unit) => κ.step view) Free κ κ' ∧ κ'.running = some (h, c') ∧
    κ'.world = w'.put g .finished

theorem Stands.delivers_iff {s : Stage C V X M} (stands : Stands ex κ s) (running : κ.running = some (h, c))
    {g : Nat} {k : Except X V → C} {obj : Obj C} {rest : C} {r : Except X V} {w' : World C M}
    (at_ : view c = .await g k) (there : κ.world.objs g = some obj) (left : obj.Left rest)
    (settles : Settles view ex false false (κ.world.put g .busy) rest (.ended r) w') :
    κ.Delivers view h g (k r) w' ↔
      Settles view ex true obj.pulled (κ.world.put g .busy) rest (.ended r) w' := by
  obtain ⟨stack, same⟩ := stands.of_running running
  rw [same] at stands
  -- the coroutine begins
  have first : Stage.step view ex ⟨.running κ.world h c stack, s.stale⟩ = _ := Stage.step_await at_ there left
  have begins : Option.Rel (Stands ex) (κ.step view) _ := stands.step
  rw [first] at begins
  generalize begun : κ.step view = next at begins
  cases begins with
  | @some κ₁ _ stands₁ =>
      have grounded := stands.grounded.call there
      have strict : _ ∨ Stage.Stops view ex ((h, .result k) :: stack)
          ⟨.running (κ.world.put g .busy) g rest ((h, .result k) :: stack), update s.stale g obj.pulled⟩ :=
        settles.strict_or_stops grounded rfl
      rw [Bool.false_or, update_self] at strict
      constructor
      · rintro ⟨κ', reached, running', world'⟩
        rcases strict with strict | ⟨last, steps, above, stuck⟩
        · exact strict
        · -- the caller waits for ever
          exfalso
          obtain ⟨κ₂, path, stands₂⟩ := stands₁.path (fun _ _ stands above => stands.waits above) steps
          have stopped : Option.Rel (Stands ex) (κ₂.step view) (last.step view ex) := stands₂.step
          rw [stuck] at stopped
          generalize ended : κ₂.step view = after at stopped
          cases stopped
          rcases reached.head_cases with rfl | ⟨_, κ₁', -, begun', later⟩
          · rw [world', World.put_self] at there
            cases there
            rcases left with left | left <;> cases left
          · cases begun.symm.trans begun'
            have waits := Reachable.along (fun _ _ _ => rfl) path (fun _ => ended) (stands₂.waits above) later
            exact waits _ running'
      · intro strict
        have inner : obj.pulled =
            (Stack.generating ((h, (.result k : Resume C V X)) :: stack) || update s.stale g obj.pulled g) := by
          rw [update_self]
          rfl
        have back : State.leave w' g (.ended r) ((h, .result k) :: stack) =
            some (.running (w'.put g .finished) h (k r) stack) := rfl
        obtain ⟨stale', steps, -⟩ := strict.steps grounded inner back
        obtain ⟨κ', path, stands'⟩ := stands₁.path (fun _ _ _ _ => trivial) steps
        exact ⟨κ', (Reachable.next .start (a := ()) trivial begun).trans path, stands'.running, stands'.world⟩

/-- A coroutine that has not begun, and whose body direct evaluation brings to its end. -/
theorem delivers_of_runs {g : Nat} {k : Except X V → C} {rest : C} {r : Except X V} {w' : World C M}
    (reached : Reachable (fun κ (_ : Unit) => κ.step view) Free (.coExecute ex m body) κ)
    (running : κ.running = some (h, c)) (at_ : view c = .await g k)
    (there : κ.world.objs g = some (.fresh rest))
    (runs : Runs view ex false (κ.world.put g .busy) rest (.ended r) w') :
    κ.Delivers view h g (k r) w' := by
  obtain ⟨s, stands⟩ := stands_of_reachable reached
  exact (stands.delivers_iff running at_ there (.inl rfl) runs.settles).mpr runs.settles

/-! ### `m_generated` -/

/-- If the coroutine that runs has `m_generated`, then who waits for it has called `next`. -/
def Machine.Generates (κ : Machine C V X E M) : Prop :=
  ∀ h c f, κ.running = some (h, c) → κ.frames h = some f → f.promise.generated.isSome = true →
    ∃ p caller a k, f.promise.prev = some p ∧ κ.frames p = some caller ∧
      caller.point = .awaiting a (.gen h k)

/-- What is awaited plainly is not suspended at a value that `next` has returned. -/
def Machine.AwaitsFresh (view : C → Instr C V X E M) (κ : Machine C V X E M) : Prop :=
  ∀ h c g k f rest, κ.running = some (h, c) → view c = .await g k → κ.frames g = some f →
    f.point ≠ .yielded rest

theorem Stands.generates {s : State C V X M} (stands : Stands ex κ ⟨s, fun _ => false⟩) : κ.Generates := by
  intro h c f running there generated
  obtain ⟨stack, same⟩ := stands.of_running running
  rw [same] at stands
  obtain ⟨⟨κ₀, like, links, -, rep⟩, -⟩ := stands
  have linked := rep.linked
  cases links with
  | nil => exact linked.elim
  | cons l rest =>
      obtain ⟨f₀, caller₀, there₀, promise, -, waits₀, point, calls, -⟩ := linked
      obtain ⟨f', there', alike⟩ := like.frame there₀
      obtain ⟨caller, waits, alike'⟩ := like.frame waits₀
      cases there.symm.trans there'
      rw [← alike.generated rfl, promise] at generated
      obtain ⟨p, a, resume⟩ := l
      cases resume with
      | result k => cases generated
      | helper => cases generated
      | gen g k =>
          obtain rfl : g = h := calls
          exact ⟨p, caller, a, k, by rw [← alike.prev, promise], waits, alike'.point.symm.trans point⟩

/-- A plain await is all that makes a coroutine stale. -/
theorem Stage.step_stale {s s' : Stage C V X M} (stepped : s.step view ex = some s') :
    s'.stale = s.stale ∨ ∃ w h c stack g k obj rest, s.state = .running w h c stack ∧
      view c = .await g k ∧ w.objs g = some obj ∧ obj.Left rest ∧ s'.stale = update s.stale g obj.pulled := by
  obtain ⟨state, stale⟩ := s
  cases state with
  | returned w r => cases stepped
  | running w h c stack =>
      have mapped : ∀ o : Option (State C V X M), o.map (fun s₁ => (⟨s₁, stale⟩ : Stage C V X M)) = some s' →
          s'.stale = stale := by
        intro o same
        obtain ⟨s₁, -, rfl⟩ := Option.map_eq_some_iff.mp same
        rfl
      simp only [Stage.step] at stepped
      split at stepped
      · rename_i g k at_
        split at stepped
        · rename_i rest there
          cases stepped
          exact .inr ⟨w, h, c, stack, g, k, _, rest, rfl, at_, there, .inl rfl, rfl⟩
        · rename_i rest there
          cases stepped
          exact .inr ⟨w, h, c, stack, g, k, _, rest, rfl, at_, there, .inr rfl, rfl⟩
        · cases stepped
      · split at stepped
        · cases stepped
        · exact .inl (mapped _ stepped)
      · split at stepped
        · split at stepped
          · cases stepped
          · cases stepped
            exact .inl rfl
        · exact .inl (mapped _ stepped)
      · exact .inl (mapped _ stepped)

theorem Machine.world_yielded {g : Nat} {k : C} :
    κ.world.objs g = some (.yielded k) ↔ ∃ f, κ.frames g = some f ∧ f.point = .yielded k := by
  simp only [Machine.world, Option.map_eq_some_iff]
  apply exists_congr
  intro f
  apply and_congr_right
  intro _
  cases point : f.point <;> simp [Frame.obj, point]

/-- A coroutine that is stale runs, and who waits for it awaits plainly. -/
theorem Stands.not_generates {g : Nat} {k : Except X V → C} (stands : Stands ex κ
    ⟨.running w g c ((h, .result k) :: stack), update stale g true⟩) : ¬ κ.Generates := by
  intro generates
  have running := stands.running
  obtain ⟨⟨κ₀, like, links, entries, rep⟩, -⟩ := stands
  have linked := rep.linked
  cases links with
  | nil => exact linked.elim
  | cons l rest =>
      obtain ⟨f₀, caller₀, there₀, promise, -, waits₀, point, -, -⟩ := linked
      obtain ⟨f, there, alike⟩ := like.frame there₀
      obtain ⟨caller, waits, alike'⟩ := like.frame waits₀
      obtain ⟨p, caller', a, k', prev, there', point'⟩ :=
        generates g c f running there (alike.dangling (update_self _ _ _)).1
      rw [← alike.prev, promise] at prev
      cases prev
      cases waits.symm.trans there'
      obtain ⟨p, a', resume⟩ := l
      obtain ⟨entry, -⟩ := List.cons.inj entries
      cases entry
      cases (point.symm.trans alike'.point).trans point'

/-- After a step all is as it should be exactly if it does not await plainly what was pulled. -/
theorem Stands.generates_iff {s : State C V X M} {κ' : Machine C V X E M}
    (stands : Stands ex κ ⟨s, fun _ => false⟩) (stepped : κ.step view = some κ') :
    (κ'.Generates ↔ κ.AwaitsFresh view) ∧ (κ'.Generates → ∃ s', Stands ex κ' ⟨s', fun _ => false⟩) := by
  have same : Option.Rel (Stands ex) (κ.step view) (Stage.step view ex ⟨s, fun _ => false⟩) := stands.step
  rw [stepped] at same
  generalize next : Stage.step view ex ⟨s, fun _ => false⟩ = after at same
  cases same with
  | @some _ s' stands' =>
      by_cases fresh : κ.AwaitsFresh view
      · have still : s'.stale = fun _ => false := by
          rcases Stage.step_stale next with same | ⟨w, h, c, stack, g, k, obj, rest, rfl, at_, there, left, stale⟩
          · exact same
          · rcases left with rfl | rfl
            · rw [stale]
              exact update_eq_self_iff.mpr rfl
            · rw [← stands.world] at there
              obtain ⟨f, frame, point⟩ := Machine.world_yielded.mp there
              exact absurd point (fresh h c g k f rest stands.running at_ frame)
        obtain ⟨state', stale'⟩ := s'
        cases still
        exact ⟨iff_of_true stands'.generates fresh, fun _ => ⟨state', stands'⟩⟩
      · have broken : ¬ κ'.Generates := by
          simp only [Machine.AwaitsFresh, not_forall, not_not] at fresh
          obtain ⟨h, c, g, k, f, rest, running, at_, frame, point⟩ := fresh
          obtain ⟨stack, same⟩ := stands.of_running running
          cases same
          have there := Machine.world_yielded.mpr ⟨f, frame, point⟩
          rw [Stage.step_await at_ there (.inr rfl)] at next
          cases next
          exact stands'.not_generates
        exact ⟨iff_of_false broken fresh, fun generates => absurd generates broken⟩

theorem Stands.enabled {s : Stage C V X M} (stands : Stands ex κ s) (broken : ¬ κ.AwaitsFresh view) :
    ∃ κ', κ.step view = some κ' := by
  simp only [Machine.AwaitsFresh, not_forall, not_not] at broken
  obtain ⟨h, c, g, k, f, rest, running, at_, frame, point⟩ := broken
  obtain ⟨stack, same⟩ := stands.of_running running
  have there := Machine.world_yielded.mpr ⟨f, frame, point⟩
  have both : Option.Rel (Stands ex) (κ.step view) (s.step view ex) := stands.step
  rw [same, Stage.step_await at_ there (.inr rfl)] at both
  generalize κ.step view = next at both ⊢
  cases both with
  | some => exact ⟨_, rfl⟩

/-- How far a plain await discards what is yielded. -/
structure Discards (view : C → Instr C V X E M) (ex : E) (m : M) (body : C) : Prop where
  /-- What is left of the coroutine is run to its end, and what it returns or throws delivered,
  exactly if no coroutine yields that is awaited plainly after `next`. -/
  delivers : ∀ (κ : Machine C V X E M) (h g : Nat) (c rest : C) (k : Except X V → C) (obj : Obj C)
    (r : Except X V) (w' : World C M),
    Reachable (fun κ (_ : Unit) => κ.step view) Free (.coExecute ex m body) κ →
    κ.running = some (h, c) → view c = .await g k → κ.world.objs g = some obj → obj.Left rest →
    Settles view ex false false (κ.world.put g .busy) rest (.ended r) w' →
    (κ.Delivers view h g (k r) w' ↔
      Settles view ex true obj.pulled (κ.world.put g .busy) rest (.ended r) w')
  /-- In a run `m_generated` is what it should be exactly if nothing is awaited plainly while it is
  suspended at a value that `next` has returned. -/
  generated : ∀ steps : List Unit,
    (∀ before after (κ : Machine C V X E M), before ++ after = steps →
      run (fun κ (_ : Unit) => κ.step view) (.coExecute ex m body) before = some κ → κ.Generates) ↔
    Meets (fun κ (_ : Unit) => Machine.step view κ) (fun κ _ => κ.AwaitsFresh view) (.coExecute ex m body)
      steps

/-- **When what a generator yields is thrown away.** A plain await runs what is left of a coroutine
to its end and delivers how it ended, exactly if nothing yields on the way that is awaited plainly
after a `next`. In any run `m_generated` is what the comments say exactly if nothing is awaited
plainly while it is suspended at a value that `next` has returned. -/
theorem awaits_discard (view : C → Instr C V X E M) (ex : E) (m : M) (body : C) :
    Discards view ex m body := by
  constructor
  · intro κ h g c rest k obj r w' reached running at_ there left settles
    obtain ⟨s, stands⟩ := stands_of_reachable reached
    exact stands.delivers_iff running at_ there left settles
  · intro steps
    refine @System.holds_iff_meets _ _ (fun κ (_ : Unit) => Machine.step view κ) (fun κ _ => κ.AwaitsFresh view)
      (.coExecute ex m body) (fun κ => ∃ s, Stands ex κ ⟨s, fun _ => false⟩) _ ⟨_, stands_start ex m body⟩
      (stands_start ex m body).generates ?_ ?_ ?_ steps
    · intro κ _ κ' ⟨s, stands⟩ generates stepped
      exact (stands.generates_iff stepped).2 generates
    · intro κ _ κ' ⟨s, stands⟩ _ stepped
      exact (stands.generates_iff stepped).1
    · intro κ _ ⟨s, stands⟩ broken
      exact stands.enabled broken

/-- A generator that yields twice: the coroutine calls `next` once, and then awaits it. -/
def twiceView : Nat → Instr Nat Nat Unit Unit Unit
  | 0 => .create 4 fun _ => 1
  | 1 => .next 2 fun _ => 2
  | 2 => .await 2 fun _ => 3
  | 3 => .ret 0
  | 4 => .yield 7 5
  | 5 => .yield 8 6
  | _ => .ret 9

/-- It is never resumed. -/
theorem not_delivers :
    ¬ ∀ (view : Nat → Instr Nat Nat Unit Unit Unit) (κ : Machine Nat Nat Unit Unit Unit) (h g c rest : Nat)
      (k : Except Unit Nat → Nat) (obj : Obj Nat) (r : Except Unit Nat) (w' : World Nat Unit),
      Reachable (fun κ (_ : Unit) => κ.step view) Free (.coExecute () () 0) κ →
      κ.running = some (h, c) → view c = .await g k → κ.world.objs g = some obj → obj.Left rest →
      Settles view () false false (κ.world.put g .busy) rest (.ended r) w' →
      κ.Delivers view h g (k r) w' := by
  intro always
  have rest : ∀ w : World Nat Unit, Settles twiceView () false false w 5 (.ended (.ok 9)) w :=
    fun w => .discards rfl (.ret rfl)
  obtain ⟨κ', reached, running, -⟩ := always twiceView _ 1 2 2 5 _ (.yielded 5) _ _
    (System.reachable_of_run [(), (), ()] rfl) rfl rfl rfl (.inr rfl) (rest _)
  rcases reached.head_cases with rfl | ⟨_, κ₁, -, begun, later⟩
  · cases running
  · cases begun
    rcases later.head_cases with rfl | ⟨_, κ₂, -, stuck, -⟩
    · cases running
    · cases stuck

end AlpacaCore.Xec
