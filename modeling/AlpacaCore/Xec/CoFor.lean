import AlpacaCore.Xec.Stack

/-!
`co_for`.

The macro awaits `make_coro_iterator` of a generator, and then, for as long as the iterator is
not done, runs the body of the loop and awaits the iterator's `next`. Both await `next` of the
generator in a coroutine of their own. Its result stands for the iterator's `value` here.
-/

namespace AlpacaCore.Xec

open AlpacaCore.System (run run_cons reachable_of_run)

variable {C V X E M : Type} {view : C → Instr C V X E M} {ex : E}

/-- The body of `make_coro_iterator` or of `coro_iterator::next`. -/
def Forwards (view : C → Instr C V X E M) (g : Nat) (pack : Item V → V) (body : C) : Prop :=
  ∃ k, view body = .next g k ∧ (∀ item, view (k (.ok item)) = .ret (pack item)) ∧
    ∀ x, view (k (.error x)) = .throw x

/-- The iterator is made or advanced by the coroutine, and asked whether it is done. -/
def Turns (view : C → Instr C V X E M) (g : Nat) (pack : Item V → V) (body : V → C) (after : C)
    (thrown : X → C) (c coro : C) : Prop :=
  ∃ created awaited, view c = .create coro created ∧ (∀ n, view (created n) = .await n awaited) ∧
    (∀ x, awaited (.error x) = thrown x) ∧
    ∀ item, ∃ asked, view (awaited (.ok (pack item))) = .done g asked ∧ asked true = after ∧
      ∀ v, item = .yielded v → asked false = body v

/-- The code of `co_for (it, g) body`. -/
structure CoFor (view : C → Instr C V X E M) where
  g : Nat
  /-- the iterator, as the value of a coroutine -/
  pack : Item V → V
  /-- the body of the loop, for what `*it` is -/
  body : V → C
  after : C
  thrown : X → C
  makeCoroIterator : C
  next : C
  start : C
  /-- the end of the body of the loop -/
  again : C
  makes : Forwards view g pack makeCoroIterator
  advances : Forwards view g pack next
  starts : Turns view g pack body after thrown start makeCoroIterator
  turns : Turns view g pack body after thrown again next

/-- Where the loop goes with what `next` of the generator has given. -/
def CoFor.goesOn (loop : CoFor view) : Except X (Item V) → C
  | .ok (.yielded v) => loop.body v
  | .ok (.returned _) => loop.after
  | .error x => loop.thrown x

/-- `next` is called of the generator by a coroutine that is made for it. -/
def PullBy (view : C → Instr C V X E M) (ex : E) (coro : C) (w : World C M) (g : Nat)
    (item : Except X (Item V)) (w' : World C M) : Prop :=
  ∃ w₁, Pull view ex ((w.create coro).put w.born .busy) g item w₁ ∧ w' = w₁.put w.born .finished

/-- It is not something the generator has yielded. -/
def isLast : Except X (Item V) → Bool
  | .ok (.yielded _) => false
  | _ => true

section Pulling

variable {w w' : World C M} {g : Nat} {item : Except X (Item V)}

theorem Pull.not_busy (pull : Pull view ex w g item w') : w.objs g ≠ some .busy := by
  obtain ⟨obj, body, pulled, w₁, there, left, -⟩ := pull
  rintro busy
  cases there.symm.trans busy
  rcases left with left | left <;> cases left

/-- A generator is done from the `next` on that has not given something it has yielded. -/
theorem Pull.done (pull : Pull view ex w g item w') :
    State.done w' g = some (isLast item) := by
  obtain ⟨obj, body, pulled, w₁, -, -, -, rfl, rfl⟩ := pull
  have left : (w₁.put g pulled.obj).objs g = some pulled.obj := Function.update_self _ _ _
  rw [State.done, left]
  cases pulled with
  | yielded v k => rfl
  | ended r => cases r <;> rfl

theorem PullBy.done {coro : C} (pull : PullBy view ex coro w g item w') :
    State.done w' g = some (isLast item) := by
  obtain ⟨w₁, pull, rfl⟩ := pull
  have other : g ≠ w.born := by
    rintro rfl
    exact pull.not_busy (Function.update_self _ _ _)
  have same : (w₁.put w.born .finished).objs g = w₁.objs g := Function.update_of_ne other _ _
  rw [← pull.done, State.done, State.done, same]

theorem Forwards.runs_iff {pack : Item V → V} {coro : C} {r : Except X V}
    (forwards : Forwards view g pack coro) : Runs view ex false w coro (.ended r) w' ↔
      ∃ item, Pull view ex w g item w' ∧ r = item.map pack := by
  obtain ⟨k, next, ok, error⟩ := forwards
  have ends : ∀ (item : Except X (Item V)) (w₁ : World C M),
      Runs view ex false w₁ (k item) (.ended r) w' ↔ r = item.map pack ∧ w' = w₁ := by
    intro item w₁
    cases item with
    | ok item => simp [Xec.runs_iff, ok, Except.map]
    | error x => simp [Xec.runs_iff, error, Except.map]
  rw [Xec.runs_iff, next]
  simp only [ends]
  constructor
  · rintro ⟨item, w₁, pull, rfl, rfl⟩
    exact ⟨item, pull, rfl⟩
  · rintro ⟨item, pull, rfl⟩
    exact ⟨item, w', pull, rfl, rfl⟩

end Pulling

namespace CoFor

variable {loop : CoFor view} {w w' : World C M} {c coro : C}

theorem goesOn_eq {asked : Bool → C} {item : Item V} (after : asked true = loop.after)
    (body : ∀ v, item = .yielded v → asked false = loop.body v) :
    asked (isLast (X := X) (.ok item)) = loop.goesOn (.ok item) := by
  cases item with
  | yielded v => exact body v rfl
  | returned v => exact after

/-- At each turn the loop goes on with what `next` gives. -/
theorem turns_iff {gen : Bool} {o : Outcome C V X}
    (turns : Turns view loop.g loop.pack loop.body loop.after loop.thrown c coro)
    (forwards : Forwards view loop.g loop.pack coro) : Runs view ex gen w c o w' ↔
      ∃ item w₁, PullBy view ex coro w loop.g item w₁ ∧ Runs view ex gen w₁ (loop.goesOn item) o w' := by
  obtain ⟨created, awaited, create, await, throws, tests⟩ := turns
  -- the iterator is asked whether it is done after the pull
  have asks : ∀ item w₁, State.done w₁ loop.g = some (isLast item) →
      (Runs view ex gen w₁ (awaited (item.map loop.pack)) o w' ↔
        Runs view ex gen w₁ (loop.goesOn item) o w') := by
    intro item w₁ done
    cases item with
    | error x => rw [Except.map, throws, goesOn]
    | ok item =>
        obtain ⟨asked, test, after, body⟩ := tests item
        have goes := goesOn_eq after body
        rw [Except.map, Xec.runs_iff, test]
        constructor
        · rintro ⟨finished, there, rest⟩
          have same := (done_iff.mpr there).symm.trans done
          rwa [Option.some.inj same, goes] at rest
        · intro rest
          exact ⟨_, done_iff.mp done, by rwa [goes]⟩
  have fresh : (w.create coro).objs w.born = some (.fresh coro) := Function.update_self _ _ _
  rw [Xec.runs_iff, create]
  simp only
  rw [Xec.runs_iff, await]
  simp only [fresh, Option.some.injEq, Obj.fresh.injEq]
  constructor
  · rintro ⟨_, r, w₁, rfl, call, rest⟩
    obtain ⟨item, pull, rfl⟩ := forwards.runs_iff.mp call
    have pulled : PullBy view ex coro w loop.g item (w₁.put w.born .finished) := ⟨w₁, pull, rfl⟩
    exact ⟨item, _, pulled, (asks item _ pulled.done).mp rest⟩
  · rintro ⟨item, w₂, pulled, rest⟩
    have done := pulled.done
    obtain ⟨w₁, pull, rfl⟩ := pulled
    exact ⟨coro, _, w₁, rfl, forwards.runs_iff.mpr ⟨item, pull, rfl⟩, (asks item _ done).mpr rest⟩

/-- A turn, step by step. -/
theorem turns_steps (h : Nat) (stack : Stack C V X) {item : Except X (Item V)}
    (turns : Turns view loop.g loop.pack loop.body loop.after loop.thrown c coro)
    (forwards : Forwards view loop.g loop.pack coro) (pulled : PullBy view ex coro w loop.g item w') :
    ∃ s, State.step view ex (.running w h c stack) = some s ∧
      Steps view ex s (.running w' h (loop.goesOn item) stack) := by
  have done := pulled.done
  obtain ⟨created, awaited, create, await, throws, tests⟩ := turns
  obtain ⟨w₁, pull, rfl⟩ := pulled
  have ran := forwards.runs_iff.mpr ⟨item, pull, rfl⟩
  have call : Steps view ex (.running ((w.create coro).put w.born .busy) w.born coro ((h, .result awaited) :: stack))
      (.running (w₁.put w.born .finished) h (awaited (item.map loop.pack)) stack) := ran.steps rfl rfl
  have asks : Steps view ex (.running (w₁.put w.born .finished) h (awaited (item.map loop.pack)) stack)
      (.running (w₁.put w.born .finished) h (loop.goesOn item) stack) := by
    cases item with
    | error x =>
        rw [Except.map, throws]
        exact .start
    | ok item =>
        obtain ⟨asked, test, after, body⟩ := tests item
        have goes := goesOn_eq after body
        refine Steps.head ?_ .start
        simp only [State.step, Except.map, test, done, Option.map_some, goes]
  have fresh : State.body (w.create coro) w.born (.result awaited) = some coro :=
    body_fresh.mpr (Function.update_self _ _ _)
  refine ⟨.running (w.create coro) h (created w.born) stack, ?_, Steps.head ?_ (call.trans asks)⟩
  · simp only [State.step, create]
  · simp only [State.step, await, State.call, fresh, Option.map_some]

/-- The values that `*it` is in the body, one after the other, and how the generator ends. -/
inductive Visits (loop : CoFor view) (ex : E) (h : Nat) (stack : Stack C V X) :
    C → World C M → List V → Except X V → World C M → Prop where
  | ends {coro : C} {w w' : World C M} {r : Except X V}
      (pull : PullBy view ex coro w loop.g (Item.ended r) w') : Visits loop ex h stack coro w [] r w'
  | visits {coro : C} {w w₁ w₂ w' : World C M} {v : V} {rest : List V} {r : Except X V}
      (pull : PullBy view ex coro w loop.g (.ok (.yielded v)) w₁)
      (body : Steps view ex (.running w₁ h (loop.body v) stack) (.running w₂ h loop.again stack))
      (later : Visits loop ex h stack loop.next w₂ rest r w') :
      Visits loop ex h stack coro w (v :: rest) r w'

theorem Visits.steps {h : Nat} {stack : Stack C V X} {values : List V} {r : Except X V}
    (visits : loop.Visits ex h stack coro w values r w')
    (turns : Turns view loop.g loop.pack loop.body loop.after loop.thrown c coro)
    (forwards : Forwards view loop.g loop.pack coro) :
    Steps view ex (.running w h c stack) (.running w' h (loop.goesOn (Item.ended r)) stack) := by
  induction visits generalizing c with
  | ends pull =>
      obtain ⟨s, first, turn⟩ := turns_steps h stack turns forwards pull
      exact Steps.head first turn
  | visits pull body _ ih =>
      obtain ⟨s, first, turn⟩ := turns_steps h stack turns forwards pull
      exact (Steps.head first turn).trans (body.trans (ih loop.turns loop.advances))

/-- A loop whose body always comes round has visited what the generator has yielded, all of it,
wherever the program is evaluated to its end. -/
theorem visits_of_run {h : Nat} {stack : Stack C V X} {wEnd : World C M} {rEnd : Except X V}
    {actions : List Unit}
    (rounds : ∀ v w₁, Steps view ex (.running w h c stack) (.running w₁ h (loop.body v) stack) →
      ∃ w₂, Steps view ex (.running w₁ h (loop.body v) stack) (.running w₂ h loop.again stack))
    (turns : Turns view loop.g loop.pack loop.body loop.after loop.thrown c coro)
    (forwards : Forwards view loop.g loop.pack coro)
    (ran : run (fun s (_ : Unit) => State.step view ex s) (.running w h c stack) actions =
      some (.returned wEnd rEnd)) :
    ∃ values r w', loop.Visits ex h stack coro w values r w' ∧
      Steps view ex (.running w' h (loop.goesOn (Item.ended r)) stack) (.returned wEnd rEnd) := by
  generalize length : actions.length = n
  induction n using Nat.strongRecOn generalizing w c coro actions with
  | _ n ih =>
      obtain ⟨o, w', s', rest, runs, -, -, -⟩ := runs_of_run ran
      obtain ⟨item, w₁, pull, -⟩ := (turns_iff turns forwards).mp runs
      obtain ⟨s, first, turn⟩ := turns_steps h stack turns forwards pull
      cases actions with
      | nil => cases ran
      | cons action actions =>
          rw [run_cons, first] at ran
          obtain ⟨actions₁, shorter, ran⟩ := turn.rest_of_run ran rfl
          rw [List.length_cons] at length
          cases item with
          | error x => exact ⟨[], .error x, w₁, .ends pull, reachable_of_run _ ran⟩
          | ok item =>
              cases item with
              | returned v => exact ⟨[], .ok v, w₁, .ends pull, reachable_of_run _ ran⟩
              | yielded v =>
                  have here := Steps.head first turn
                  obtain ⟨w₂, round⟩ := rounds v w₁ here
                  obtain ⟨actions₂, shorter', ran⟩ := round.rest_of_run ran rfl
                  obtain ⟨values, r, w', visits, steps⟩ := ih _ (by omega)
                    (fun v' w₃ comes => rounds v' w₃ (here.trans (round.trans comes)))
                    loop.turns loop.advances ran rfl
                  exact ⟨v :: values, r, w', .visits pull round visits, steps⟩

theorem visits_iff {h : Nat} {stack : Stack C V X} {wEnd : World C M} {rEnd : Except X V}
    (rounds : ∀ v w₁, Steps view ex (.running w h loop.start stack) (.running w₁ h (loop.body v) stack) →
      ∃ w₂, Steps view ex (.running w₁ h (loop.body v) stack) (.running w₂ h loop.again stack)) :
    Steps view ex (.running w h loop.start stack) (.returned wEnd rEnd) ↔
      ∃ values r w', loop.Visits ex h stack loop.makeCoroIterator w values r w' ∧
        Steps view ex (.running w' h (loop.goesOn (Item.ended r)) stack) (.returned wEnd rEnd) := by
  constructor
  · intro steps
    obtain ⟨actions, ran⟩ := steps.exists_run
    exact visits_of_run rounds loop.starts loop.makes ran
  · rintro ⟨values, r, w', visits, steps⟩
    exact (visits.steps loop.starts loop.makes).trans steps

end CoFor

end AlpacaCore.Xec
