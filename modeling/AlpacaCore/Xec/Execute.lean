import AlpacaCore.Xec.CoFor
import AlpacaCore.Xec.Links

/-!
`co_execute` against direct evaluation.

Where a program keeps to the discipline, the promises do each step of the stack machine and no
other, so `co_execute` returns what the coroutine is evaluated to, and only that.
-/

namespace AlpacaCore.Xec

open AlpacaCore.System (Reachable run)
open Function (update update_self update_of_ne)

variable {C V X E M : Type} {view : C → Instr C V X E M} {ex : E} {κ : Machine C V X E M}
  {w : World C M} {h : Nat} {c : C} {links : List (Link C V X)}

/-! ### The discipline -/

theorem Frames.fresh_iff (frames : Frames ex κ w) {g : Nat} {body : C} :
    w.objs g = some (.fresh body) ↔ ∃ f, κ.frames g = some f ∧ f.point = .initial body := by
  rw [(frames.shows g).obj, Option.map_eq_some_iff]
  apply exists_congr
  intro f
  apply and_congr_right
  intro _
  cases point : f.point <;> simp [Frame.obj, point]

theorem Frames.left_iff (frames : Frames ex κ w) {g : Nat} {k : C} :
    (∃ obj, w.objs g = some obj ∧ obj.Left k) ↔
      ∃ f, κ.frames g = some f ∧ (f.point = .initial k ∨ f.point = .yielded k) := by
  rw [(frames.shows g).obj]
  constructor
  · rintro ⟨obj, shown, left⟩
    obtain ⟨f, there, rfl⟩ := Option.map_eq_some_iff.mp shown
    refine ⟨f, there, ?_⟩
    unfold Frame.obj Obj.Left at left
    cases point : f.point <;> simp_all
  · rintro ⟨f, there, point⟩
    refine ⟨f.obj, by rw [there]; rfl, ?_⟩
    unfold Frame.obj Obj.Left
    rcases point with point | point <;> simp [point]

theorem Frames.finished_iff (frames : Frames ex κ w) {g : Nat} :
    w.objs g = some .finished ↔ ∃ f, κ.frames g = some f ∧ f.point = .final := by
  rw [(frames.shows g).obj, Option.map_eq_some_iff]
  apply exists_congr
  intro f
  apply and_congr_right
  intro _
  cases point : f.point <;> simp [Frame.obj, point]

/-- `done` of a coroutine that is suspended is `done` of the object. -/
theorem Frames.done_eq (frames : Frames ex κ w) {g : Nat} {finished : Bool}
    (there : State.done w g = some finished) : κ.done g = some finished := by
  rw [State.done, (frames.shows g).obj] at there
  unfold Machine.done
  cases frame : κ.frames g with
  | none => rw [frame] at there; cases there
  | some f =>
      rw [frame] at there
      cases point : f.point <;> simp_all [Frame.obj]

/-- Somebody waits for a coroutine that runs. -/
theorem Rep.leaves (rep : Rep ex κ w h c links) (r : Except X V) :
    ∃ s', State.leave w h (.ended r) (links.map Link.entry) = some s' := by
  have linked := rep.linked
  cases links with
  | nil => exact linked.elim
  | cons l rest =>
      obtain ⟨p, a, resume⟩ := l
      cases resume with
      | result k => exact ⟨_, rfl⟩
      | gen g k => exact ⟨_, rfl⟩
      | helper => exact ⟨_, rfl⟩

/-- A program keeps to the discipline exactly where direct evaluation has a next step. -/
theorem Rep.disciplined_iff (rep : Rep ex κ w h c links) : κ.Disciplined view ↔
    ∃ s', State.step view ex (.running w h c (links.map Link.entry)) = some s' := by
  have here : κ.Disciplined view ↔ _ := ⟨fun keeps => keeps h c rep.running, fun kept h' c' running => by
    cases rep.running.symm.trans running
    exact kept⟩
  rw [here]
  simp only [State.step]
  cases view c with
  | ret v => simpa using rep.leaves (.ok v)
  | throw x => simpa using rep.leaves (.error x)
  | yield v k =>
      cases generating : Stack.generating (links.map Link.entry) with
      | false => simp
      | true =>
          cases links with
          | nil => cases generating
          | cons l rest =>
              obtain ⟨p, a, resume⟩ := l
              cases resume with
              | result k => cases generating
              | helper => cases generating
              | gen g k' => simp [Link.entry, State.leave]
  | create body k => simp
  | await g k =>
      simp only [State.call]
      constructor
      · rintro ⟨f, body, there, point⟩
        have left := body_fresh (k := k).mpr (rep.frames.fresh_iff.mpr ⟨f, there, point⟩)
        exact ⟨_, by rw [left]; rfl⟩
      · rintro ⟨s', called⟩
        obtain ⟨body, left, -⟩ := Option.map_eq_some_iff.mp called
        obtain ⟨f, there, point⟩ := rep.frames.fresh_iff.mp (body_fresh.mp left)
        exact ⟨f, body, there, point⟩
  | next g k =>
      simp only [State.call]
      constructor
      · rintro ⟨f, body, there, point⟩
        have left := body_left (g := g) (k := k).mpr (rep.frames.left_iff.mpr ⟨f, there, point⟩)
        exact ⟨_, by rw [left]; rfl⟩
      · rintro ⟨s', called⟩
        obtain ⟨body, left, -⟩ := Option.map_eq_some_iff.mp called
        obtain ⟨f, there, point⟩ := rep.frames.left_iff.mp (body_left.mp left)
        exact ⟨f, body, there, point⟩
  | done g k =>
      constructor
      · rintro ⟨f, there, ⟨body, point⟩ | point⟩
        · obtain ⟨obj, left⟩ := rep.frames.left_iff.mpr ⟨f, there, point⟩
          have done := done_iff.mpr (.inr ⟨rfl, obj, body, left⟩)
          exact ⟨_, congrArg (Option.map _) done⟩
        · have done := done_iff.mpr (.inl ⟨rfl, rep.frames.finished_iff.mpr ⟨f, there, point⟩⟩)
          exact ⟨_, congrArg (Option.map _) done⟩
      · rintro ⟨s', asked⟩
        obtain ⟨finished, done, -⟩ := Option.map_eq_some_iff.mp asked
        rcases done_iff.mp done with ⟨-, ended⟩ | ⟨-, obj, body, left⟩
        · obtain ⟨f, there, point⟩ := rep.frames.finished_iff.mp ended
          exact ⟨f, there, .inr point⟩
        · obtain ⟨f, there, point⟩ := rep.frames.left_iff.mp ⟨obj, left⟩
          exact ⟨f, there, .inl ⟨body, point⟩⟩
  | executor k => simp
  | get k => simp
  | set m k => simp

/-! ### One step -/

/-- The promises do what the stack machine does. -/
theorem Rep.step (rep : Rep ex κ w h c links) {s' : State C V X M}
    (stepped : State.step view ex (.running w h c (links.map Link.entry)) = some s') :
    ∃ κ', κ.step view = some κ' ∧ Represents ex κ' s' := by
  simp only [Machine.step, rep.running, Option.bind_some]
  simp only [State.step] at stepped
  cases at_ : view c with
  | ret v =>
      simp only [at_] at stepped
      exact rep.finish stepped
  | throw x =>
      simp only [at_] at stepped
      exact rep.finish stepped
  | yield v k =>
      simp only [at_] at stepped
      cases generating : Stack.generating (links.map Link.entry) with
      | true =>
          simp only [generating, if_true] at stepped
          exact rep.yieldValue generating stepped
      | false =>
          simp only [generating, Bool.false_eq_true, if_false] at stepped
          cases stepped
          obtain ⟨κ', goes, rep'⟩ := rep.discards (v := v) (k := k) generating
          exact ⟨κ', goes, links, rfl, rep'⟩
  | create body k =>
      simp only [at_] at stepped
      cases stepped
      rw [← rep.frames.born]
      exact ⟨_, rfl, links, rfl, rep.create body (k κ.born)⟩
  | await g k =>
      simp only [at_, State.call] at stepped
      obtain ⟨body, left, rfl⟩ := Option.map_eq_some_iff.mp stepped
      obtain ⟨κ', goes, rep'⟩ := rep.awaitSuspend left trivial (by simp)
      exact ⟨κ', goes, _, rfl, rep'⟩
  | next g k =>
      simp only [at_, State.call] at stepped
      obtain ⟨body, left, rfl⟩ := Option.map_eq_some_iff.mp stepped
      obtain ⟨κ', goes, rep'⟩ := rep.awaitSuspend left rfl (by simp)
      exact ⟨κ', goes, _, rfl, rep'⟩
  | done g k =>
      simp only [at_] at stepped
      obtain ⟨finished, asked, rfl⟩ := Option.map_eq_some_iff.mp stepped
      have done := rep.frames.done_eq asked
      exact ⟨_, congrArg (Option.map _) done, links, rfl, rep.goOn (k finished)⟩
  | executor k =>
      simp only [at_] at stepped
      cases stepped
      obtain ⟨f, there, -⟩ := rep.current
      obtain ⟨-, executor⟩ := rep.frames.of_busy there (rep.busy List.mem_cons_self)
      refine ⟨κ.goOn h (k ex), ?_, links, rfl, rep.goOn (k ex)⟩
      simp only [there, Option.bind_some, executor, Option.map_some]
  | get k =>
      simp only [at_] at stepped
      cases stepped
      rw [← rep.frames.mem]
      exact ⟨_, rfl, links, rfl, rep.goOn (k κ.mem)⟩
  | set m k =>
      simp only [at_] at stepped
      cases stepped
      exact ⟨_, rfl, links, rfl, rep.set m k⟩

/-! ### Runs -/

/-- What a coroutine that is executed comes to, as long as the program keeps to the discipline. -/
abbrev Executes (view : C → Instr C V X E M) (ex : E) (m : M) (body : C) : Machine C V X E M → Prop :=
  Reachable (fun κ (_ : Unit) => κ.step view) (fun κ _ => κ.Disciplined view) (.coExecute ex m body)

/-- Where direct evaluation of a coroutine on its own begins. -/
abbrev State.start (m : M) (body : C) : State C V X M := .running (.start m) 1 body [(0, .helper)]

theorem represents_start (m : M) (body : C) :
    Represents ex (.coExecute ex m body : Machine C V X E M) (.start m body) := by
  let helper : Frame C V X E := { promise := { executor := some ex }, point := .awaiting 0 .helper }
  let root : Frame C V X E := {
    promise := { executor := some ex, prev := some 0, result := some 0 }, point := .running }
  let κ : Machine C V X E M := {
    frames := update (update (fun _ => none) 0 (some helper)) 1 (some root)
    born := 2
    awaitables := update (fun _ => none) 0 (some {})
    made := 1
    running := some (1, body)
    mem := m
    returned := none }
  have executed : Machine.coExecute ex m body = κ := by
    simp [Machine.coExecute, Machine.spawned, Machine.awaitSuspend, Machine.setFrame,
      Machine.setAwaitable, Machine.resume, Machine.enter, Machine.goOn, Resume.generated, κ, helper,
      root, Function.update_comm]
  rw [executed]
  have logged : Logged helper ∧ Logged root := ⟨⟨by simp [helper], by simp [helper]⟩, ⟨by simp [root], by simp [root]⟩⟩
  refine ⟨[⟨0, 0, .helper⟩], rfl, ⟨rfl, rfl, ?_, fun j later => ?_⟩, rfl, rfl, ⟨root, rfl, rfl⟩, ?_, ?_, ?_, ?_⟩
  · refine shows_update (shows_update (fun _ => .none) ?_) ?_
    · exact .busy (.inr ⟨0, .helper, rfl⟩) rfl logged.1
    · exact .busy (.inl rfl) rfl logged.2
  · have after : j ≠ 1 ∧ j ≠ 0 := by
      have : 2 ≤ j := later
      omega
    exact (update_of_ne after.1 _ _).trans (update_of_ne after.2 _ _)
  · exact ⟨root, helper, rfl, rfl, rfl, rfl, rfl, trivial, rfl⟩
  · simp
  · simp [κ]
  · simp

/-- What is reached is where the stack machine gets to. -/
theorem Executes.represented {m : M} {body : C} (executes : Executes view ex m body κ) :
    ∃ s, Steps view ex (.start m body) s ∧ Represents ex κ s := by
  induction executes with
  | start => exact ⟨_, .start, represents_start m body⟩
  | @next κ κ' a _ keeps stepped ih =>
      obtain ⟨s, steps, represents⟩ := ih
      cases s with
      | returned w r =>
          rw [Machine.step, represents.2.1] at stepped
          cases stepped
      | running w h c stack =>
          obtain ⟨links, rfl, rep⟩ := represents
          obtain ⟨s', next⟩ := rep.disciplined_iff.mp keeps
          obtain ⟨κ'', goes, represents'⟩ := rep.step next
          cases stepped.symm.trans goes
          exact ⟨s', .next (a := ()) steps trivial next, represents'⟩

/-- Where the stack machine gets to is reached. -/
theorem executes_of_steps {m : M} {body : C} {s : State C V X M}
    (steps : Steps view ex (.start m body) s) :
    ∃ κ, Executes view ex m body κ ∧ Represents ex κ s := by
  induction steps with
  | start => exact ⟨_, .start, represents_start m body⟩
  | @next s s' a _ _ stepped ih =>
      obtain ⟨κ, executes, represents⟩ := ih
      cases s with
      | returned w r => cases stepped
      | running w h c stack =>
          obtain ⟨links, rfl, rep⟩ := represents
          obtain ⟨κ', goes, represents'⟩ := rep.step stepped
          exact ⟨κ', .next (a := ()) executes (rep.disciplined_iff.mpr ⟨s', stepped⟩) goes, represents'⟩

/-! ### What `co_execute` does -/

/-- The coroutines compute what direct evaluation computes. -/
structure Computes (view : C → Instr C V X E M) (ex : E) (m : M) (body : C) : Prop where
  /-- `co_execute` returns, or rethrows, what the coroutine is evaluated to, and that only. -/
  result : ∀ r m', (∃ κ, Executes view ex m body κ ∧ κ.returned = some r ∧ κ.mem = m') ↔
    Evaluates view ex m body r m'
  /-- Until it does, what the code says is done. -/
  progress : ∀ κ, Executes view ex m body κ → κ.returned = none → κ.Disciplined view →
    ∃ κ', κ.step view = some κ'
  /-- `next` has given what the generator has yielded, in order, and then how it ended. -/
  next : ∀ κ g f, Executes view ex m body κ → κ.frames g = some f →
    f.promise.generated.isSome = true →
    f.received = f.yields.map (fun v => .ok (.yielded v)) ++ f.outcome.toList.map Item.ended
  /-- A coroutine is done from its end on. -/
  done : ∀ κ g f finished, Executes view ex m body κ → κ.frames g = some f →
    κ.done g = some finished → (finished = true ↔ f.outcome.isSome = true)
  executor : ∀ κ h c k, Executes view ex m body κ → κ.running = some (h, c) →
    view c = .executor k → κ.step view = some (κ.goOn h (k ex))
  /-- At each turn `co_for` calls `next` and goes on with what that gives. -/
  turns : ∀ (loop : CoFor view) (gen : Bool) (w w' : World C M) (o : Outcome C V X),
    (Runs view ex gen w loop.start o w' ↔ ∃ item w₁,
      PullBy view ex loop.makeCoroIterator w loop.g item w₁ ∧
        Runs view ex gen w₁ (loop.goesOn item) o w') ∧
    (Runs view ex gen w loop.again o w' ↔ ∃ item w₁, PullBy view ex loop.next w loop.g item w₁ ∧
      Runs view ex gen w₁ (loop.goesOn item) o w')
  /-- If its body always comes round it visits all that the generator yields. -/
  visits : ∀ (loop : CoFor view) (h : Nat) (stack : Stack C V X) (w wEnd : World C M)
    (rEnd : Except X V),
    (∀ v w₁, Steps view ex (.running w h loop.start stack) (.running w₁ h (loop.body v) stack) →
      ∃ w₂, Steps view ex (.running w₁ h (loop.body v) stack) (.running w₂ h loop.again stack)) →
    (Steps view ex (.running w h loop.start stack) (.returned wEnd rEnd) ↔
      ∃ values r w', loop.Visits ex h stack loop.makeCoroIterator w values r w' ∧
        Steps view ex (.running w' h (loop.goesOn (Item.ended r)) stack) (.returned wEnd rEnd))

theorem Executes.frames {m : M} {body : C} (executes : Executes view ex m body κ) :
    ∃ w, Frames ex κ w := by
  obtain ⟨s, -, represents⟩ := executes.represented
  cases s with
  | returned w r => exact ⟨w, represents.1⟩
  | running w h c stack =>
      obtain ⟨links, -, rep⟩ := represents
      exact ⟨w, rep.frames⟩

theorem Executes.logged {m : M} {body : C} (executes : Executes view ex m body κ) {g : Nat}
    {f : Frame C V X E} (there : κ.frames g = some f) : Logged f := by
  obtain ⟨w, frames⟩ := executes.frames
  have shows := frames.shows g
  rw [there] at shows
  exact shows.logged

/-- A coroutine that runs has somebody waiting for it, down to the helper. -/
theorem Executes.rep {m : M} {body : C} (executes : Executes view ex m body κ) {h : Nat} {c : C}
    (running : κ.running = some (h, c)) : ∃ w links, Rep ex κ w h c links := by
  obtain ⟨s, -, represents⟩ := executes.represented
  cases s with
  | returned w r =>
      rw [represents.2.1] at running
      cases running
  | running w h' c' stack =>
      obtain ⟨links, -, rep⟩ := represents
      cases rep.running.symm.trans running
      exact ⟨w, links, rep⟩

/-- **What coroutines compute.** `co_execute`, over frames and the links between their promises,
returns or rethrows what the coroutine is evaluated to when an await is a call and `next` a pull,
and that only. Until it does something is done, and what `next` has given is what the generator
has yielded, in order, and then how it ended. -/
theorem coroutines_compute (view : C → Instr C V X E M) (ex : E) (m : M) (body : C) :
    Computes view ex m body := by
  constructor
  · intro r m'
    rw [evaluates_iff]
    constructor
    · rintro ⟨κ, executes, returned, rfl⟩
      obtain ⟨s, steps, represents⟩ := executes.represented
      cases s with
      | running w h c stack =>
          obtain ⟨links, -, rep⟩ := represents
          cases rep.returned.symm.trans returned
      | returned w r' =>
          obtain ⟨frames, -, returned'⟩ := represents
          cases returned'.symm.trans returned
          exact ⟨w, steps, frames.mem.symm⟩
    · rintro ⟨w, steps, rfl⟩
      obtain ⟨κ, executes, frames, -, returned⟩ := executes_of_steps steps
      exact ⟨κ, executes, returned, frames.mem⟩
  · intro κ executes notReturned keeps
    obtain ⟨s, -, represents⟩ := executes.represented
    cases s with
    | returned w r => cases notReturned.symm.trans represents.2.2
    | running w h c stack =>
        obtain ⟨links, rfl, rep⟩ := represents
        obtain ⟨s', stepped⟩ := rep.disciplined_iff.mp keeps
        obtain ⟨κ', goes, -⟩ := rep.step stepped
        exact ⟨κ', goes⟩
  · intro κ g f executes there
    exact (executes.logged there).received
  · intro κ g f finished executes there done
    rw [(executes.logged there).ended]
    simp only [Machine.done, there, Option.bind_some] at done
    cases point : f.point <;> simp_all
  · intro κ h c k executes running here
    obtain ⟨w, links, rep⟩ := executes.rep running
    obtain ⟨f, there, -⟩ := rep.current
    obtain ⟨-, executor⟩ := rep.frames.of_busy there (rep.busy List.mem_cons_self)
    simp only [Machine.step, running, here, Option.bind_some, there, executor, Option.map_some]
  · intro loop gen w w' o
    exact ⟨CoFor.turns_iff loop.starts loop.makes, CoFor.turns_iff loop.turns loop.advances⟩
  · intro loop h stack w wEnd rEnd rounds
    exact CoFor.visits_iff rounds

/-! ### A loop -/

/-- The points of a coroutine with the loop `co_for (x, range(first, last)) i = *x;`. A value is a
list of numbers, a memory is what `i` is. -/
inductive RangeCode where
  | main
  | range (i : Nat)
  | start
  | again
  | created (coro : Nat)
  | forward
  | forwarded (item : Except Unit (Item (List Nat)))
  | test (value : Except Unit (List Nat))
  | body (x : List Nat)
  | after

def packRange : Item (List Nat) → List Nat
  | .yielded v => 0 :: v
  | .returned v => 1 :: v

def rangeView (first last : Nat) : RangeCode → Instr RangeCode (List Nat) Unit Unit Nat
  | .main => .create (.range first) fun _ => .start
  | .range i =>
      if i < last then if i = 103 then .throw () else .yield [i] (.range (i + 1)) else .ret []
  | .start => .create .forward .created
  | .again => .create .forward .created
  | .created coro => .await coro .test
  | .forward => .next 2 .forwarded
  | .forwarded (.ok item) => .ret (packRange item)
  | .forwarded (.error x) => .throw x
  | .test (.ok value) => .done 2 fun finished => if finished then .after else .body value.tail
  | .test (.error x) => .throw x
  | .body x => .set (x.headD 0) .again
  | .after => .ret []

def rangeLoop (first last : Nat) : CoFor (rangeView first last) where
  g := 2
  pack := packRange
  body := .body
  after := .after
  thrown x := .test (.error x)
  makeCoroIterator := .forward
  next := .forward
  start := .start
  again := .again
  makes := ⟨.forwarded, rfl, fun _ => rfl, fun _ => rfl⟩
  advances := ⟨.forwarded, rfl, fun _ => rfl, fun _ => rfl⟩
  starts := ⟨.created, .test, rfl, fun _ => rfl, fun _ => rfl, fun item =>
    ⟨_, rfl, rfl, fun v yielded => by rw [yielded]; rfl⟩⟩
  turns := ⟨.created, .test, rfl, fun _ => rfl, fun _ => rfl, fun item =>
    ⟨_, rfl, rfl, fun v yielded => by rw [yielded]; rfl⟩⟩

/-- What `co_execute` has returned or thrown after so many steps, and what `i` is then. -/
def rangeRun (first last steps : Nat) : Option (Option (Except Unit (List Nat)) × Nat) :=
  (run (fun κ (_ : Unit) => Machine.step (rangeView first last) κ) (.coExecute () 0 .main)
    (List.replicate steps ())).map fun κ => (κ.returned, κ.mem)

example : rangeRun 50 55 43 = some (some (.ok []), 54) := by rfl

/-- The generator throws. -/
example : rangeRun 100 105 28 = some (some (.error ()), 102) := by rfl

end AlpacaCore.Xec
