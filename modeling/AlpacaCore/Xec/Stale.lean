import Mathlib.Data.Option.Defs
import AlpacaCore.Xec.Execute

/-!
A plain await after `next`.

`await_suspend` of `basic_awaitable` leaves `m_generated` as it is. A coroutine that `next` has been
called of, and that is then awaited plainly, is stale: its `m_generated` is still that of an
awaitable which is no more, and what it yields next would be left there. `Machine` has no step for
that. `Stage` is the stack machine that knows which coroutines are stale, and each step of `Machine`,
of any program, is one of its steps.
-/

namespace AlpacaCore.Xec

open AlpacaCore.System (Reachable Free)
open Function (update update_self update_of_ne update_idem)

variable {C V X E M : Type}

/-- One step of direct evaluation, with the coroutines that are stale. -/
structure Stage (C V X M : Type) where
  state : State C V X M
  stale : Nat → Bool

def Stage.step (view : C → Instr C V X E M) (ex : E) (s : Stage C V X M) : Option (Stage C V X M) :=
  match s.state with
  | .running w h c stack =>
      match view c with
      | .await g k =>
          match w.objs g with
          | some (.fresh body) =>
              some ⟨.running (w.put g .busy) g body ((h, .result k) :: stack), update s.stale g false⟩
          | some (.yielded body) =>
              some ⟨.running (w.put g .busy) g body ((h, .result k) :: stack), update s.stale g true⟩
          | _ => none
      | .yield _ _ =>
          if stack.generating = false ∧ s.stale h = true then none
          else (State.step view ex s.state).map fun s' => ⟨s', s.stale⟩
      | .done g k =>
          match w.objs g with
          -- it is suspended, but not at its end
          | some .busy => if g = h then none else some ⟨.running w h (k false) stack, s.stale⟩
          | _ => (State.step view ex s.state).map fun s' => ⟨s', s.stale⟩
      | _ => (State.step view ex s.state).map fun s' => ⟨s', s.stale⟩
  | .returned _ _ => none

/-! ### Machines that differ in what is stale -/

/-- The frames are the same but for `m_generated`, which only the first has if the coroutine is
stale, and for what the code does not keep. -/
structure Alike (stale : Bool) (f f₀ : Frame C V X E) : Prop where
  point : f₀.point = f.point
  executor : f₀.promise.executor = f.promise.executor
  prev : f₀.promise.prev = f.promise.prev
  result : f₀.promise.result = f.promise.result
  generated : stale = false → f₀.promise.generated = f.promise.generated
  dangling : stale = true → f.promise.generated.isSome = true ∧ f₀.promise.generated = none
  begun : stale = true → ∀ body, f.point ≠ .initial body

structure Like (stale : Nat → Bool) (κ κ₀ : Machine C V X E M) : Prop where
  frames : ∀ j, Option.Rel (Alike (stale j)) (κ.frames j) (κ₀.frames j)
  born : κ₀.born = κ.born
  awaitables : κ₀.awaitables = κ.awaitables
  made : κ₀.made = κ.made
  running : κ₀.running = κ.running
  mem : κ₀.mem = κ.mem
  returned : κ₀.returned = κ.returned
  unborn : ∀ j, κ.born ≤ j → stale j = false

section Likeness

variable {view : C → Instr C V X E M} {stale : Nat → Bool} {κ κ₀ : Machine C V X E M}
  {f f₀ : Frame C V X E}

theorem rel_bind {α β γ δ : Type} {r : α → β → Prop} {s : γ → δ → Prop} {x : Option α} {y : Option β}
    {p : α → Option γ} {q : β → Option δ} (related : Option.Rel r x y)
    (next : ∀ a b, x = some a → y = some b → r a b → Option.Rel s (p a) (q b)) :
    Option.Rel s (x.bind p) (y.bind q) := by
  cases related with
  | some here => exact next _ _ rfl rfl here
  | none => exact .none

/-- What both have is the same. -/
theorem rel_bind_same {α γ δ : Type} {s : γ → δ → Prop} {x : Option α} {p : α → Option γ}
    {q : α → Option δ} (next : ∀ a, x = some a → Option.Rel s (p a) (q a)) :
    Option.Rel s (x.bind p) (x.bind q) := by
  cases x with
  | none => exact .none
  | some a => exact next a rfl

theorem Alike.refl (f : Frame C V X E) : Alike false f f :=
  ⟨rfl, rfl, rfl, rfl, fun _ => rfl, fun stale => (by cases stale), fun stale => (by cases stale)⟩

/-- The points and the rest of what the frames have move alike. -/
theorem Alike.move {b : Bool} (alike : Alike b f f₀) (point : Point C V X)
    (begun : ∀ body, point ≠ .initial body) (yields yields₀ : List V)
    (outcome outcome₀ : Option (Except X V)) (received received₀ : List (Except X (Item V))) :
    Alike b { f with point, yields, outcome, received }
      { f₀ with point, yields := yields₀, outcome := outcome₀, received := received₀ } :=
  ⟨rfl, alike.executor, alike.prev, alike.result, alike.generated, alike.dangling, fun _ => begun⟩

theorem Like.refl (κ : Machine C V X E M) : Like (fun _ => false) κ κ := by
  refine ⟨fun j => ?_, rfl, rfl, rfl, rfl, rfl, rfl, fun _ _ => rfl⟩
  cases κ.frames j with
  | none => exact .none
  | some f => exact .some (.refl f)

/-- A frame is written in both; what was there before does not matter. -/
theorem Like.write (like : Like stale κ κ₀) {b : Bool} {h : Nat} (alike : Alike b f f₀)
    (old : h < κ.born) :
    Like (update stale h b) (κ.setFrame h f) (κ₀.setFrame h f₀) := by
  refine ⟨fun j => ?_, like.born, like.awaitables, like.made, like.running, like.mem, like.returned,
    fun j later => ?_⟩
  · by_cases same : j = h
    · subst same
      simp only [Machine.setFrame, update_self]
      exact .some alike
    · simp only [Machine.setFrame, update_of_ne same]
      exact like.frames j
  · have after : j ≠ h := Nat.ne_of_gt (Nat.lt_of_lt_of_le old later)
    rw [update_of_ne after]
    exact like.unborn j later

theorem Like.setFrame (like : Like stale κ κ₀) {h : Nat} (alike : Alike (stale h) f f₀) :
    Like stale (κ.setFrame h f) (κ₀.setFrame h f₀) := by
  refine ⟨fun j => ?_, like.born, like.awaitables, like.made, like.running, like.mem, like.returned,
    like.unborn⟩
  by_cases same : j = h
  · subst same
    simp only [Machine.setFrame, update_self]
    exact .some alike
  · simp only [Machine.setFrame, update_of_ne same]
    exact like.frames j

theorem Like.setAwaitable (like : Like stale κ κ₀) (a : Nat) (aw : Option (Awaitable V X)) :
    Like stale (κ.setAwaitable a aw) (κ₀.setAwaitable a aw) := by
  refine ⟨like.frames, like.born, ?_, like.made, like.running, like.mem, like.returned, like.unborn⟩
  simp only [Machine.setAwaitable, like.awaitables]

theorem Like.goOn (like : Like stale κ κ₀) (h : Nat) (c : C) : Like stale (κ.goOn h c) (κ₀.goOn h c) :=
  ⟨like.frames, like.born, like.awaitables, like.made, rfl, like.mem, like.returned, like.unborn⟩

theorem Like.enter (like : Like stale κ κ₀) {h : Nat} (alike : Alike (stale h) f f₀) (c : C) :
    Like stale (κ.enter h f c) (κ₀.enter h f₀ c) :=
  (like.setFrame (alike.move .running (by simp) f.yields f₀.yields f.outcome f₀.outcome
    f.received f₀.received)).goOn h c

/-! ### The same steps -/

theorem Like.awaitResume (like : Like stale κ κ₀) {h : Nat} (alike : Alike (stale h) f f₀)
    (aw : Awaitable V X) (resume : Resume C V X) :
    Option.Rel (Like stale) (κ.awaitResume h f aw resume) (κ₀.awaitResume h f₀ aw resume) := by
  cases resume with
  | result k =>
      simp only [Machine.awaitResume, Option.map_eq_bind]
      exact rel_bind_same fun r _ => .some (like.enter alike (k r))
  | gen g k =>
      simp only [Machine.awaitResume, Option.map_eq_bind]
      apply rel_bind_same
      intro item _
      apply rel_bind (like.frames g)
      intro callee callee₀ _ _ there
      have received : Alike (stale g) { callee with received := callee.received ++ [item] }
          { callee₀ with received := callee₀.received ++ [item] } :=
        ⟨there.point, there.executor, there.prev, there.result, there.generated, there.dangling, there.begun⟩
      exact .some ((like.setFrame received).enter alike (k item))
  | helper =>
      simp only [Machine.awaitResume, Option.map_eq_bind]
      refine rel_bind_same fun r _ => .some ⟨fun j => ?_, like.born, like.awaitables, like.made, rfl,
        like.mem, rfl, like.unborn⟩
      by_cases same : j = h
      · subst same
        simp only [update_self]
        exact .none
      · simp only [update_of_ne same]
        exact like.frames j

theorem Like.resume (like : Like stale κ κ₀) (h : Nat) :
    Option.Rel (Like stale) (κ.resume h) (κ₀.resume h) := by
  apply rel_bind (like.frames h)
  intro f f₀ _ _ alike
  rw [alike.point]
  cases f.point with
  | initial body => exact .some (like.enter alike body)
  | yielded k => exact .some (like.enter alike k)
  | awaiting a resume =>
      simp only [like.awaitables]
      exact rel_bind_same fun aw _ => (like.setAwaitable a none).awaitResume alike aw resume
  | running => exact .none
  | final => exact .none

theorem Like.finish (like : Like stale κ κ₀) (h : Nat) (r : Except X V) :
    Option.Rel (Like stale) (κ.finish h r) (κ₀.finish h r) := by
  apply rel_bind (like.frames h)
  intro f f₀ _ _ alike
  rw [alike.result, alike.prev, like.awaitables]
  apply rel_bind_same
  intro a _
  apply rel_bind_same
  intro aw _
  apply rel_bind_same
  intro prev _
  have final := alike.move .final (by simp) f.yields f₀.yields (some r) (some r)
    f.received f₀.received
  exact ((like.setAwaitable a _).setFrame final).resume prev

theorem Like.yieldValue (like : Like stale κ κ₀) {h : Nat} (current : stale h = false) (v : V) (k : C) :
    Option.Rel (Like stale) (κ.yieldValue h v k) (κ₀.yieldValue h v k) := by
  apply rel_bind (like.frames h)
  intro f f₀ _ _ alike
  rw [alike.generated current]
  cases f.promise.generated with
  | none =>
      have yields : Alike (stale h) { f with yields := f.yields ++ [v] } { f₀ with yields := f₀.yields ++ [v] } :=
        ⟨alike.point, alike.executor, alike.prev, alike.result, alike.generated, alike.dangling, alike.begun⟩
      exact .some ((like.setFrame yields).goOn h k)
  | some a =>
      simp only [alike.prev, like.awaitables]
      apply rel_bind_same
      intro aw _
      apply rel_bind_same
      intro prev _
      have yielded := alike.move (.yielded k) (by simp) (f.yields ++ [v]) (f₀.yields ++ [v])
        f.outcome f₀.outcome f.received f₀.received
      exact ((like.setAwaitable a _).setFrame yielded).resume prev

/-- A coroutine suspends itself at an awaitable. -/
def Machine.suspend (κ : Machine C V X E M) (caller : Nat) (f : Frame C V X E) (resume : Resume C V X) :
    Machine C V X E M :=
  ({ κ with made := κ.made + 1 }.setAwaitable κ.made (some {})).setFrame caller
    { f with point := .awaiting κ.made resume }

/-- The links that `await_suspend` writes into a promise. -/
def Promise.linked (promise : Promise E) (executor : Option E) (caller a : Nat) (resume : Resume C V X) :
    Promise E :=
  ⟨executor, some caller, some a, resume.generated a promise.generated⟩

theorem Like.suspend (like : Like stale κ κ₀) {h : Nat} (alike : Alike (stale h) f f₀)
    (resume : Resume C V X) : Like stale (κ.suspend h f resume) (κ₀.suspend h f₀ resume) := by
  have suspended := alike.move (.awaiting κ.made resume) (by simp) f.yields f₀.yields f.outcome f₀.outcome
    f.received f₀.received
  unfold Machine.suspend
  rw [like.made]
  refine Like.setFrame (Like.setAwaitable ?_ κ.made (some {})) suspended
  exact ⟨like.frames, like.born, like.awaitables, rfl, like.running, like.mem,
    like.returned, like.unborn⟩

theorem awaitSuspend_eq (κ : Machine C V X E M) (caller g : Nat) (resume : Resume C V X) :
    κ.awaitSuspend caller g resume = (κ.frames caller).bind fun f =>
      ((κ.suspend caller f resume).frames g).bind fun callee =>
        ((κ.suspend caller f resume).setFrame g
          { callee with promise := callee.promise.linked f.promise.executor caller κ.made resume }).resume g :=
  rfl

/-- A plain await leaves what is stale as it is. -/
theorem Like.awaitSuspend (like : Like stale κ κ₀) (caller g : Nat) (k : Except X V → C) :
    Option.Rel (Like stale) (κ.awaitSuspend caller g (.result k)) (κ₀.awaitSuspend caller g (.result k)) := by
  simp only [awaitSuspend_eq]
  apply rel_bind (like.frames caller)
  intro f f₀ _ _ alike
  have suspended := like.suspend alike (.result k)
  refine rel_bind (suspended.frames g) fun callee callee₀ _ _ there => Like.resume (suspended.setFrame ?_) g
  rw [alike.executor, like.made]
  exact ⟨there.point, rfl, rfl, rfl, there.generated, there.dangling, there.begun⟩

/-- After `next` the coroutine is not stale. -/
theorem Like.awaitSuspend_gen (like : Like stale κ κ₀) (caller : Nat) {g : Nat} (old : g < κ.born)
    (k : Except X (Item V) → C) :
    Option.Rel (Like (update stale g false)) (κ.awaitSuspend caller g (.gen g k))
      (κ₀.awaitSuspend caller g (.gen g k)) := by
  simp only [awaitSuspend_eq]
  apply rel_bind (like.frames caller)
  intro f f₀ _ _ alike
  have suspended := like.suspend alike (.gen g k)
  refine rel_bind (suspended.frames g) fun callee callee₀ _ _ there =>
    Like.resume (suspended.write ?_ old) g
  rw [alike.executor, like.made]
  exact ⟨there.point, rfl, rfl, rfl, fun _ => rfl, fun stale => (by cases stale), fun stale => (by cases stale)⟩

theorem Like.done (like : Like stale κ κ₀) (g : Nat) : κ₀.done g = κ.done g := by
  unfold Machine.done
  have there := like.frames g
  generalize κ.frames g = frame at there
  generalize κ₀.frames g = frame₀ at there
  cases there with
  | none => rfl
  | some alike => simp only [Option.bind_some, alike.point]

/-- Apart from `next` of what is stale, and from what a stale coroutine yields. -/
theorem Like.step (like : Like stale κ κ₀) {h : Nat} {c : C} (running : κ.running = some (h, c))
    (yields : ∀ v k, view c = .yield v k → stale h = false)
    (pulls : ∀ g k, view c = .next g k → stale g = false ∧ g < κ.born) :
    Option.Rel (Like stale) (κ.step view) (κ₀.step view) := by
  have running₀ := like.running.trans running
  simp only [Machine.step, running, running₀, Option.bind_some]
  cases at_ : view c with
  | ret v => exact like.finish h (.ok v)
  | throw x => exact like.finish h (.error x)
  | yield v k => exact like.yieldValue (yields v k at_) v k
  | create body k =>
      have fresh : Alike (stale κ.born) ({ point := .initial body } : Frame C V X E) { point := .initial body } := by
        rw [like.unborn κ.born (Nat.le_refl _)]
        exact .refl _
      have created := like.setFrame fresh
      simp only [like.born]
      exact .some ⟨created.frames, rfl, created.awaitables, created.made, rfl, created.mem, created.returned,
        fun j later => like.unborn j (Nat.le_of_succ_le later)⟩
  | await g k => exact like.awaitSuspend h g k
  | next g k =>
      obtain ⟨current, old⟩ := pulls g k at_
      have same := like.awaitSuspend_gen h old k
      rw [Function.update_eq_self_iff.mpr current.symm] at same
      exact same
  | done g k =>
      simp only [like.done, Option.map_eq_bind]
      exact rel_bind_same fun finished _ => .some (like.goOn h (k finished))
  | executor k =>
      apply rel_bind (like.frames h)
      intro f f₀ _ _ alike
      simp only [alike.executor, Option.map_eq_bind]
      exact rel_bind_same fun e _ => .some (like.goOn h (k e))
  | get k =>
      rw [like.mem]
      exact .some (like.goOn h (k κ.mem))
  | set m k =>
      exact .some ⟨like.frames, like.born, like.awaitables, like.made, rfl, rfl, like.returned, like.unborn⟩

end Likeness

/-! ### What is at work -/

/-- Whatever is at work runs, or waits for what runs. -/
def State.Chained : State C V X M → Prop
  | .running w h _ stack => ∀ j, w.objs j = some .busy → j = h ∨ j ∈ stack.map Prod.fst
  | .returned _ _ => True

section Chain

variable {view : C → Instr C V X E M} {ex : E}

theorem State.leave_chained {w : World C M} {h : Nat} {c : C} {o : Outcome C V X}
    {stack : Stack C V X} {s' : State C V X M} (chained : State.Chained (.running w h c stack))
    (left : State.leave w h o stack = some s') : s'.Chained := by
  have idle : o.obj ≠ .busy := by cases o <;> simp [Outcome.obj]
  have kept : ∀ (caller : Nat) (resume : Resume C V X) (rest : Stack C V X) (c' : C),
      stack = (caller, resume) :: rest → State.Chained (.running (w.put h o.obj) caller c' rest) := by
    rintro caller resume rest c' rfl j busy
    by_cases same : j = h
    · subst same
      rw [World.put_self] at busy
      exact absurd (Option.some.inj busy) idle
    · rw [World.put_of_ne w same] at busy
      rcases chained j busy with here | waits
      · exact absurd here same
      · simpa using waits
  cases stack with
  | nil => cases left
  | cons entry rest =>
      obtain ⟨caller, resume⟩ := entry
      cases resume with
      | gen g k =>
          cases left
          exact kept caller _ rest _ rfl
      | result k =>
          cases o with
          | yielded v k => cases left
          | ended r =>
              cases left
              exact kept caller _ rest _ rfl
      | helper =>
          cases o with
          | yielded v k => cases left
          | ended r =>
              cases left
              trivial

theorem chained_call {w : World C M} {h g : Nat} {c body : C} {stack : Stack C V X}
    (chained : State.Chained (.running w h c stack)) (resume : Resume C V X) :
    State.Chained (.running (w.put g .busy) g body ((h, resume) :: stack)) := by
  intro j busy
  by_cases same : j = g
  · exact .inl same
  · rw [World.put_of_ne w same] at busy
    rcases chained j busy with rfl | waits
    · exact .inr List.mem_cons_self
    · exact .inr (List.mem_cons_of_mem _ waits)

theorem State.step_chained {s s' : State C V X M} (chained : s.Chained)
    (stepped : State.step view ex s = some s') : s'.Chained := by
  cases s with
  | returned w r => cases stepped
  | running w h c stack =>
      simp only [State.step] at stepped
      cases at_ : view c with
      | ret v =>
          simp only [at_] at stepped
          exact State.leave_chained chained stepped
      | throw x =>
          simp only [at_] at stepped
          exact State.leave_chained chained stepped
      | yield v k =>
          simp only [at_] at stepped
          split at stepped
          · exact State.leave_chained chained stepped
          · cases stepped
            exact chained
      | create body k =>
          simp only [at_] at stepped
          cases stepped
          intro j busy
          apply chained j
          by_cases same : j = w.born
          · subst same
            simp [World.create, World.put] at busy
          · simpa [World.create, World.put, update_of_ne same] using busy
      | await g k =>
          simp only [at_] at stepped
          obtain ⟨body, -, rfl⟩ := Option.map_eq_some_iff.mp stepped
          exact chained_call chained _
      | next g k =>
          simp only [at_] at stepped
          obtain ⟨body, -, rfl⟩ := Option.map_eq_some_iff.mp stepped
          exact chained_call chained _
      | done g k =>
          simp only [at_] at stepped
          obtain ⟨finished, -, rfl⟩ := Option.map_eq_some_iff.mp stepped
          exact chained
      | executor k =>
          simp only [at_] at stepped
          cases stepped
          exact chained
      | get k =>
          simp only [at_] at stepped
          cases stepped
          exact chained
      | set m k =>
          simp only [at_] at stepped
          cases stepped
          exact chained

end Chain

/-! ### Where the machine has no step -/

section Stuck

variable {view : C → Instr C V X E M} {ex : E} {κ : Machine C V X E M} {w : World C M} {h : Nat} {c : C}
  {links : List (Link C V X)}

theorem awaitResume_empty (κ : Machine C V X E M) (h : Nat) (f : Frame C V X E) (resume : Resume C V X) :
    κ.awaitResume h f {} resume = none := by
  cases resume <;> rfl

/-- Nothing can be awaited that is at work, or done, or not there. -/
theorem Rep.awaitSuspend_none (rep : Rep ex κ w h c links)
    (chained : State.Chained (.running w h c (links.map Link.entry) : State C V X M)) {g : Nat}
    (gone : w.objs g = none ∨ w.objs g = some .busy ∨ w.objs g = some .finished) (resume : Resume C V X) :
    κ.awaitSuspend h g resume = none := by
  obtain ⟨f, current, point⟩ := rep.current
  rw [awaitSuspend_eq, current, Option.bind_some]
  by_cases here : g = h
  · -- it awaits itself
    subst here
    have suspended : (κ.suspend g f resume).frames g = some { f with point := .awaiting κ.made resume } :=
      update_self _ _ _
    rw [suspended, Option.bind_some]
    simp only [Machine.resume, Machine.setFrame, update_self, Option.bind_some, Machine.suspend,
      Machine.setAwaitable]
    exact awaitResume_empty _ _ _ resume
  · have there : (κ.suspend h f resume).frames g = κ.frames g := update_of_ne here _ _
    rw [there]
    have shows := rep.frames.shows g
    cases frame : κ.frames g with
    | none => rfl
    | some callee =>
        simp only [Option.bind_some, Machine.resume, Machine.setFrame, update_self]
        rw [frame] at shows
        rcases gone with none | busy | finished
        · rw [none] at shows
          cases shows
        · rcases chained g busy with same | waits
          · exact absurd same here
          · rw [List.map_map] at waits
            obtain ⟨l, member, rfl⟩ := List.mem_map.mp waits
            obtain ⟨callee', there', point'⟩ := rep.linked.waits member
            have same : κ.frames l.caller = some callee' := there'
            cases frame.symm.trans same
            have old : l.awaitable ≠ κ.made := Nat.ne_of_lt (rep.made l member)
            have empty := rep.linked.empty member
            simp only [point', Machine.suspend, Machine.setAwaitable, Machine.setFrame, update_of_ne old,
              empty, Option.bind_some]
            exact awaitResume_empty _ _ _ _
        · rw [finished] at shows
          cases shows with
          | finished point' => rw [point']

end Stuck

/-! ### A coroutine becomes stale -/

section Becoming

variable {view : C → Instr C V X E M} {ex : E} {stale : Nat → Bool} {κ κ₀ : Machine C V X E M}
  {w : World C M} {h g : Nat} {c body : C} {links : List (Link C V X)}

/-- What is left of a generator, as a coroutine of its own. -/
theorem Rep.renew (rep : Rep ex κ w h c links) (there : w.objs g = some (.yielded body)) :
    Rep ex (κ.setFrame g { point := .initial body }) (w.put g (.fresh body)) h c links := by
  have others : ∀ j ∈ h :: links.map Link.caller, (κ.setFrame g { point := .initial body }).frames j = κ.frames j := by
    intro j member
    refine update_of_ne ?_ _ _
    rintro rfl
    cases (rep.busy member).symm.trans there
  have shows := rep.frames.shows g
  refine ⟨⟨rep.frames.mem, rep.frames.born, shows_update rep.frames.shows .fresh, fun j later => ?_⟩,
    rep.running, rep.returned, ?_, ?_, rep.callers, rep.made, rep.awaitables⟩
  · have after : j ≠ g := by
      rintro rfl
      rw [rep.frames.unborn j later, there] at shows
      cases shows
    exact (update_of_ne after _ _).trans (rep.frames.unborn j later)
  · obtain ⟨f, current, point⟩ := rep.current
    exact ⟨f, (others h List.mem_cons_self).trans current, point⟩
  · refine rep.linked.congr (fun f current => ⟨f, (others h List.mem_cons_self).trans current, rfl⟩)
      (fun l member => others _ (List.mem_cons_of_mem _ (List.mem_map.mpr ⟨l, member, rfl⟩))) fun _ _ => rfl

/-- A coroutine that is suspended before its end is resumed where it is. -/
theorem awaitSuspend_left {f callee : Frame C V X E} (resume : Resume C V X)
    (current : κ.frames h = some f) (there : κ.frames g = some callee) (distinct : g ≠ h)
    (point : callee.point = .initial body ∨ callee.point = .yielded body) :
    κ.awaitSuspend h g resume = some (((κ.suspend h f resume).setFrame g
      { callee with promise := callee.promise.linked f.promise.executor h κ.made resume, point := .running }).goOn
        g body) := by
  have same : (κ.suspend h f resume).frames g = κ.frames g := update_of_ne distinct _ _
  rw [awaitSuspend_eq, current, Option.bind_some, same, there, Option.bind_some]
  rcases point with point | point
  all_goals
    simp only [Machine.resume, Machine.setFrame, update_self, Option.bind_some, point, Machine.enter,
      update_idem]

/-- What a frame was before it is written does not matter. -/
theorem setFrame_suspend (κ : Machine C V X E M) {f x y : Frame C V X E} (resume : Resume C V X)
    (distinct : g ≠ h) :
    ((κ.setFrame g x).suspend h f resume).setFrame g y = (κ.suspend h f resume).setFrame g y := by
  have frames : update (update (update κ.frames g (some x)) h (some { f with point := .awaiting κ.made resume }))
      g (some y) = update (update κ.frames h (some { f with point := .awaiting κ.made resume })) g (some y) := by
    rw [Function.update_comm distinct, update_idem]
  simp only [Machine.suspend, Machine.setFrame, Machine.setAwaitable, frames]

theorem Frames.lt_born {w : World C M} {obj : Obj C} (frames : Frames ex κ w)
    (there : w.objs g = some obj) : g < κ.born := by
  apply Nat.lt_of_not_le
  intro later
  have shows := frames.shows g
  rw [frames.unborn g later, there] at shows
  cases shows

/-- A generator that is suspended at a value is not stale. -/
theorem Like.of_yielded (like : Like stale κ κ₀) (frames : Frames ex κ₀ w)
    (there : w.objs g = some (.yielded body)) :
    stale g = false ∧ ∃ f, κ.frames g = some f ∧ f.point = .yielded body ∧
      f.promise.generated.isSome = true := by
  have shows := frames.shows g
  have alike := like.frames g
  rw [there] at shows
  generalize κ₀.frames g = frame₀ at shows alike
  cases shows with
  | yielded point executor generator logged =>
      cases frame : κ.frames g with
      | none =>
          rw [frame] at alike
          cases alike
      | some f =>
          rw [frame] at alike
          cases alike with
          | some alike =>
              have current : stale g = false := by
                cases value : stale g with
                | false => rfl
                | true =>
                    rw [(alike.dangling value).2] at generator
                    cases generator
              refine ⟨current, f, rfl, alike.point.symm.trans point, ?_⟩
              rw [← alike.generated current]
              exact generator

theorem Like.stale_await (like : Like stale κ κ₀) (rep : Rep ex κ₀ w h c links)
    (there : w.objs g = some (.yielded body)) (k : Except X V → C) :
    ∃ κ' κ₀', κ.awaitSuspend h g (.result k) = some κ' ∧ Like (update stale g true) κ' κ₀' ∧
      Rep ex κ₀' (w.put g .busy) g body (⟨h, κ₀.made, .result k⟩ :: links) := by
  have distinct : g ≠ h := by
    rintro rfl
    cases (rep.busy List.mem_cons_self).symm.trans there
  have old : g < κ.born := by
    rw [← like.born]
    exact rep.frames.lt_born there
  -- the frames of both machines
  obtain ⟨f₀, current₀, -⟩ := rep.current
  have caller := like.frames h
  rw [current₀] at caller
  obtain ⟨-, callee, callee_there, point, generator⟩ := like.of_yielded rep.frames there
  cases current : κ.frames h with
  | none =>
      rw [current] at caller
      cases caller
  | some f =>
      rw [current] at caller
      cases caller with
      | some alike =>
          have goes := awaitSuspend_left (.result k) current callee_there distinct (.inr point)
          -- what is left of the generator is evaluated as a coroutine of its own
          have left : State.body (w.put g (.fresh body)) g (.result k : Resume C V X) = some body := by
            rw [body_fresh, World.put_self]
          obtain ⟨κ₀', goes₀, rep'⟩ := (rep.renew there).awaitSuspend left trivial (by simp)
          have here₀ : (κ₀.setFrame g { point := .initial body }).frames h = some f₀ :=
            (update_of_ne distinct.symm _ _).trans current₀
          have renewed := awaitSuspend_left (.result k) here₀ (update_self _ _ _) distinct (.inl rfl)
          rw [setFrame_suspend κ₀ _ distinct] at renewed
          cases goes₀.symm.trans renewed
          have busy : (w.put g (.fresh body)).put g .busy = w.put g .busy := by
            simp only [World.put, update_idem]
          rw [busy] at rep'
          refine ⟨_, _, goes, ((like.suspend alike (.result k)).write ?_ old).goOn g body, rep'⟩
          refine ⟨rfl, alike.executor, rfl, ?_, by simp, fun _ => ⟨generator, rfl⟩, by simp⟩
          simp only [Promise.linked, Machine.setFrame, like.made]

end Becoming

/-! ### Each step of the machine -/

/-- The machine is at the stage. -/
structure Stands (ex : E) (κ : Machine C V X E M) (s : Stage C V X M) : Prop where
  shadow : ∃ κ₀, Like s.stale κ κ₀ ∧ Represents ex κ₀ s.state
  chained : s.state.Chained

section Step

variable {view : C → Instr C V X E M} {ex : E} {stale : Nat → Bool} {κ κ₀ : Machine C V X E M}
  {w : World C M} {h g : Nat} {c body : C} {links : List (Link C V X)}

/-- Where nothing is special about what is stale. -/
theorem Like.follows (like : Like stale κ κ₀) (rep : Rep ex κ₀ w h c links)
    (chained : State.Chained (.running w h c (links.map Link.entry) : State C V X M))
    (yields : ∀ v k, view c = .yield v k → stale h = false)
    (pulls : ∀ g k, view c = .next g k → stale g = false ∧ g < κ.born) {s' : State C V X M}
    (stepped : State.step view ex (.running w h c (links.map Link.entry)) = some s') :
    ∃ κ', κ.step view = some κ' ∧ Stands ex κ' ⟨s', stale⟩ := by
  have running : κ.running = some (h, c) := like.running.symm.trans rep.running
  have same := like.step running yields pulls
  obtain ⟨κ₀', goes, represents⟩ := rep.step stepped
  rw [goes] at same
  generalize κ.step view = next at same
  cases same with
  | some like' => exact ⟨_, rfl, ⟨_, like', represents⟩, State.step_chained chained stepped⟩

/-- The frames of a coroutine in both machines. -/
theorem Like.frame (like : Like stale κ κ₀) {j : Nat} {f₀ : Frame C V X E} (there : κ₀.frames j = some f₀) :
    ∃ f, κ.frames j = some f ∧ Alike (stale j) f f₀ := by
  have alike := like.frames j
  rw [there] at alike
  generalize κ.frames j = frame at alike
  cases alike with
  | some alike => exact ⟨_, rfl, alike⟩

/-- Whoever awaits plainly cannot be resumed by a value. -/
theorem Like.stale_yield (like : Like stale κ κ₀) (rep : Rep ex κ₀ w h c links)
    (plain : Stack.generating (links.map Link.entry) = false) (current : stale h = true) (v : V) (k : C) :
    κ.yieldValue h v k = none := by
  have linked := rep.linked
  cases links with
  | nil => exact linked.elim
  | cons l rest =>
      obtain ⟨f₀, caller₀, there₀, promise, empty, waits₀, point, -, -⟩ := linked
      obtain ⟨f, there, alike⟩ := like.frame there₀
      obtain ⟨caller, waits, alike'⟩ := like.frame waits₀
      have prev : f.promise.prev = some l.caller := by rw [← alike.prev, promise]
      obtain ⟨a, generated⟩ := Option.isSome_iff_exists.mp (alike.dangling current).1
      have distinct : l.caller ≠ h := rep.caller_ne List.mem_cons_self
      simp only [Machine.yieldValue, there, Option.bind_some, generated]
      cases dangling : κ.awaitables a with
      | none => rfl
      | some aw =>
          -- even then there is no result for the caller
          have nothing : ∃ aw', update κ.awaitables a (some { aw with gen := some v }) l.awaitable = some aw' ∧
              aw'.result = none := by
            rw [like.awaitables] at empty
            by_cases same : l.awaitable = a
            · rw [same] at empty ⊢
              cases dangling.symm.trans empty
              exact ⟨_, update_self _ _ _, rfl⟩
            · exact ⟨{}, (update_of_ne same _ _).trans empty, rfl⟩
          obtain ⟨aw', left, result⟩ := nothing
          simp only [Option.bind_some, prev, Machine.resume, Machine.setFrame, Machine.setAwaitable,
            update_of_ne distinct, waits, ← alike'.point, point, left]
          obtain ⟨p, a', resume⟩ := l
          cases resume with
          | result k => simp only [Machine.awaitResume, result, Option.map_none]
          | helper => simp only [Machine.awaitResume, result, Option.map_none]
          | gen g k => cases plain

/-- What can be awaited through `next` is not stale. -/
theorem Like.of_left (like : Like stale κ κ₀) (frames : Frames ex κ₀ w) {obj : Obj C}
    (there : w.objs g = some obj) (left : obj.Left body) : stale g = false := by
  rcases left with rfl | rfl
  · have shows := frames.shows g
    have alike := like.frames g
    rw [there] at shows
    generalize κ₀.frames g = frame₀ at shows alike
    cases shows with
    | fresh =>
        generalize κ.frames g = frame at alike
        cases alike with
        | some alike =>
            cases value : stale g with
            | false => rfl
            | true => exact absurd alike.point.symm (alike.begun value body)
  · exact (like.of_yielded frames there).1

theorem Rep.generating_iff (rep : Rep ex κ₀ w h c links) :
    Stack.generating (links.map Link.entry) = true ↔
      ∃ f, κ₀.frames h = some f ∧ f.promise.generated.isSome = true := by
  have linked := rep.linked
  cases links with
  | nil => exact linked.elim
  | cons l rest =>
      obtain ⟨f, caller, there, promise, -⟩ := linked
      obtain ⟨p, a, resume⟩ := l
      have here : (∃ f, κ₀.frames h = some f ∧ f.promise.generated.isSome = true) ↔
          f.promise.generated.isSome = true :=
        ⟨fun ⟨f', there', generated⟩ => by cases there.symm.trans there'; exact generated,
          fun generated => ⟨f, there, generated⟩⟩
      rw [here, promise]
      cases resume with
      | result k => exact iff_of_false Bool.false_ne_true Bool.false_ne_true
      | gen g k => exact iff_of_true rfl rfl
      | helper => exact iff_of_false Bool.false_ne_true Bool.false_ne_true

/-- Who is awaited through `next` is not stale. -/
theorem Like.of_generating (like : Like stale κ κ₀) (rep : Rep ex κ₀ w h c links)
    (generating : Stack.generating (links.map Link.entry) = true) : stale h = false := by
  obtain ⟨f₀, there₀, generated⟩ := rep.generating_iff.mp generating
  obtain ⟨f, there, alike⟩ := like.frame there₀
  cases value : stale h with
  | false => rfl
  | true =>
      rw [(alike.dangling value).2] at generated
      cases generated

/-- A coroutine that is at work and does not run is suspended. -/
theorem Rep.done_busy (rep : Rep ex κ w h c links)
    (chained : State.Chained (.running w h c (links.map Link.entry) : State C V X M))
    (busy : w.objs g = some .busy) : κ.done g = if g = h then none else some false := by
  by_cases here : g = h
  · subst here
    obtain ⟨f, current, point⟩ := rep.current
    simp only [Machine.done, current, Option.bind_some, point, if_true]
  · rw [if_neg here]
    rcases chained g busy with same | waits
    · exact absurd same here
    · rw [List.map_map] at waits
      obtain ⟨l, member, rfl⟩ := List.mem_map.mp waits
      obtain ⟨f, there, point⟩ := rep.linked.waits member
      have same : κ.frames l.caller = some f := there
      simp only [Machine.done, Function.comp_apply, Link.entry, same, Option.bind_some, point]

theorem gone_of_not_left (notLeft : ∀ obj body, w.objs g = some obj → ¬ obj.Left body) :
    w.objs g = none ∨ w.objs g = some .busy ∨ w.objs g = some .finished := by
  cases there : w.objs g with
  | none => exact .inl rfl
  | some obj =>
      cases obj with
      | fresh body => exact absurd (.inl rfl) (notLeft _ body there)
      | yielded k => exact absurd (.inr rfl) (notLeft _ k there)
      | busy => exact .inr (.inl rfl)
      | finished => exact .inr (.inr rfl)

/-- What the machine cannot await in the shadow it cannot await. -/
theorem Like.await_none (like : Like stale κ κ₀) (rep : Rep ex κ₀ w h c links)
    (chained : State.Chained (.running w h c (links.map Link.entry) : State C V X M))
    (gone : w.objs g = none ∨ w.objs g = some .busy ∨ w.objs g = some .finished) :
    (∀ k : Except X V → C, κ.awaitSuspend h g (.result k) = none) ∧
      ∀ k : Except X (Item V) → C, κ.awaitSuspend h g (.gen g k) = none := by
  constructor
  · intro k
    have same := like.awaitSuspend h g k
    rw [rep.awaitSuspend_none chained gone] at same
    generalize κ.awaitSuspend h g (.result k) = next at same
    cases same
    rfl
  · intro k
    rcases Nat.lt_or_ge g κ.born with old | later
    · have same := like.awaitSuspend_gen h old k
      rw [rep.awaitSuspend_none chained gone] at same
      generalize κ.awaitSuspend h g (.gen g k) = next at same
      cases same
      rfl
    · have none : κ.frames g = none := by
        have frames := like.frames g
        rw [rep.frames.unborn g (like.born ▸ later)] at frames
        generalize κ.frames g = frame at frames
        cases frames
        rfl
      obtain ⟨f₀, current₀, -⟩ := rep.current
      obtain ⟨f, current, -⟩ := like.frame current₀
      have distinct : g ≠ h := by
        rintro rfl
        cases current.symm.trans none
      have there : (κ.suspend h f (.gen g k)).frames g = κ.frames g := update_of_ne distinct _ _
      rw [awaitSuspend_eq, current, Option.bind_some, there, none]
      rfl

/-- The machine and the stage go on alike, and stop alike. -/
theorem Stands.step {s : Stage C V X M} (stands : Stands ex κ s) :
    Option.Rel (Stands ex) (κ.step view) (s.step view ex) := by
  obtain ⟨⟨κ₀, like, represents⟩, chained⟩ := stands
  obtain ⟨state, stale⟩ := s
  cases state with
  | returned w r =>
      have gone : κ.running = none := like.running.symm.trans represents.2.1
      simp only [Machine.step, gone, Option.bind_none, Stage.step]
      exact .none
  | running w h c stack =>
      obtain ⟨links, rfl, rep⟩ := represents
      have running : κ.running = some (h, c) := like.running.symm.trans rep.running
      have goesOn : ∀ s', State.step view ex (.running w h c (links.map Link.entry)) = some s' →
          Stage.step view ex ⟨.running w h c (links.map Link.entry), stale⟩ = some ⟨s', stale⟩ →
          (∀ v k, view c = .yield v k → stale h = false) →
          (∀ g k, view c = .next g k → stale g = false ∧ g < κ.born) →
          Option.Rel (Stands ex) (κ.step view)
            (Stage.step view ex ⟨.running w h c (links.map Link.entry), stale⟩) := by
        intro s' stepped staged yields pulls
        obtain ⟨κ', goes, stands'⟩ := like.follows rep chained yields pulls stepped
        rw [goes, staged]
        exact .some stands'
      have stops : κ.step view = none →
          Stage.step view ex ⟨.running w h c (links.map Link.entry), stale⟩ = none →
          Option.Rel (Stands ex) (κ.step view)
            (Stage.step view ex ⟨.running w h c (links.map Link.entry), stale⟩) := by
        intro none staged
        rw [none, staged]
        exact .none
      cases at_ : view c with
      | ret v =>
          obtain ⟨s', left⟩ := rep.leaves (.ok v)
          have stepped : State.step view ex (.running w h c (links.map Link.entry)) = some s' := by
            simpa only [State.step, at_] using left
          exact goesOn s' stepped (by simp only [Stage.step, at_, stepped, Option.map_some])
            (by simp [at_]) (by simp [at_])
      | throw x =>
          obtain ⟨s', left⟩ := rep.leaves (.error x)
          have stepped : State.step view ex (.running w h c (links.map Link.entry)) = some s' := by
            simpa only [State.step, at_] using left
          exact goesOn s' stepped (by simp only [Stage.step, at_, stepped, Option.map_some])
            (by simp [at_]) (by simp [at_])
      | yield v k =>
          cases generating : Stack.generating (links.map Link.entry) with
          | true =>
              have left : ∃ s', State.leave w h (.yielded v k) (links.map Link.entry) = some s' := by
                cases links with
                | nil => cases generating
                | cons l rest =>
                    obtain ⟨p, a, resume⟩ := l
                    cases resume with
                    | gen g k' => exact ⟨_, rfl⟩
                    | result k' => cases generating
                    | helper => cases generating
              obtain ⟨s', left⟩ := left
              have stepped : State.step view ex (.running w h c (links.map Link.entry)) = some s' := by
                simpa only [State.step, at_, generating, if_true] using left
              have staged : Stage.step view ex ⟨.running w h c (links.map Link.entry), stale⟩ = some ⟨s', stale⟩ := by
                simp only [Stage.step, at_, stepped, Option.map_some, generating, Bool.true_eq_false, false_and,
                  if_false]
              exact goesOn s' stepped staged (fun _ _ _ => like.of_generating rep generating) (by simp [at_])
          | false =>
              cases current : stale h with
              | true =>
                  refine stops ?_ ?_
                  · simp only [Machine.step, running, Option.bind_some, at_]
                    exact like.stale_yield rep generating current v k
                  · simp only [Stage.step, at_, generating, current, and_self, if_true]
              | false =>
                  have stepped : State.step view ex (.running w h c (links.map Link.entry)) =
                      some (.running w h k (links.map Link.entry)) := by
                    simp only [State.step, at_, generating, Bool.false_eq_true, if_false]
                  have staged : Stage.step view ex ⟨.running w h c (links.map Link.entry), stale⟩ =
                      some ⟨.running w h k (links.map Link.entry), stale⟩ := by
                    simp only [Stage.step, at_, stepped, Option.map_some, current, Bool.false_eq_true, and_false,
                      if_false]
                  exact goesOn _ stepped staged (fun _ _ _ => current) (by simp [at_])
      | create body k =>
          exact goesOn (.running (w.create body) h (k w.born) (links.map Link.entry))
            (by simp only [State.step, at_]) (by simp only [Stage.step, State.step, at_, Option.map_some])
            (by simp [at_]) (by simp [at_])
      | await g k =>
          have none : (w.objs g = none ∨ w.objs g = some .busy ∨ w.objs g = some .finished) →
              κ.step view = none := by
            intro gone
            simp only [Machine.step, running, Option.bind_some, at_]
            exact (like.await_none rep chained gone).1 k
          cases there : w.objs g with
          | none => exact stops (none (.inl there)) (by simp only [Stage.step, at_, there])
          | some obj =>
              cases obj with
              | fresh body =>
                  have left : State.body w g (.result k : Resume C V X) = some body := body_fresh.mpr there
                  have current : update stale g false = stale :=
                    Function.update_eq_self_iff.mpr (like.of_left rep.frames there (.inl rfl)).symm
                  exact goesOn (.running (w.put g .busy) g body ((h, .result k) :: links.map Link.entry))
                    (by simp only [State.step, at_, State.call, left, Option.map_some])
                    (by simp only [Stage.step, at_, there, current])
                    (by simp [at_]) (by simp [at_])
              | yielded body =>
                  obtain ⟨κ', κ₀', goes, like', rep'⟩ := like.stale_await rep there k
                  have stepped : κ.step view = some κ' := by
                    simpa only [Machine.step, running, Option.bind_some, at_] using goes
                  have staged : Stage.step view ex ⟨.running w h c (links.map Link.entry), stale⟩ =
                      some ⟨.running (w.put g .busy) g body ((h, .result k) :: links.map Link.entry),
                        update stale g true⟩ := by
                    simp only [Stage.step, at_, there]
                  rw [stepped, staged]
                  exact .some ⟨⟨κ₀', like', _, rfl, rep'⟩, chained_call chained _⟩
              | busy => exact stops (none (.inr (.inl there))) (by simp only [Stage.step, at_, there])
              | finished => exact stops (none (.inr (.inr there))) (by simp only [Stage.step, at_, there])
      | next g k =>
          by_cases left : ∃ obj body, w.objs g = some obj ∧ obj.Left body
          · obtain ⟨obj, body, there, isLeft⟩ := left
            have body_eq : State.body w g (.gen g k : Resume C V X) = some body := body_left.mpr ⟨obj, there, isLeft⟩
            have old : g < κ.born := like.born ▸ rep.frames.lt_born there
            have stepped : State.step view ex (.running w h c (links.map Link.entry)) =
                some (.running (w.put g .busy) g body ((h, .gen g k) :: links.map Link.entry)) := by
              simp only [State.step, at_, State.call, body_eq, Option.map_some]
            apply goesOn _ stepped (by simp only [Stage.step, at_, stepped, Option.map_some]) (by simp [at_])
            intro g' k' same
            cases at_.symm.trans same
            exact ⟨like.of_left rep.frames there isLeft, old⟩
          · have notLeft : ∀ obj body, w.objs g = some obj → ¬ obj.Left body :=
              fun obj body there isLeft => left ⟨obj, body, there, isLeft⟩
            have gone := gone_of_not_left notLeft
            refine stops ?_ ?_
            · simp only [Machine.step, running, Option.bind_some, at_]
              exact (like.await_none rep chained gone).2 k
            · have none : State.body w g (.gen g k : Resume C V X) = none := by
                rcases gone with there | there | there <;> simp only [State.body, there]
              simp only [Stage.step, State.step, at_, State.call, none, Option.map_none]
      | done g k =>
          have asked : κ.step view = (κ₀.done g).map fun finished => κ.goOn h (k finished) := by
            simp only [Machine.step, running, Option.bind_some, at_, like.done]
          have answered : ∀ finished, State.done w g = some finished → w.objs g ≠ some .busy →
              Option.Rel (Stands ex) (κ.step view)
                (Stage.step view ex ⟨.running w h c (links.map Link.entry), stale⟩) := by
            intro finished answer idle
            have stepped : State.step view ex (.running w h c (links.map Link.entry)) =
                some (.running w h (k finished) (links.map Link.entry)) := by
              simp only [State.step, at_, answer, Option.map_some]
            refine goesOn _ stepped ?_ (by simp [at_]) (by simp [at_])
            simp only [Stage.step, at_, stepped, Option.map_some]
          cases there : w.objs g with
          | none =>
              have shows := rep.frames.shows g
              rw [there] at shows
              refine stops ?_ (by simp only [Stage.step, State.step, State.done, at_, there, Option.map_none])
              rw [asked, Machine.done]
              generalize κ₀.frames g = frame at shows
              cases shows
              rfl
          | some obj =>
              cases obj with
              | fresh body => exact answered false (by simp only [State.done, there]) (by simp [there])
              | yielded body => exact answered false (by simp only [State.done, there]) (by simp [there])
              | finished => exact answered true (by simp only [State.done, there]) (by simp [there])
              | busy =>
                  rw [rep.done_busy chained there] at asked
                  by_cases here : g = h
                  · rw [if_pos here] at asked
                    subst here
                    exact stops asked (by simp only [Stage.step, at_, there, if_true])
                  · rw [if_neg here] at asked
                    have staged : Stage.step view ex ⟨.running w h c (links.map Link.entry), stale⟩ =
                        some ⟨.running w h (k false) (links.map Link.entry), stale⟩ := by
                      simp only [Stage.step, at_, there, here, if_false]
                    rw [asked, staged]
                    exact .some ⟨⟨_, like.goOn h (k false), _, rfl, rep.goOn (k false)⟩, chained⟩
      | executor k =>
          exact goesOn (.running w h (k ex) (links.map Link.entry)) (by simp only [State.step, at_])
            (by simp only [Stage.step, State.step, at_, Option.map_some]) (by simp [at_]) (by simp [at_])
      | get k =>
          exact goesOn (.running w h (k w.mem) (links.map Link.entry)) (by simp only [State.step, at_])
            (by simp only [Stage.step, State.step, at_, Option.map_some]) (by simp [at_]) (by simp [at_])
      | set m k =>
          exact goesOn (.running { w with mem := m } h k (links.map Link.entry)) (by simp only [State.step, at_])
            (by simp only [Stage.step, State.step, at_, Option.map_some]) (by simp [at_]) (by simp [at_])

end Step

end AlpacaCore.Xec
