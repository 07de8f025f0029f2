import AlpacaCore.Resource.Store

/-!
The coroutine that collects resources on a worker strand of the backend.

`gc` waits ten seconds at a time on a `timer_wobj`, collects when the wait has expired and
ends when it was cancelled. `~Backend` posts one `cancel_one` to the strand. A cancel ends
the wait that is pending when it runs; it is not remembered. A wait whose handler was
queued on expiry is no longer pending, although the cancel may run before that handler:
the strand runs its handlers one at a time and in the order of its queue.
-/

namespace AlpacaCore.Local

open AlpacaCore.Resource (Store)
open AlpacaCore.System (Reachable Meets run)

/-- Where `gc` stands. -/
inductive GcPhase where
  /-- it was spawned and has not run yet -/
  | spawned
  /-- it waits on the timer, whose ten seconds are over or not -/
  | waiting (elapsed : Bool)
  /-- its wait has ended, with this error code, and its handler is queued -/
  | woken (ec : Bool)
  | exited
deriving DecidableEq, Repr

/-- The first resumptions and the wait handlers that the strand has yet to run. -/
def GcPhase.starts : GcPhase → Nat
  | .spawned => 1
  | _ => 0

def GcPhase.handlers : GcPhase → Nat
  | .woken _ => 1
  | _ => 0

inductive TaskKind where
  /-- the first resumption, posted by `co_spawn` -/
  | start
  /-- the wait handler of the timer -/
  | handler
  /-- `cancel_one`, posted by `notify_one` -/
  | notify
  | work
deriving DecidableEq, Repr

/-- A handler posted to the strand. -/
inductive GcTask (Key : Type) where
  | start
  | handler
  | notify
  /-- what the sessions do with the resources of the strand -/
  | work (action : Resource.Action Key)

def GcTask.kind {Key : Type} : GcTask Key → TaskKind
  | .start => .start
  | .handler => .handler
  | .notify => .notify
  | .work _ => .work

/-- `BackendWorkerStrandState` and the queue of its strand. -/
structure Collector (Key : Type) where
  resources : Store Key
  gc : GcPhase
  tasks : List (GcTask Key)
  /-- `~Backend` has called `notify_one` -/
  destroyed : Bool
  /-- and its `cancel_one` has run -/
  notified : Bool

inductive GcAction (Key : Type) where
  /-- the ten seconds are over -/
  | expire
  /-- asio finds the timer expired and queues the wait handler -/
  | queue
  /-- `~Backend` -/
  | destroy
  | post (action : Resource.Action Key)
  /-- the strand runs the handler at the head of its queue -/
  | run (now : Int)

namespace Collector

variable {Key : Type}

def start : Collector Key := ⟨.start, .spawned, [.start], false, false⟩

def post (s : Collector Key) (task : GcTask Key) : Collector Key :=
  { s with tasks := s.tasks ++ [task] }

/-- `co_await m_wobj.wait(...)`: the coroutine starts a wait and suspends. -/
def wait (s : Collector Key) : Collector Key := { s with gc := .waiting false }

/-- The wait ends, and its handler is queued. -/
def wake (s : Collector Key) (ec : Bool) : Collector Key :=
  { s with gc := .woken ec }.post .handler

/-- The loop of `gc` goes on behind `co_await`. -/
def resume (s : Collector Key) (aborted : Bool) (now : Int) : Collector Key :=
  if aborted then { s with gc := .exited }
  else { s with resources := (s.resources.garbageCollect false now).1 }.wait

/-- `cancel_one`. -/
def cancelOne (s : Collector Key) : Collector Key :=
  match s.gc with
  | .waiting _ => s.wake true
  | _ => s

def runTask [DecidableEq Key] (s : Collector Key) (now : Int) : GcTask Key → Option (Collector Key)
  | .start => some s.wait
  | .handler =>
      match s.gc with
      | .woken ec => some (s.resume ec now)
      | _ => none
  | .notify => some { s.cancelOne with notified := true }
  | .work action => some { s with resources := (s.resources.step action).getD s.resources }

def step [DecidableEq Key] (s : Collector Key) : GcAction Key → Option (Collector Key)
  | .expire => if s.gc = .waiting false then some { s with gc := .waiting true } else none
  | .queue => if s.gc = .waiting true then some (s.wake false) else none
  | .destroy => if s.destroyed then none else some ({ s with destroyed := true }.post .notify)
  | .post action => some (s.post (.work action))
  | .run now =>
      match s.tasks with
      | [] => none
      | task :: tasks => runTask { s with tasks } now task

/-! ### What is queued -/

def kinds (s : Collector Key) : List TaskKind := s.tasks.map GcTask.kind

structure Inv (s : Collector Key) : Prop where
  /-- The coroutine is resumed for the first time before anything else runs. -/
  first : s.gc = .spawned → s.kinds.head? = some .start
  starts : s.kinds.count .start = s.gc.starts
  /-- The handler of a wait that has ended is queued, once. -/
  handlers : s.kinds.count .handler = s.gc.handlers
  /-- There is one notification, if any, and it is queued until it has run. -/
  notifies : s.kinds.count .notify + s.notified.toNat = s.destroyed.toNat

theorem inv_start : Inv (start : Collector Key) := ⟨fun _ => rfl, rfl, rfl, rfl⟩

@[simp] theorem kinds_post (s : Collector Key) (task : GcTask Key) :
    (s.post task).kinds = s.kinds ++ [task.kind] := by simp [kinds, post]

/-- Something is queued that is neither a first resumption nor a wait handler. -/
theorem Inv.post {s : Collector Key} (inv : Inv s) {task : GcTask Key} {destroyed : Bool}
    (notStart : task.kind ≠ .start) (notHandler : task.kind ≠ .handler)
    (notify : s.destroyed.toNat + [task.kind].count .notify = destroyed.toNat) :
    Inv ({ s with destroyed := destroyed }.post task) := by
  obtain ⟨first, starts, handlers, notifies⟩ := inv
  have same : ({ s with destroyed := destroyed } : Collector Key).kinds = s.kinds := rfl
  refine ⟨fun spawned => ?_, ?_, ?_, ?_⟩
  · rw [kinds_post, List.head?_append, same, first spawned]
    rfl
  · rw [kinds_post, List.count_append, same, starts, List.count_singleton]
    simp [notStart, Collector.post]
  · rw [kinds_post, List.count_append, same, handlers, List.count_singleton]
    simp [notHandler, Collector.post]
  · rw [kinds_post, List.count_append, same]
    change _ + _ + s.notified.toNat = destroyed.toNat
    omega

theorem Inv.wake {s : Collector Key} (inv : Inv s) {elapsed : Bool}
    (waiting : s.gc = .waiting elapsed) (ec : Bool) : Inv (s.wake ec) := by
  obtain ⟨first, starts, handlers, notifies⟩ := inv
  rw [waiting] at starts handlers
  have kinds : (s.wake ec).kinds = s.kinds ++ [.handler] := kinds_post _ _
  constructor
  · intro spawned
    cases spawned
  · rw [kinds, List.count_append, starts]
    rfl
  · rw [kinds, List.count_append, handlers]
    rfl
  · rw [kinds, List.count_append]
    exact notifies

theorem Inv.cancelOne {s : Collector Key} (inv : Inv s) : Inv s.cancelOne := by
  unfold Collector.cancelOne
  split
  · rename_i waiting
    exact inv.wake waiting true
  · exact inv

theorem cancelOne_notified (s : Collector Key) :
    { s.cancelOne with notified := true } = { s with notified := true }.cancelOne := by
  obtain ⟨resources, gc, tasks, destroyed, notified⟩ := s
  cases gc <;> rfl

/-- The head of the queue is a first resumption only before the coroutine has run. -/
theorem Inv.spawned_of_start {s : Collector Key} (inv : Inv s) {kinds : List TaskKind}
    (queue : s.kinds = .start :: kinds) : s.gc = .spawned := by
  have starts := inv.starts
  rw [queue, List.count_cons_self] at starts
  cases phase : s.gc with
  | spawned => rfl
  | waiting elapsed | woken ec | exited => simp [phase, GcPhase.starts] at starts

theorem Inv.not_spawned {s : Collector Key} (inv : Inv s) {kind : TaskKind} {kinds : List TaskKind}
    (queue : s.kinds = kind :: kinds) (other : kind ≠ .start) : s.gc ≠ .spawned := by
  intro spawned
  have first := inv.first spawned
  rw [queue] at first
  exact other (Option.some.inj first)

/-- The head of the queue is a wait handler only when a wait has ended. -/
theorem Inv.woken_of_handler {s : Collector Key} (inv : Inv s) {kinds : List TaskKind}
    (queue : s.kinds = .handler :: kinds) : ∃ ec, s.gc = .woken ec := by
  have handlers := inv.handlers
  rw [queue, List.count_cons_self] at handlers
  cases phase : s.gc with
  | woken ec => exact ⟨ec, rfl⟩
  | spawned | waiting elapsed | exited => simp [phase, GcPhase.handlers] at handlers

/-- The strand takes the head of its queue and runs it. -/
theorem runTask_inv [DecidableEq Key] {s s' : Collector Key} {now : Int} {task : GcTask Key}
    {tasks : List (GcTask Key)} (inv : Inv s) (queue : s.tasks = task :: tasks)
    (ran : runTask { s with tasks } now task = some s') : Inv s' := by
  have kinds : s.kinds = task.kind :: tasks.map GcTask.kind := by simp [Collector.kinds, queue]
  have starts := inv.starts
  have handlers := inv.handlers
  have notifies := inv.notifies
  rw [kinds] at starts handlers notifies
  cases task with
  | start =>
      cases ran
      rw [inv.spawned_of_start kinds] at starts handlers
      refine ⟨fun spawned => ?_, ?_, handlers, notifies⟩
      · cases spawned
      · rw [show GcTask.start.kind = .start from rfl, List.count_cons_self] at starts
        exact Nat.succ.inj starts
  | handler =>
      obtain ⟨ec, woken⟩ := inv.woken_of_handler kinds
      rw [woken] at starts handlers
      rw [show GcTask.handler.kind = .handler from rfl, List.count_cons_self] at handlers
      simp only [runTask, woken, Option.some.injEq] at ran
      subst ran
      cases ec with
      | true | false =>
          refine ⟨fun spawned => ?_, starts, Nat.succ.inj handlers, notifies⟩
          cases spawned
  | notify =>
      cases ran
      have taken : Inv { s with tasks, notified := true } := by
        refine ⟨fun spawned => absurd spawned (inv.not_spawned kinds (by simp [GcTask.kind])),
          starts, handlers, ?_⟩
        rw [show GcTask.notify.kind = .notify from rfl, List.count_cons_self] at notifies
        have atMost := Bool.toNat_le s.destroyed
        change (tasks.map GcTask.kind).count .notify + 1 = s.destroyed.toNat
        omega
      rw [cancelOne_notified]
      exact taken.cancelOne
  | work action =>
      cases ran
      exact ⟨fun spawned => absurd spawned (inv.not_spawned kinds (by simp [GcTask.kind])),
        starts, handlers, notifies⟩

/-- Every step keeps the invariant. -/
theorem step_inv [DecidableEq Key] {s s' : Collector Key} {a : GcAction Key} (inv : Inv s)
    (stepped : step s a = some s') : Inv s' := by
  cases a with
  | expire =>
      simp only [step] at stepped
      split at stepped
      · rename_i waiting
        obtain ⟨first, starts, handlers, notifies⟩ := inv
        rw [waiting] at starts handlers
        cases stepped
        refine ⟨fun spawned => ?_, starts, handlers, notifies⟩
        cases spawned
      · cases stepped
  | queue =>
      simp only [step] at stepped
      split at stepped
      · rename_i waiting
        cases stepped
        exact inv.wake waiting false
      · cases stepped
  | destroy =>
      simp only [step] at stepped
      split at stepped
      · cases stepped
      · rename_i alive
        cases stepped
        refine inv.post ?_ ?_ ?_
        · simp [GcTask.kind]
        · simp [GcTask.kind]
        · simp [GcTask.kind, alive]
  | post action =>
      cases stepped
      refine inv.post ?_ ?_ ?_
      · simp [GcTask.kind]
      · simp [GcTask.kind]
      · simp [GcTask.kind]
  | run now =>
      cases queue : s.tasks with
      | nil => simp [step, queue] at stepped
      | cons task tasks =>
          simp only [step, queue] at stepped
          exact runTask_inv inv queue stepped

/-! ### The contract -/

/-- Once the cancel has run, the coroutine has exited, or will when its handler runs. -/
def Stops (s : Collector Key) : Prop :=
  s.notified → s.gc = .exited ∨ s.gc = .woken true ∧ .handler ∈ s.kinds

/-- The cancel does not run between the expiry of a wait and the handler of that wait. -/
def Heard (s : Collector Key) : GcAction Key → Prop
  | .run _ => s.gc = .woken false → s.kinds.head? ≠ some .notify
  | _ => True

/-- The handler of a wait that has ended is in the queue. -/
theorem Inv.queued {s : Collector Key} (inv : Inv s) {ec : Bool} (woken : s.gc = .woken ec) :
    .handler ∈ s.kinds := by
  rw [← List.count_pos_iff, inv.handlers, woken]
  exact Nat.one_pos

/-- Under the invariant, the queue need not be looked at. -/
theorem Inv.stops_iff {s : Collector Key} (inv : Inv s) :
    Stops s ↔ (s.notified → s.gc = .exited ∨ s.gc = .woken true) := by
  constructor
  · intro stops notified
    rcases stops notified with exited | ⟨woken, _⟩
    · exact .inl exited
    · exact .inr woken
  · intro stops notified
    rcases stops notified with exited | woken
    · exact .inl exited
    · exact .inr ⟨woken, inv.queued woken⟩

/-- What the coroutine and the cancel do when the head of the queue is run. -/
theorem runTask_stops [DecidableEq Key] {s s' : Collector Key} {now : Int} {task : GcTask Key}
    {tasks : List (GcTask Key)} (inv : Inv s) (stops : Stops s) (queue : s.tasks = task :: tasks)
    (ran : runTask { s with tasks } now task = some s') :
    Stops s' ↔ Heard s (.run now) := by
  have inv' : Inv s' := runTask_inv inv queue ran
  have kinds : s.kinds = task.kind :: tasks.map GcTask.kind := by simp [Collector.kinds, queue]
  rw [inv.stops_iff] at stops
  rw [inv'.stops_iff, Heard, kinds, List.head?_cons]
  cases task with
  | start =>
      have spawned := inv.spawned_of_start kinds
      simp only [spawned, reduceCtorEq, or_self, imp_false, Bool.not_eq_true] at stops
      cases ran
      simp [wait, stops, spawned]
  | handler =>
      obtain ⟨ec, woken⟩ := inv.woken_of_handler kinds
      simp only [runTask, woken, Option.some.injEq] at ran
      subst ran
      cases ec with
      | true => simp [resume, GcTask.kind]
      | false =>
          simp only [woken, reduceCtorEq, GcPhase.woken.injEq, or_self, imp_false,
            Bool.not_eq_true, Bool.false_eq_true] at stops
          simp [resume, wait, stops, GcTask.kind]
  | notify =>
      have begun := inv.not_spawned kinds (by simp [GcTask.kind])
      cases ran
      cases phase : s.gc with
      | spawned => exact absurd phase begun
      | waiting elapsed => simp [cancelOne, wake, Collector.post]
      | woken ec => cases ec <;> simp [cancelOne, GcTask.kind]
      | exited => simp [cancelOne]
  | work action =>
      cases ran
      simp only [GcTask.kind, Option.some.injEq, reduceCtorEq, ne_eq, not_false_eq_true,
        implies_true, iff_true]
      exact stops

theorem step_stops [DecidableEq Key] {s s' : Collector Key} {a : GcAction Key} (inv : Inv s)
    (stops : Stops s) (stepped : step s a = some s') : Stops s' ↔ Heard s a := by
  have inv' : Inv s' := step_inv inv stepped
  cases a with
  | run now =>
      cases queue : s.tasks with
      | nil => simp [step, queue] at stepped
      | cons task tasks =>
          simp only [step, queue] at stepped
          exact runTask_stops inv stops queue stepped
  | expire =>
      simp only [step] at stepped
      split at stepped
      · rename_i waiting
        cases stepped
        simpa [Stops, Heard, waiting] using stops
      · cases stepped
  | queue =>
      simp only [step] at stepped
      split at stepped
      · rename_i waiting
        cases stepped
        simpa [Stops, Heard, waiting, wake, Collector.post] using stops
      · cases stepped
  | destroy =>
      simp only [step] at stepped
      split at stepped
      · cases stepped
      · cases stepped
        have posted := (inv'.stops_iff).mpr (inv.stops_iff.mp stops)
        simpa [Heard] using posted
  | post action =>
      cases stepped
      have posted := (inv'.stops_iff).mpr (inv.stops_iff.mp stops)
      simpa [Heard] using posted

/-- A cancel that comes too early is run all the same. -/
theorem enabled_of_not_heard [DecidableEq Key] {s : Collector Key} {a : GcAction Key}
    (unheard : ¬ Heard s a) : ∃ s', step s a = some s' := by
  cases a with
  | run now =>
      simp only [Heard, Classical.not_imp, not_not] at unheard
      obtain ⟨woken, head⟩ := unheard
      cases queue : s.tasks with
      | nil => simp [kinds, queue] at head
      | cons task tasks =>
          cases task with
          | notify => exact ⟨_, by simp only [step, queue]; rfl⟩
          | start | handler | work action => simp [kinds, queue, GcTask.kind] at head
  | _ => exact absurd trivial unheard

/-- The coroutine is on its way out in every state of a run behind the cancel, exactly if
the cancel does not come between the expiry of a wait and the handler of that wait. -/
theorem stops_iff_heard [DecidableEq Key] (actions : List (GcAction Key)) :
    (∀ before after s, before ++ after = actions → run step start before = some s → Stops s) ↔
      Meets step Heard start actions := by
  refine System.holds_iff_meets inv_start ?_ (fun _ _ _ inv _ stepped => step_inv inv stepped)
    (fun _ _ _ inv stops stepped => step_stops inv stops stepped)
    (fun _ _ _ unheard => enabled_of_not_heard unheard) actions
  intro notified
  cases notified

/-- The ten seconds are over before the cancel is run, and its handler is queued behind
it: the coroutine goes back to waiting. -/
theorem not_stops_expired : ¬ ∀ (actions : List (GcAction Nat)) (s : Collector Nat),
    run step start actions = some s → Stops s := by
  intro always
  have waiting := always [.run 0, .expire, .destroy, .queue, .run 10, .run 10] _ rfl
  rcases waiting rfl with exited | ⟨woken, _⟩
  · cases exited
  · cases woken

/-- There is one cancel: behind it, none is queued. -/
theorem Inv.no_cancel {s : Collector Key} (inv : Inv s) (notified : s.notified) :
    .notify ∉ s.kinds := by
  have notifies := inv.notifies
  have atMost := Bool.toNat_le s.destroyed
  rw [notified, Bool.toNat_true] at notifies
  exact List.count_eq_zero.mp (by omega)

/-- The coroutine does not leave its loop but by the cancel. -/
theorem not_stops_step [DecidableEq Key] {s s' : Collector Key} {a : GcAction Key} (inv : Inv s)
    (missed : ¬ Stops s) (stepped : step s a = some s') : ¬ Stops s' := by
  have inv' : Inv s' := step_inv inv stepped
  rw [inv.stops_iff, Classical.not_imp, not_or] at missed
  rw [inv'.stops_iff, Classical.not_imp, not_or]
  obtain ⟨notified, running, unheard⟩ := missed
  cases a with
  | expire =>
      simp only [step] at stepped
      split at stepped
      · cases stepped
        simp [notified]
      · cases stepped
  | queue =>
      simp only [step] at stepped
      split at stepped
      · cases stepped
        simp [wake, Collector.post, notified]
      · cases stepped
  | destroy =>
      simp only [step] at stepped
      split at stepped
      · cases stepped
      · cases stepped
        exact ⟨notified, running, unheard⟩
  | post action =>
      cases stepped
      exact ⟨notified, running, unheard⟩
  | run now =>
      cases queue : s.tasks with
      | nil => simp [step, queue] at stepped
      | cons task tasks =>
          have kinds : s.kinds = task.kind :: tasks.map GcTask.kind := by
            simp [Collector.kinds, queue]
          simp only [step, queue] at stepped
          cases task with
          | start =>
              cases stepped
              simp [wait, notified]
          | handler =>
              obtain ⟨ec, woken⟩ := inv.woken_of_handler kinds
              simp only [runTask, woken, Option.some.injEq] at stepped
              subst stepped
              cases ec with
              | true => exact absurd woken unheard
              | false => simp [resume, wait, notified]
          | notify =>
              have none := inv.no_cancel notified
              rw [kinds] at none
              exact absurd List.mem_cons_self none
          | work action =>
              cases stepped
              exact ⟨notified, running, unheard⟩

/-- A coroutine that missed the cancel waits for ever. -/
theorem never_exits [DecidableEq Key] {s s' : Collector Key} (inv : Inv s) (missed : ¬ Stops s)
    (reached : Reachable step System.Free s s') : s'.gc ≠ .exited := by
  have holds : Inv s' ∧ ¬ Stops s' := by
    induction reached with
    | start => exact ⟨inv, missed⟩
    | next _ _ stepped ih => exact ⟨step_inv ih.1 stepped, not_stops_step ih.1 ih.2 stepped⟩
  intro exited
  exact holds.2 fun _ => .inl exited

end Collector

end AlpacaCore.Local
