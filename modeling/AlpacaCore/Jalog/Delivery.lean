import AlpacaCore.Jalog.AsyncLogging
import Mathlib.Data.List.Forall2
import Mathlib.Data.List.Induction

/-!
What is accepted is done, once each and in the order in which it was accepted.

At any time the events that were accepted are those that are done, followed by those whose tasks the
thread has taken over, followed by those whose tasks are in the queue. A task `Carries` its event
when it does in the text buffer, as it is now, what was to be done when it was pushed.
-/

namespace AlpacaCore.Jalog

open AlpacaCore.System (Reachable run)

/-! ### Texts -/

/-- A view stays good when the buffer grows. -/
theorem view_append {buffer text : List UInt8} {ibegin : Int} {size : Nat} (more : List UInt8)
    (found : view buffer ibegin size = some text) : view (buffer ++ more) ibegin size = some text := by
  unfold view at found ⊢
  split at found
  · rename_i inside
    rw [if_pos (by rw [List.length_append]; omega), ← found, List.drop_append_of_le_length (by omega),
      List.take_append_of_le_length (by rw [List.length_drop]; omega)]
  · cases found

theorem toInt_of_small {size : Nat} (small : size < 2 ^ 31) : toInt size = size := by
  unfold toInt
  exact Int.bmod_eq_of_le (by omega) (by omega)

/-- What `pushTaskL` puts in the buffer is found there. -/
theorem view_pushed {buffer : List UInt8} (text : List UInt8) (small : buffer.length < 2 ^ 31) :
    view (buffer ++ text ++ [0]) (toInt buffer.length) text.length = some text := by
  apply view_append
  rw [toInt_of_small small, view, if_pos (by rw [List.length_append]; omega), Int.toNat_natCast,
    List.drop_left, List.take_length]

/-! ### Tasks and events -/

/-- In this buffer the task does what was to be done. -/
def Carries (buffer : List UInt8) (task : Task) (event : Event) : Prop :=
  ∀ x : Sinks, x.execute buffer task = some (x.perform event)

theorem Carries.append {buffer : List UInt8} {task : Task} {event : Event} (more : List UInt8)
    (carries : Carries buffer task event) : Carries (buffer ++ more) task event := by
  intro x
  have before := carries x
  cases task with
  | logEntry le =>
      obtain ⟨text, found, same⟩ := Option.map_eq_some_iff.mp before
      rw [Sinks.execute, view_append more found, Option.map_some, same]
  | addSink sink => exact before
  | removeSink sink => exact before
  | synchronize promise => exact before

/-- The tasks that are queued still carry their events, and the new one carries the new one. -/
theorem AsyncLoggingImpl.queued_pushTask {l : AsyncLoggingImpl} {waiting : List Event} {event : Event}
    (queued : List.Forall₂ (Carries l.textBuffer) l.taskQueue waiting)
    (room : ∀ e, event = .record e → l.textBuffer.length < 2 ^ 31) :
    List.Forall₂ (Carries (l.pushTask event).textBuffer) (l.pushTask event).taskQueue
      (waiting ++ [event]) := by
  have last : ∀ {buffer task}, Carries buffer task event → List.Forall₂ (Carries buffer) [task] [event] :=
    fun carries => .cons carries .nil
  cases event with
  | record e =>
      have grown : List.Forall₂ (Carries (l.textBuffer ++ e.text ++ [0])) l.taskQueue waiting := by
        rw [List.append_assoc]
        exact queued.imp fun _ _ carries => carries.append _
      apply List.rel_append grown
      apply last
      intro x
      rw [Sinks.execute, view_pushed e.text (room e rfl)]
      rfl
  | add sink => exact List.rel_append queued (last fun x => rfl)
  | remove sink => exact List.rel_append queued (last fun x => rfl)
  | synchronize promise => exact List.rel_append queued (last fun x => rfl)

@[simp] theorem Sinks.replay_append (events : List Event) (event : Event) :
    Sinks.replay (events ++ [event]) = (Sinks.replay events).perform event := by
  simp [Sinks.replay]

/-- The promises that these events set, in order. -/
def promisesOf (events : List Event) : List Nat :=
  events.filterMap fun event => match event with
    | .synchronize promise => some promise
    | _ => none

theorem Sinks.promises_replay (events : List Event) :
    (Sinks.replay events).promises = promisesOf events := by
  induction events using List.reverseRecOn with
  | nil => rfl
  | append_singleton events event ih =>
      rw [Sinks.replay_append, promisesOf, List.filterMap_append, ← promisesOf, ← ih]
      cases event <;> simp [Sinks.perform, Sinks.record, Sinks.add, Sinks.remove, Sinks.setValue]

/-! ### Where the events are -/

/-- The thread is not in `executeTasks`. -/
def Worker.Between (worker : Worker) : Prop := ∀ next last, worker ≠ .executes next last

theorem AsyncLogging.remaining_nil {s : AsyncLogging} (between : s.worker.Between) : s.remaining = [] := by
  unfold AsyncLogging.remaining
  split
  · rename_i next last here
    exact absurd here (between next last)
  · rfl

/-- What was accepted is done, taken over by the thread, or waiting in the queue. -/
structure Split (s : AsyncLogging) (done current waiting : List Event) : Prop where
  accepted : s.accepted = done ++ current ++ waiting
  sinks : s.sinks = .replay done
  handed : List.Forall₂ (Carries s.impl.loggingTextBuffer) s.remaining current
  queued : List.Forall₂ (Carries s.impl.textBuffer) s.impl.taskQueue waiting
  /-- What `swapBuffers` asserts. -/
  between : s.worker.Between → s.impl.executingTasks = [] ∧ s.impl.loggingTextBuffer = []

namespace Split

variable {s s' : AsyncLogging} {done current waiting : List Event}

theorem done_prefix (split : Split s done current waiting) : done <+: s.accepted := by
  rw [split.accepted, List.append_assoc]
  exact List.prefix_append _ _

theorem push (split : Split s done current waiting) {event : Event}
    (room : ∀ e, event = .record e → s.impl.textBuffer.length < 2 ^ 31) :
    Split (s.push event) done current (waiting ++ [event]) := by
  have kept : (s.impl.pushTask event).executingTasks = s.impl.executingTasks ∧
      (s.impl.pushTask event).loggingTextBuffer = s.impl.loggingTextBuffer := by
    cases event <;> exact ⟨rfl, rfl⟩
  constructor
  · rw [AsyncLogging.push, split.accepted, List.append_assoc _ waiting]
  · exact split.sinks
  · have same : (s.push event).remaining = s.remaining := by
      unfold AsyncLogging.remaining
      simp only [AsyncLogging.push, kept.1]
    rw [same, AsyncLogging.push]
    simp only [kept.2]
    exact split.handed
  · exact AsyncLoggingImpl.queued_pushTask split.queued room
  · intro idle
    rw [AsyncLogging.push]
    simp only [kept.1, kept.2]
    exact split.between idle

/-- Outside of `executeTasks` nothing is taken over. -/
theorem current_nil (split : Split s done current waiting) (between : s.worker.Between) : current = [] := by
  have related := split.handed
  rw [AsyncLogging.remaining_nil between] at related
  exact List.forall₂_nil_left_iff.mp related

/-- With an empty queue there is nothing left. -/
theorem whole (split : Split s done current waiting) (between : s.worker.Between)
    (empty : s.impl.taskQueue = []) : done = s.accepted := by
  have queued := split.queued
  rw [empty, List.forall₂_nil_left_iff] at queued
  rw [split.accepted, split.current_nil between, queued, List.append_nil, List.append_nil]

/-- The thread goes from one place outside of `executeTasks` to another. -/
theorem moved (split : Split s done current waiting) {worker : Worker} (before : s.worker.Between)
    (after : worker.Between) : Split { s with worker } done current waiting := by
  constructor
  · exact split.accepted
  · exact split.sinks
  · rw [AsyncLogging.remaining_nil after, split.current_nil before]
    exact .nil
  · exact split.queued
  · exact fun _ => split.between before

theorem notifyOne (split : Split s done current waiting) : Split s.notifyOne done current waiting := by
  unfold AsyncLogging.notifyOne
  split
  · rename_i sleeps
    apply split.moved
    · rw [sleeps]
      intro _ _ same
      cases same
    · intro _ _ same
      cases same
  · exact split

/-- The thread takes over what is in the queue. -/
theorem swapBuffers (split : Split s done current waiting) (between : s.worker.Between) (last : Bool) :
    Split { s with impl := s.impl.swapBuffers, worker := .executes 0 last } done waiting [] := by
  obtain ⟨noTasks, noText⟩ := split.between between
  have accepted := split.accepted
  rw [split.current_nil between, List.append_nil] at accepted
  constructor
  · rw [List.append_nil]
    exact accepted
  · exact split.sinks
  · exact split.queued
  · simp only [AsyncLoggingImpl.swapBuffers, noTasks]
    exact .nil
  · exact fun here => absurd rfl (here 0 last)

/-- The next task can be executed, and does what was to be done. -/
theorem execute (split : Split s done current waiting) {next : Nat} {last : Bool}
    (here : s.worker = .executes next last) :
    (∃ event rest, current = event :: rest ∧
      s.execute next last = some { s with
        sinks := s.sinks.perform event, worker := .executes (next + 1) last } ∧
      Split { s with sinks := s.sinks.perform event, worker := .executes (next + 1) last }
        (done ++ [event]) rest waiting) ∨
    (current = [] ∧
      s.execute next last = some { s with
        impl := s.impl.clear, worker := if last then .ended else .tests } ∧
      Split { s with impl := s.impl.clear, worker := if last then .ended else .tests } done [] waiting) := by
  have related := split.handed
  simp only [AsyncLogging.remaining, here] at related
  unfold AsyncLogging.execute
  cases found : s.impl.executingTasks[next]? with
  | some task =>
      left
      obtain ⟨below, here'⟩ := List.getElem?_eq_some_iff.mp found
      rw [List.drop_eq_getElem_cons below, here', List.forall₂_cons_left_iff] at related
      obtain ⟨event, rest, carries, later, rfl⟩ := related
      have done' : Split { s with sinks := s.sinks.perform event, worker := .executes (next + 1) last }
          (done ++ [event]) rest waiting := by
        constructor
        · rw [split.accepted]
          simp
        · rw [Sinks.replay_append, split.sinks]
        · exact later
        · exact split.queued
        · exact fun between => absurd rfl (between (next + 1) last)
      exact ⟨event, rest, rfl, by simp only [carries s.sinks, Option.map_some], done'⟩
  | none =>
      right
      rw [List.drop_eq_nil_of_le (List.getElem?_eq_none_iff.mp found), List.forall₂_nil_left_iff] at related
      cases related
      have between : (if last then Worker.ended else .tests).Between := by
        intro _ _ same
        split at same <;> cases same
      constructor
      · rfl
      · constructor
        · rfl
        · constructor
          · exact split.accepted
          · exact split.sinks
          · rw [AsyncLogging.remaining_nil between]
            exact .nil
          · exact split.queued
          · exact fun _ => ⟨rfl, rfl⟩

theorem work_enabled (split : Split s done current waiting) (awake : s.worker ≠ .sleeps)
    (goesOn : s.worker ≠ .ended) : ∃ s', s.work = some s' := by
  unfold AsyncLogging.work
  cases here : s.worker with
  | tests => exact ⟨_, rfl⟩
  | looks =>
      by_cases empty : s.impl.taskQueue = []
      · exact ⟨_, if_pos empty⟩
      · exact ⟨_, if_neg empty⟩
  | sleeps => exact absurd here awake
  | executes next last =>
      rcases split.execute here with ⟨event, rest, -, executed, -⟩ | ⟨-, executed, -⟩
      · exact ⟨_, executed⟩
      · exact ⟨_, executed⟩
  | finalizes => exact ⟨_, rfl⟩
  | ended => exact absurd here goesOn

end Split

/-! ### Accounts -/

/-- The thread has taken the queue over for the last time. -/
def Worker.last : Worker → Bool
  | .executes _ last => last
  | .ended => true
  | _ => false

/-- These events, which were accepted, are done or will be without another look at the queue, once
the thread does not look at it any more. -/
structure Accounts (target : List Event) (s : AsyncLogging) (done current waiting : List Event) : Prop
    extends Split s done current waiting where
  included : target <+: s.accepted
  covered : s.worker.last = true → target <+: done ++ current

/-- Some account can be given. -/
def Accounted (target : List Event) (s : AsyncLogging) : Prop :=
  ∃ done current waiting, Accounts target s done current waiting

namespace Accounted

open AsyncLogging

variable {target : List Event} {s s' : AsyncLogging}

theorem push (accounted : Accounted target s) {event : Event}
    (room : ∀ e, event = .record e → s.impl.textBuffer.length < 2 ^ 31) :
    Accounted target (s.push event) := by
  obtain ⟨done, current, waiting, split, included, covered⟩ := accounted
  exact ⟨done, current, waiting ++ [event], split.push room, included.trans (List.prefix_append _ _), covered⟩

theorem notifyOne (accounted : Accounted target s) : Accounted target s.notifyOne := by
  obtain ⟨done, current, waiting, split, included, covered⟩ := accounted
  have same : s.notifyOne.accepted = s.accepted ∧ s.notifyOne.worker.last = s.worker.last := by
    unfold AsyncLogging.notifyOne
    cases here : s.worker <;> simp [here, Worker.last]
  exact ⟨done, current, waiting, split.notifyOne, by rw [same.1]; exact included,
    by rw [same.2]; exact covered⟩

/-- Fields that no account speaks of. -/
theorem congr (accounted : Accounted target s) (impl : s'.impl = s.impl) (sinks : s'.sinks = s.sinks)
    (worker : s'.worker = s.worker) (accepted : s'.accepted = s.accepted) : Accounted target s' := by
  obtain ⟨done, current, waiting, split, included, covered⟩ := accounted
  have remaining : s'.remaining = s.remaining := by
    unfold AsyncLogging.remaining
    rw [worker, impl]
  have split' : Split s' done current waiting := by
    constructor
    · exact accepted.trans split.accepted
    · exact sinks.trans split.sinks
    · rw [remaining, impl]
      exact split.handed
    · rw [impl]
      exact split.queued
    · rw [worker, impl]
      exact split.between
  exact ⟨done, current, waiting, split', by rw [accepted]; exact included, by rw [worker]; exact covered⟩

theorem work (accounted : Accounted target s) (stepped : s.work = some s') : Accounted target s' := by
  obtain ⟨done, current, waiting, split, included, covered⟩ := accounted
  unfold AsyncLogging.work at stepped
  cases here : s.worker with
  | tests =>
      rw [here] at stepped
      cases stepped
      have moved : Split { s with worker := if s.running then .looks else .finalizes } done current waiting := by
        apply split.moved
        · simp [Worker.Between, here]
        · intro _ _ same
          split at same <;> cases same
      have notLast : (if s.running then Worker.looks else .finalizes).last = false := by
        split <;> rfl
      have accounted' : Accounted target { s with worker := if s.running then .looks else .finalizes } :=
        ⟨done, current, waiting, moved, included, by simp [notLast]⟩
      exact accounted'.congr rfl rfl rfl rfl
  | looks =>
      simp only [here] at stepped
      split at stepped
      · cases stepped
        have moved : Split { s with worker := .sleeps } done current waiting := by
          apply split.moved <;> simp [Worker.Between, here]
        exact ⟨done, current, waiting, moved, included, by simp [Worker.last]⟩
      · cases stepped
        exact ⟨done, waiting, [], split.swapBuffers (by simp [Worker.Between, here]) false, included,
          by simp [Worker.last]⟩
  | sleeps =>
      rw [here] at stepped
      cases stepped
  | executes next last =>
      simp only [here] at stepped
      rcases split.execute here with ⟨event, rest, rfl, executed, split'⟩ | ⟨rfl, executed, split'⟩
      · cases executed.symm.trans stepped
        exact ⟨done ++ [event], rest, waiting, split', included, by
          simpa [here, Worker.last] using covered⟩
      · cases executed.symm.trans stepped
        exact ⟨done, [], waiting, split', included, by
          cases last
          · simp [Worker.last]
          · simpa [here, Worker.last] using covered⟩
  | finalizes =>
      rw [here] at stepped
      cases stepped
      have between : s.worker.Between := by simp [Worker.Between, here]
      have whole : s.accepted = done ++ waiting := by
        rw [split.accepted, split.current_nil between, List.append_nil]
      exact ⟨done, waiting, [], split.swapBuffers between true, included, fun _ => by
        rw [← whole]; exact included⟩
  | ended =>
      rw [here] at stepped
      cases stepped

theorem step (accounted : Accounted target s) {a : AsyncLogging.Action} (fits : Fits s a)
    (stepped : s.step a = some s') : Accounted target s' := by
  cases a with
  | record e =>
      cases stepped
      have pushed : Accounted target (s.push (.record e)) := accounted.push fun _ _ => fits
      exact pushed.congr rfl rfl rfl rfl
  | add sink =>
      cases stepped
      have pushed : Accounted target (s.push (.add sink)) := accounted.push fun _ same => by cases same
      exact pushed.congr rfl rfl rfl rfl
  | remove sink =>
      cases stepped
      have pushed : Accounted target (s.push (.remove sink)) := accounted.push fun _ same => by cases same
      exact pushed.congr rfl rfl rfl rfl
  | flush =>
      cases stepped
      have pushed : Accounted target (s.push (.synchronize s.promises)) :=
        accounted.push fun _ same => by cases same
      exact pushed.congr rfl rfl rfl rfl
  | notify =>
      simp only [AsyncLogging.step] at stepped
      split at stepped
      · cases stepped
      · cases stepped
        exact accounted.notifyOne.congr rfl rfl rfl rfl
  | destroy =>
      simp only [AsyncLogging.step, AsyncLogging.destroy] at stepped
      split at stepped
      · cases stepped
        exact accounted.congr rfl rfl rfl rfl
      · cases stepped
        have pushed : Accounted target (s.push (.synchronize s.promises)) :=
          accounted.push fun _ same => by cases same
        exact pushed.congr rfl rfl rfl rfl
      · cases stepped
        exact accounted.notifyOne.congr rfl rfl rfl rfl
      · split at stepped
        · cases stepped
          exact accounted.congr rfl rfl rfl rfl
        · cases stepped
      · cases stepped
  | work => exact accounted.work stepped
  | wake =>
      simp only [AsyncLogging.step] at stepped
      split at stepped
      · rename_i sleeps
        cases stepped
        have woken := accounted.notifyOne
        unfold AsyncLogging.notifyOne at woken
        rw [sleeps] at woken
        exact woken
      · cases stepped

theorem reachable {start : AsyncLogging} (accounted : Accounted target start)
    (reached : Reachable AsyncLogging.step Fits start s) : Accounted target s :=
  reached.invariant accounted fun _ _ _ held fits stepped => held.step fits stepped

/-- Of what is accepted while the thread still looks at the queue an account can be given later. -/
theorem of_reachable (accounted : Accounted [] s) (looks : s.worker.last = false) :
    Accounted s.accepted s := by
  obtain ⟨done, current, waiting, split, -, -⟩ := accounted
  exact ⟨done, current, waiting, split, List.prefix_refl _, by simp [looks]⟩

end Accounted

theorem accounted_start : Accounted [] .start := by
  refine ⟨[], [], [], ?_, List.nil_prefix, fun _ => List.nil_prefix⟩
  constructor
  · rfl
  · rfl
  · exact .nil
  · exact .nil
  · exact fun _ => ⟨rfl, rfl⟩

/-- **What is accepted is done**, in that order and once each: what was done of the sinks is what an
initial part of the accepted events comes to, no task has lost its text, `swapBuffers` finds what it
asserts, and when the thread has nothing to do all is done. -/
theorem accepted_performed {s : AsyncLogging}
    (reached : Reachable AsyncLogging.step AsyncLogging.Fits .start s) :
    ∃ done, done <+: s.accepted ∧ s.sinks = .replay done ∧
      (s.worker ≠ .sleeps → s.worker ≠ .ended → ∃ s', s.work = some s') ∧
      (s.worker.Between → s.impl.executingTasks = [] ∧ s.impl.loggingTextBuffer = []) ∧
      (s.worker.Between → s.impl.taskQueue = [] → done = s.accepted) := by
  obtain ⟨done, current, waiting, split, -, -⟩ := accounted_start.reachable reached
  exact ⟨done, split.done_prefix, split.sinks, fun awake goesOn => split.work_enabled awake goesOn, split.between,
    split.whole⟩

/-- A sink is added while the thread is at work, and an entry for it waits in the queue. -/
theorem accepted_performed_waiting :
    ∃ s, run AsyncLogging.step .start [.flush, .work, .work, .add 7, .record ⟨.make [97] 1 0, .info, 0, [104, 105]⟩,
        .work, .work] = some s ∧
      ∃ done, done <+: s.accepted ∧ s.sinks = .replay done ∧
        (s.worker ≠ .sleeps → s.worker ≠ .ended → ∃ s', s.work = some s') ∧
        (s.worker.Between → s.impl.executingTasks = [] ∧ s.impl.loggingTextBuffer = []) ∧
        (s.worker.Between → s.impl.taskQueue = [] → done = s.accepted) :=
  ⟨_, rfl, accepted_performed (System.reachable_of_meets [.flush, .work, .work, .add 7,
    .record ⟨.make [97] 1 0, .info, 0, [104, 105]⟩, .work, .work] (by decide) rfl)⟩

/-! ### Flushes -/

/-- Each promise is made once. -/
def Numbered (s : AsyncLogging) : Prop := ∀ promise, .synchronize promise ∈ s.accepted → promise < s.promises

theorem mem_promisesOf {promise : Nat} {events : List Event} :
    promise ∈ promisesOf events ↔ .synchronize promise ∈ events := by
  unfold promisesOf
  rw [List.mem_filterMap]
  constructor
  · rintro ⟨event, member, same⟩
    cases event with
    | synchronize other =>
        cases same
        exact member
    | record e => cases same
    | add sink => cases same
    | remove sink => cases same
  · intro member
    exact ⟨_, member, rfl⟩

/-- What a step accepts. -/
def AsyncLogging.pushes (s : AsyncLogging) : AsyncLogging.Action → List Event
  | .record e => [.record e]
  | .add sink => [.add sink]
  | .remove sink => [.remove sink]
  | .flush => [.synchronize s.promises]
  | .destroy => if s.destructor = .cleared then [.synchronize s.promises] else []
  | .notify | .work | .wake => []

theorem AsyncLogging.step_pushes {s s' : AsyncLogging} {a : AsyncLogging.Action} (stepped : s.step a = some s') :
    s'.accepted = s.accepted ++ s.pushes a ∧ s'.promises = s.promises + (promisesOf (s.pushes a)).length := by
  have notified : s.notifyOne.accepted = s.accepted ++ [] ∧ s.notifyOne.promises = s.promises := by
    unfold AsyncLogging.notifyOne
    split <;> exact ⟨(List.append_nil _).symm, rfl⟩
  have nothing : s.accepted = s.accepted ++ [] := (List.append_nil _).symm
  cases a with
  | record e =>
      cases stepped
      exact ⟨rfl, rfl⟩
  | add sink =>
      cases stepped
      exact ⟨rfl, rfl⟩
  | remove sink =>
      cases stepped
      exact ⟨rfl, rfl⟩
  | flush =>
      cases stepped
      exact ⟨rfl, rfl⟩
  | notify =>
      simp only [AsyncLogging.step] at stepped
      split at stepped
      · cases stepped
      · cases stepped
        exact notified
  | destroy =>
      simp only [AsyncLogging.step, AsyncLogging.destroy] at stepped
      split at stepped
      · rename_i alive
        cases stepped
        rw [pushes, alive]
        exact ⟨nothing, rfl⟩
      · rename_i cleared
        cases stepped
        rw [pushes, if_pos cleared]
        exact ⟨rfl, rfl⟩
      · rename_i pushed
        cases stepped
        rw [pushes, pushed]
        exact notified
      · rename_i joins
        split at stepped
        · cases stepped
          rw [pushes, joins]
          exact ⟨nothing, rfl⟩
        · cases stepped
      · cases stepped
  | work =>
      simp only [AsyncLogging.step, AsyncLogging.work] at stepped
      split at stepped
      · cases stepped
        exact ⟨nothing, rfl⟩
      · split at stepped
        · cases stepped
          exact ⟨nothing, rfl⟩
        · cases stepped
          exact ⟨nothing, rfl⟩
      · cases stepped
      · unfold AsyncLogging.execute at stepped
        split at stepped
        · obtain ⟨sinks, -, rfl⟩ := Option.map_eq_some_iff.mp stepped
          exact ⟨nothing, rfl⟩
        · cases stepped
          exact ⟨nothing, rfl⟩
      · cases stepped
        exact ⟨nothing, rfl⟩
      · cases stepped
  | wake =>
      simp only [AsyncLogging.step] at stepped
      split at stepped
      · cases stepped
        exact ⟨nothing, rfl⟩
      · cases stepped

/-- A promise that a step makes is a new one. -/
theorem AsyncLogging.synchronize_mem_pushes {s : AsyncLogging} {a : AsyncLogging.Action} {promise : Nat}
    (pushed : .synchronize promise ∈ s.pushes a) :
    promise = s.promises ∧ (promisesOf (s.pushes a)).length = 1 := by
  cases a with
  | flush => simpa [pushes, promisesOf] using pushed
  | destroy =>
      simp only [pushes] at pushed ⊢
      split at pushed
      · rename_i cleared
        rw [if_pos cleared]
        simpa [promisesOf] using pushed
      · cases pushed
  | _ => simp [pushes] at pushed

section Flush

variable {s s' : AsyncLogging} {a : AsyncLogging.Action}

theorem Numbered.step (numbered : Numbered s) (stepped : s.step a = some s') : Numbered s' := by
  obtain ⟨accepted, promises⟩ := AsyncLogging.step_pushes stepped
  intro promise member
  rw [accepted, List.mem_append] at member
  rw [promises]
  rcases member with old | new
  · exact Nat.lt_of_lt_of_le (numbered promise old) (Nat.le_add_right _ _)
  · obtain ⟨rfl, one⟩ := AsyncLogging.synchronize_mem_pushes new
    rw [one]
    exact Nat.lt_succ_self _

theorem AsyncLogging.accepted_grows {guard : AsyncLogging → AsyncLogging.Action → Prop}
    (reached : Reachable AsyncLogging.step guard s s') : s.accepted <+: s'.accepted := by
  induction reached with
  | start => exact List.prefix_refl _
  | next _ _ stepped ih =>
      apply ih.trans
      rw [(AsyncLogging.step_pushes stepped).1]
      exact List.prefix_append _ _

end Flush

/-- The promise of a flush is set by its own task only. -/
theorem done_of_flush {s₁ s₂ s : AsyncLogging}
    (before : Reachable AsyncLogging.step AsyncLogging.Fits .start s₁) (flushes : s₁.step .flush = some s₂)
    (later : Reachable AsyncLogging.step AsyncLogging.Fits s₂ s) (returns : s₁.promises ∈ s.sinks.promises) :
    ∃ done, s.sinks = .replay done ∧ s₁.accepted <+: done ∧ done <+: s.accepted := by
  have numbered : Numbered s₁ :=
    before.invariant (fun _ member => by cases member) fun _ _ _ held _ stepped => held.step stepped
  have reached : Reachable AsyncLogging.step AsyncLogging.Fits .start s :=
    (before.next (show s₁.Fits .flush from trivial) flushes).trans later
  obtain ⟨done, current, waiting, split, -, -⟩ := accounted_start.reachable reached
  have pushed : s₁.accepted ++ [.synchronize s₁.promises] <+: s.accepted := by
    have grown := AsyncLogging.accepted_grows later
    cases flushes
    exact grown
  have set : .synchronize s₁.promises ∈ done := by
    rw [split.sinks, Sinks.promises_replay, mem_promisesOf] at returns
    exact returns
  rcases List.prefix_or_prefix_of_prefix pushed split.done_prefix with within | short
  · exact ⟨done, split.sinks, (List.prefix_append _ _).trans within, split.done_prefix⟩
  · -- otherwise the promise would have been made before
    rcases List.prefix_concat_iff.mp short with whole | shorter
    · exact ⟨done, split.sinks, by rw [whole]; exact List.prefix_append _ _, split.done_prefix⟩
    · exact absurd (numbered _ (shorter.subset set)) (Nat.lt_irrefl _)

/-- **A flush waits for all that was accepted before it.** When its promise is set, all that is done. -/
theorem flush_performs {s₁ s₂ s : AsyncLogging}
    (before : Reachable AsyncLogging.step AsyncLogging.Fits .start s₁) (flushes : s₁.step .flush = some s₂)
    (later : Reachable AsyncLogging.step AsyncLogging.Fits s₂ s) (returns : s₁.promises ∈ s.sinks.promises) :
    ∃ done, s.sinks = .replay done ∧ s₁.accepted <+: done ∧ done <+: s.accepted :=
  done_of_flush before flushes later returns

/-- The flush is the second; the thread has gone through both when its promise is set. -/
theorem flush_performs_second :
    ∃ s, run AsyncLogging.step .start [.flush, .flush, .work, .work, .work, .add 7, .work] = some s ∧
      ∃ done, s.sinks = .replay done ∧ [.synchronize 0] <+: done ∧ done <+: s.accepted :=
  ⟨_, rfl, flush_performs (System.reachable_of_meets [.flush] (by decide) rfl) rfl
    (System.reachable_of_meets [.work, .work, .work, .add 7, .work] (by decide) rfl) (by decide)⟩

end AlpacaCore.Jalog
