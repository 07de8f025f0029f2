import AlpacaCore.Jalog.Delivery
import Mathlib.Algebra.Order.Ring.Nat

/-!
How the thread ends: the destructor joins it, and what was accepted before is done by then.

The destructor clears `m_running`, pushes a task and notifies. The thread may be anywhere at each of
these, and it sets the flag again when it tests it. That a notification is not lost is what
`Control` says: where the thread sleeps though there are tasks, somebody is still to notify.
-/

namespace AlpacaCore.Jalog

open AlpacaCore.System (Reachable Inevitable run)

/-- The thread has left its loop. -/
def Worker.finishing : Worker → Bool
  | .executes _ last => last
  | .finalizes | .ended => true
  | _ => false

/-- Notified, or not sleeping. -/
def Worker.woken : Worker → Worker
  | .sleeps => .looks
  | worker => worker

@[simp] theorem Worker.finishing_woken (worker : Worker) : worker.woken.finishing = worker.finishing := by
  cases worker <;> rfl

@[simp] theorem Worker.woken_ne_sleeps (worker : Worker) : worker.woken ≠ .sleeps := by
  cases worker <;> simp [Worker.woken]

theorem Worker.woken_looks {worker : Worker} (looks : worker.woken = .looks) :
    worker = .looks ∨ worker = .sleeps := by
  cases worker <;> simp_all [Worker.woken]

theorem Worker.woken_ended {worker : Worker} : worker.woken = .ended ↔ worker = .ended := by
  cases worker <;> simp [Worker.woken]

theorem AsyncLogging.notifyOne_eq (s : AsyncLogging) : s.notifyOne = { s with worker := s.worker.woken } := by
  obtain ⟨_, _, _, worker, _, _, _, _⟩ := s
  cases worker <;> rfl

theorem AsyncLoggingImpl.pushTask_ne_nil (l : AsyncLoggingImpl) (event : Event) :
    (l.pushTask event).taskQueue ≠ [] := by
  cases event <;> simp [AsyncLoggingImpl.pushTask]

/-- How far the destructor and the thread have come with each other. -/
structure Control (s : AsyncLogging) : Prop where
  alive : s.destructor = .alive → s.running = true ∧ s.worker.finishing = false
  stopping : s.destructor ≠ .alive → s.running = true → s.worker.finishing = true
  /-- No notification is lost. -/
  notified : s.worker = .sleeps → s.impl.taskQueue ≠ [] → 0 < s.notifies ∨ s.destructor = .pushed
  /-- `wakeUp` leaves something to wake up for. -/
  woken : s.destructor = .pushed ∨ s.destructor = .joins → s.worker = .looks ∨ s.worker = .sleeps →
    s.impl.taskQueue ≠ []
  ended : s.destructor = .joined → s.worker = .ended

namespace Control

variable {s s' : AsyncLogging}

theorem start : Control .start := by
  constructor
  · exact fun _ => ⟨rfl, rfl⟩
  · intro began
    exact absurd rfl began
  · intro sleeps
    cases sleeps
  · rintro (began | began) <;> cases began
  · intro joined
    cases joined

theorem pushTask (control : Control s) (event : Event) (promises : Nat) :
    Control { s.pushTask event with promises } := by
  constructor
  · exact control.alive
  · exact control.stopping
  · exact fun _ _ => .inl (Nat.succ_pos _)
  · exact fun _ _ => s.impl.pushTask_ne_nil event
  · exact control.ended

theorem notify (control : Control s) (notifies : Nat) : Control { s.notifyOne with notifies } := by
  rw [AsyncLogging.notifyOne_eq]
  constructor
  · simpa using control.alive
  · simpa using control.stopping
  · intro sleeps
    exact absurd sleeps s.worker.woken_ne_sleeps
  · rintro began (looks | sleeps)
    · exact control.woken began (Worker.woken_looks looks)
    · exact absurd sleeps s.worker.woken_ne_sleeps
  · intro joined
    exact Worker.woken_ended.mpr (control.ended joined)

theorem destroy (control : Control s) (stepped : s.destroy = some s') : Control s' := by
  unfold AsyncLogging.destroy at stepped
  split at stepped
  · rename_i alive
    cases stepped
    constructor
    · intro alive
      cases alive
    · intro _ running
      cases running
    · intro sleeps queued
      rcases control.notified sleeps queued with some | pushed
      · exact .inl some
      · cases alive.symm.trans pushed
    · rintro (began | began) <;> cases began
    · intro joined
      cases joined
  · rename_i cleared
    cases stepped
    constructor
    · intro alive
      cases alive
    · exact fun _ => control.stopping (by simp [cleared])
    · exact fun _ _ => .inr rfl
    · exact fun _ _ => s.impl.pushTask_ne_nil _
    · intro joined
      cases joined
  · rename_i pushed
    cases stepped
    rw [AsyncLogging.notifyOne_eq]
    constructor
    · intro alive
      cases alive
    · simpa using control.stopping (by simp [pushed])
    · intro sleeps
      exact absurd sleeps s.worker.woken_ne_sleeps
    · rintro - (looks | sleeps)
      · exact control.woken (.inl pushed) (Worker.woken_looks looks)
      · exact absurd sleeps s.worker.woken_ne_sleeps
    · intro joined
      cases joined
  · rename_i joins
    split at stepped
    · rename_i ended
      cases stepped
      constructor
      · intro alive
        cases alive
      · exact fun _ => control.stopping (by simp [joins])
      · intro sleeps
        cases ended.symm.trans sleeps
      · rintro (began | began) <;> cases began
      · exact fun _ => ended
    · cases stepped
  · cases stepped

/-- The thread goes on, and neither leaves its loop nor looks at the queue. -/
theorem goes (control : Control s) {worker : Worker} (goesOn : s.worker ≠ .ended)
    (same : worker.finishing = s.worker.finishing) (away : worker ≠ .looks ∧ worker ≠ .sleeps)
    (impl : AsyncLoggingImpl) (sinks : Sinks) : Control { s with impl, sinks, worker } := by
  constructor
  · rw [same]
    exact control.alive
  · rw [same]
    exact control.stopping
  · intro sleeps
    exact absurd sleeps away.2
  · rintro - (looks | sleeps)
    · exact absurd looks away.1
    · exact absurd sleeps away.2
  · intro joined
    exact absurd (control.ended joined) goesOn

theorem tests (control : Control s) (here : s.worker = .tests) :
    Control { s with running := true, worker := if s.running then .looks else .finalizes } := by
  have joins : s.destructor ≠ .joined := by
    intro joined
    cases here.symm.trans (control.ended joined)
  cases running : s.running with
  | true =>
      have alive : s.destructor = .alive := by
        by_contra began
        have finishing := control.stopping began running
        rw [here] at finishing
        cases finishing
      constructor
      · exact fun _ => ⟨rfl, rfl⟩
      · intro began
        exact absurd alive began
      · intro sleeps
        cases sleeps
      · rintro (began | began) <;> cases alive.symm.trans began
      · intro joined
        exact absurd joined joins
  | false =>
      constructor
      · intro alive
        cases running.symm.trans (control.alive alive).1
      · exact fun _ _ => rfl
      · intro sleeps
        cases sleeps
      · rintro - (looks | sleeps)
        · cases looks
        · cases sleeps
      · intro joined
        exact absurd joined joins

theorem looks (control : Control s) (here : s.worker = .looks) (empty : s.impl.taskQueue = []) :
    Control { s with worker := .sleeps } := by
  constructor
  · simpa [here, Worker.finishing] using control.alive
  · simpa [here, Worker.finishing] using control.stopping
  · intro _ queued
    exact absurd empty queued
  · intro began _
    exact control.woken began (.inl here)
  · intro joined
    cases here.symm.trans (control.ended joined)

theorem work (control : Control s) (stepped : s.work = some s') : Control s' := by
  unfold AsyncLogging.work at stepped
  cases here : s.worker with
  | tests =>
      rw [here] at stepped
      cases stepped
      exact control.tests here
  | looks =>
      simp only [here] at stepped
      split at stepped
      · rename_i empty
        cases stepped
        exact control.looks here empty
      · cases stepped
        exact control.goes (by simp [here]) (by rw [here]; rfl) (by simp) _ _
  | sleeps =>
      rw [here] at stepped
      cases stepped
  | executes next last =>
      simp only [here] at stepped
      unfold AsyncLogging.execute at stepped
      split at stepped
      · obtain ⟨sinks, -, rfl⟩ := Option.map_eq_some_iff.mp stepped
        exact control.goes (by simp [here]) (by rw [here]; rfl) (by simp) _ _
      · cases stepped
        cases last
        · exact control.goes (by simp [here]) (by rw [here]; rfl) (by simp) _ _
        · exact control.goes (by simp [here]) (by rw [here]; rfl) (by simp) _ _
  | finalizes =>
      rw [here] at stepped
      cases stepped
      exact control.goes (by simp [here]) (by rw [here]; rfl) (by simp) _ _
  | ended =>
      rw [here] at stepped
      cases stepped

theorem step (control : Control s) {a : AsyncLogging.Action} (stepped : s.step a = some s') :
    Control s' := by
  cases a with
  | record e =>
      cases stepped
      exact control.pushTask (.record e) s.promises
  | add sink =>
      cases stepped
      exact control.pushTask (.add sink) s.promises
  | remove sink =>
      cases stepped
      exact control.pushTask (.remove sink) s.promises
  | flush =>
      cases stepped
      exact control.pushTask _ _
  | notify =>
      simp only [AsyncLogging.step] at stepped
      split at stepped
      · cases stepped
      · cases stepped
        exact control.notify _
  | destroy => exact control.destroy stepped
  | work => exact control.work stepped
  | wake =>
      simp only [AsyncLogging.step] at stepped
      split at stepped
      · rename_i sleeps
        cases stepped
        have woken := control.notify s.notifies
        rw [AsyncLogging.notifyOne_eq, sleeps] at woken
        exact woken
      · cases stepped

theorem reachable {guard : AsyncLogging → AsyncLogging.Action → Prop}
    (reached : Reachable AsyncLogging.step guard .start s) : Control s :=
  reached.invariant start fun _ _ _ held _ stepped => held.step stepped

/-- While the destructor has not begun, the thread does not take the queue over for the last time. -/
theorem not_last (control : Control s) (alive : s.destructor = .alive) : s.worker.last = false := by
  have finishing := (control.alive alive).2
  cases here : s.worker with
  | executes next last =>
      rw [here] at finishing
      exact finishing
  | ended =>
      rw [here] at finishing
      cases finishing
  | _ => rfl

end Control

/-- The thread ends only when it has done what its last look at the queue found. -/
theorem done_of_join {s₁ s : AsyncLogging}
    (before : Reachable AsyncLogging.step AsyncLogging.Fits .start s₁) (alive : s₁.destructor = .alive)
    (later : Reachable AsyncLogging.step AsyncLogging.Fits s₁ s) (joined : s.destructor = .joined) :
    ∃ done, s.sinks = .replay done ∧ s₁.accepted <+: done ∧ done <+: s.accepted := by
  have looks := (Control.reachable before).not_last alive
  have accounted := (accounted_start.reachable before).of_reachable looks
  obtain ⟨done, current, waiting, split, -, covered⟩ := accounted.reachable later
  have ended := (Control.reachable (before.trans later)).ended joined
  have nothing : current = [] := split.current_nil (by simp [Worker.Between, ended])
  have included := covered (by rw [ended]; rfl)
  rw [nothing, List.append_nil] at included
  exact ⟨done, split.sinks, included, split.done_prefix⟩

/-- **The destructor waits for all that was accepted before it began.** -/
theorem join_performs {s₁ s : AsyncLogging}
    (before : Reachable AsyncLogging.step AsyncLogging.Fits .start s₁) (alive : s₁.destructor = .alive)
    (later : Reachable AsyncLogging.step AsyncLogging.Fits s₁ s) (joined : s.destructor = .joined) :
    ∃ done, s.sinks = .replay done ∧ s₁.accepted <+: done ∧ done <+: s.accepted :=
  done_of_join before alive later joined

/-- The thread sleeps when the destructor begins; another sink is added meanwhile. -/
theorem join_performs_sleeping :
    ∃ s, run AsyncLogging.step .start [.work, .work, .add 7, .destroy, .destroy, .add 8, .destroy, .work, .work,
        .work, .work, .work, .work, .work, .work, .destroy] = some s ∧
      ∃ done, s.sinks = .replay done ∧ [.add 7] <+: done ∧ done <+: s.accepted :=
  ⟨_, rfl, join_performs (System.reachable_of_meets [.work, .work, .add 7] (by decide) rfl) rfl
    (System.reachable_of_meets [.destroy, .destroy, .add 8, .destroy, .work, .work, .work, .work, .work,
      .work, .work, .work, .destroy] (by decide) rfl) rfl⟩

/-! ### Progress -/

/-- What goes on when nobody pushes anything more, and the thread wakes up only when it is notified.
A destructor that has not begun does not begin. -/
def AsyncLogging.proceed (s : AsyncLogging) : AsyncLogging.Action → Option AsyncLogging
  | .notify => s.step .notify
  | .destroy => if s.destructor = .alive then none else s.destroy
  | .work => s.work
  | _ => none

def Worker.rank : Worker → Nat
  | .executes _ false => 6
  | .tests => 5
  | .finalizes => 4
  | .executes _ true => 3
  | .looks => 2
  | .sleeps => 1
  | .ended => 0

def Destructor.rank : Destructor → Nat
  | .alive => 4
  | .cleared => 3
  | .pushed => 2
  | .joins => 1
  | .joined => 0

/-- More than what is still to be done. -/
def AsyncLogging.size (s : AsyncLogging) : Nat :=
  6 * s.impl.taskQueue.length + s.remaining.length + 2 * s.notifies + s.worker.rank + 7 * s.destructor.rank

namespace AsyncLogging

variable {s s' : AsyncLogging}

theorem size_of_between (between : s.worker.Between) :
    s.size = 6 * s.impl.taskQueue.length + 2 * s.notifies + s.worker.rank + 7 * s.destructor.rank := by
  rw [size, remaining_nil between, List.length_nil, Nat.add_zero]

/-- A notification costs more than it can cause. -/
theorem size_notifyOne_le (s : AsyncLogging) : s.notifyOne.size ≤ s.size + 1 := by
  unfold notifyOne
  split
  · rename_i sleeps
    have before : s.worker.Between := by simp [Worker.Between, sleeps]
    have after : ({ s with worker := .looks } : AsyncLogging).worker.Between := by simp [Worker.Between]
    rw [size_of_between before, size_of_between after, sleeps]
    simp only [Worker.rank]
    omega
  · exact Nat.le_succ _

theorem size_work_lt {done current waiting : List Event} (split : Split s done current waiting)
    (stepped : s.work = some s') : s'.size < s.size := by
  unfold work at stepped
  cases here : s.worker with
  | tests =>
      have before : s.worker.Between := by simp [Worker.Between, here]
      rw [here] at stepped
      cases stepped
      have after : (if s.running then Worker.looks else .finalizes).Between := by
        intro _ _ same
        split at same <;> cases same
      rw [size_of_between before, size_of_between after, here]
      cases s.running <;> simp [Worker.rank]
  | looks =>
      have before : s.worker.Between := by simp [Worker.Between, here]
      simp only [here] at stepped
      split at stepped
      · cases stepped
        have after : ({ s with worker := .sleeps } : AsyncLogging).worker.Between := by simp [Worker.Between]
        rw [size_of_between before, size_of_between after, here]
        simp [Worker.rank]
      · rename_i queued
        cases stepped
        have some := List.length_pos_iff.mpr queued
        rw [size_of_between before, here, size]
        simp only [remaining, AsyncLoggingImpl.swapBuffers, (split.between before).1, List.drop_zero,
          List.length_nil, Worker.rank]
        omega
  | sleeps =>
      rw [here] at stepped
      cases stepped
  | executes next last =>
      simp only [here] at stepped
      unfold execute at stepped
      split at stepped
      · rename_i task found
        obtain ⟨below, -⟩ := List.getElem?_eq_some_iff.mp found
        obtain ⟨sinks, -, rfl⟩ := Option.map_eq_some_iff.mp stepped
        simp only [size, remaining, here, List.length_drop]
        cases last <;> simp only [Worker.rank] <;> omega
      · cases stepped
        have after : (if last then Worker.ended else .tests).Between := by
          intro _ _ same
          split at same <;> cases same
        rw [size_of_between after, size, here]
        simp only [AsyncLoggingImpl.clear]
        cases last <;> simp only [Worker.rank, Bool.false_eq_true, if_false, if_true] <;> omega
  | finalizes =>
      have before : s.worker.Between := by simp [Worker.Between, here]
      rw [here] at stepped
      cases stepped
      rw [size_of_between before, here, size]
      simp only [remaining, AsyncLoggingImpl.swapBuffers, (split.between before).1, List.drop_zero,
        List.length_nil, Worker.rank]
      omega
  | ended =>
      rw [here] at stepped
      cases stepped

theorem size_destroy_lt (began : s.destructor ≠ .alive) (stepped : s.destroy = some s') : s'.size < s.size := by
  unfold destroy at stepped
  split at stepped
  · rename_i alive
    exact absurd alive began
  · rename_i cleared
    cases stepped
    simp only [size, push, remaining, AsyncLoggingImpl.pushTask, cleared, Destructor.rank,
      List.length_append, List.length_singleton]
    omega
  · rename_i pushed
    cases stepped
    have small := s.size_notifyOne_le
    have same : ({ s.notifyOne with destructor := .joins } : AsyncLogging).size + 7 = s.notifyOne.size := by
      rw [notifyOne_eq]
      simp only [size, remaining, pushed, Destructor.rank]
    omega
  · rename_i joins
    split at stepped
    · cases stepped
      simp only [size, remaining, joins, Destructor.rank]
      omega
    · cases stepped
  · cases stepped

theorem size_notify_lt (stepped : s.step .notify = some s') : s'.size < s.size := by
  simp only [step] at stepped
  split at stepped
  · cases stepped
  · rename_i some
    have small := s.size_notifyOne_le
    have same : ({ s.notifyOne with notifies := s.notifies - 1 } : AsyncLogging).size + 2 = s.notifyOne.size := by
      rw [notifyOne_eq]
      simp only [size, remaining]
      omega
    have less : ({ s.notifyOne with notifies := s.notifies - 1 } : AsyncLogging).size < s.size := by omega
    rw [← Option.some.inj stepped]
    exact less

/-- To proceed is one of the things that are done. -/
theorem step_of_proceed {a : Action} (proceeded : s.proceed a = some s') :
    s.step a = some s' ∧ s.Fits a := by
  cases a with
  | notify => exact ⟨proceeded, trivial⟩
  | destroy =>
      simp only [proceed] at proceeded
      split at proceeded
      · cases proceeded
      · exact ⟨proceeded, trivial⟩
  | work => exact ⟨proceeded, trivial⟩
  | _ => cases proceeded

theorem size_proceed_lt {done current waiting : List Event} (split : Split s done current waiting) {a : Action}
    (proceeded : s.proceed a = some s') : s'.size < s.size := by
  cases a with
  | notify => exact size_notify_lt proceeded
  | destroy =>
      simp only [proceed] at proceeded
      split at proceeded
      · cases proceeded
      · rename_i began
        exact size_destroy_lt began proceeded
  | work => exact size_work_lt split proceeded
  | _ => cases proceeded

/-- The destructor neither begins nor has it not begun any more. -/
theorem alive_of_proceed {a : Action} (proceeded : s.proceed a = some s') :
    s'.destructor = .alive ↔ s.destructor = .alive := by
  cases a with
  | notify =>
      simp only [proceed, step] at proceeded
      split at proceeded
      · cases proceeded
      · cases proceeded
        rw [notifyOne_eq]
  | destroy =>
      simp only [proceed] at proceeded
      split at proceeded
      · cases proceeded
      · rename_i began
        unfold destroy at proceeded
        split at proceeded
        · rename_i alive
          exact absurd alive began
        · cases proceeded
          simp [began]
        · cases proceeded
          simp [began]
        · split at proceeded
          · cases proceeded
            simp [began]
          · cases proceeded
        · cases proceeded
  | work =>
      simp only [proceed, work] at proceeded
      split at proceeded
      · cases proceeded
        exact Iff.rfl
      · split at proceeded
        · cases proceeded
          exact Iff.rfl
        · cases proceeded
          exact Iff.rfl
      · cases proceeded
      · unfold execute at proceeded
        split at proceeded
        · obtain ⟨sinks, -, rfl⟩ := Option.map_eq_some_iff.mp proceeded
          exact Iff.rfl
        · cases proceeded
          exact Iff.rfl
      · cases proceeded
        exact Iff.rfl
      · cases proceeded
  | _ => cases proceeded

/-- A thread that sleeps though there are tasks will be notified. -/
theorem proceeds_of_queued (control : Control s) (sleeps : s.worker = .sleeps) (queued : s.impl.taskQueue ≠ []) :
    ∃ a s', s.proceed a = some s' := by
  rcases control.notified sleeps queued with some | pushed
  · have nonzero : s.notifies ≠ 0 := by omega
    exact ⟨.notify, _, if_neg nonzero⟩
  · have proceeded : s.proceed .destroy = some { s.notifyOne with destructor := .joins } := by
      simp [proceed, destroy, pushed]
    exact ⟨.destroy, _, proceeded⟩

/-- A destructor that has begun waits for nothing that does not come. -/
theorem proceeds_of_began {done current waiting : List Event} (control : Control s)
    (split : Split s done current waiting) (began : s.destructor ≠ .alive) (waits : s.destructor ≠ .joined) :
    ∃ a s', s.proceed a = some s' := by
  have destroys : s.proceed .destroy = s.destroy := if_neg began
  cases here : s.destructor with
  | alive => exact absurd here began
  | cleared => exact ⟨.destroy, _, destroys.trans (by unfold destroy; rw [here])⟩
  | pushed => exact ⟨.destroy, _, destroys.trans (by unfold destroy; rw [here])⟩
  | joins =>
      by_cases ended : s.worker = .ended
      · exact ⟨.destroy, _, destroys.trans (by unfold destroy; rw [here]; exact if_pos ended)⟩
      · by_cases sleeps : s.worker = .sleeps
        · exact proceeds_of_queued control sleeps (control.woken (.inr here) (.inr sleeps))
        · obtain ⟨s', works⟩ := split.work_enabled sleeps ended
          exact ⟨.work, s', works⟩
  | joined => exact absurd here waits

end AsyncLogging

/-- What is kept while the system proceeds. -/
structure Proceeding (target : List Event) (size : Nat) (s : AsyncLogging) : Prop where
  control : Control s
  accounted : Accounted target s
  size : s.size = size

theorem Proceeding.proceed {target : List Event} {size : Nat} {s s' : AsyncLogging}
    (proceeding : Proceeding target size s) {a : AsyncLogging.Action} (proceeded : s.proceed a = some s') :
    ∃ size' < size, Proceeding target size' s' := by
  obtain ⟨done, current, waiting, split, -, -⟩ := proceeding.accounted
  obtain ⟨stepped, fits⟩ := AsyncLogging.step_of_proceed proceeded
  have less := AsyncLogging.size_proceed_lt split proceeded
  rw [proceeding.size] at less
  exact ⟨_, less, proceeding.control.step stepped, proceeding.accounted.step fits stepped, rfl⟩

/-- Something can be done, unless the target is. -/
theorem Proceeding.proceeds {target : List Event} {size : Nat} {s : AsyncLogging}
    (proceeding : Proceeding target size s) :
    (∃ done, s.sinks = .replay done ∧ target <+: done ∧ done <+: s.accepted) ∨
      ∃ a s', s.proceed a = some s' := by
  obtain ⟨done, current, waiting, split, included, covered⟩ := proceeding.accounted
  by_cases ended : s.worker = .ended
  · have nothing : current = [] := split.current_nil (by simp [Worker.Between, ended])
    have whole := covered (by rw [ended]; rfl)
    rw [nothing, List.append_nil] at whole
    exact .inl ⟨done, split.sinks, whole, split.done_prefix⟩
  · by_cases sleeps : s.worker = .sleeps
    · by_cases empty : s.impl.taskQueue = []
      · left
        have queued := split.queued
        rw [empty, List.forall₂_nil_left_iff] at queued
        have nothing : current = [] := split.current_nil (by simp [Worker.Between, sleeps])
        have accepted := split.accepted
        rw [nothing, queued, List.append_nil, List.append_nil] at accepted
        rw [accepted] at included
        exact ⟨done, split.sinks, included, split.done_prefix⟩
      · exact .inr (AsyncLogging.proceeds_of_queued proceeding.control sleeps empty)
    · obtain ⟨s', works⟩ := split.work_enabled sleeps ended
      exact .inr ⟨.work, s', works⟩

theorem proceeding_of_reachable {target : List Event} {s : AsyncLogging}
    (reached : Reachable AsyncLogging.step AsyncLogging.Fits .start s) (accounted : Accounted target s) :
    Proceeding target s.size s :=
  ⟨Control.reachable reached, accounted, rfl⟩

/-- **The destructor returns**, wherever the thread was when it began. -/
theorem join_inevitable {s : AsyncLogging}
    (reached : Reachable AsyncLogging.step AsyncLogging.Fits .start s) (began : s.destructor ≠ .alive) :
    Inevitable AsyncLogging.proceed (fun s => s.destructor = .joined) s := by
  have holds := proceeding_of_reachable reached (accounted_start.reachable reached)
  suffices progress : ∀ size s, Proceeding [] size s ∧ s.destructor ≠ .alive → s.destructor = .joined ∨
      (∃ a s', s.proceed a = some s') ∧ ∀ a s', s.proceed a = some s' →
        ∃ size' < size, Proceeding [] size' s' ∧ s'.destructor ≠ .alive by
    exact Inevitable.of_measure Nat.lt_wfRel.wf progress ⟨holds, began⟩
  rintro size s ⟨proceeding, began⟩
  by_cases joined : s.destructor = .joined
  · exact .inl joined
  · right
    obtain ⟨done, current, waiting, split, -, -⟩ := proceeding.accounted
    constructor
    · exact AsyncLogging.proceeds_of_began proceeding.control split began joined
    · intro a s' proceeded
      obtain ⟨size', less, proceeding'⟩ := proceeding.proceed proceeded
      exact ⟨size', less, proceeding', fun alive => began ((AsyncLogging.alive_of_proceed proceeded).mp alive)⟩

/-- The thread goes to sleep after the destructor has cleared the flag. -/
theorem join_inevitable_sleeping :
    ∃ s, run AsyncLogging.step .start [.work, .destroy, .work] = some s ∧
      Inevitable AsyncLogging.proceed (fun s => s.destructor = .joined) s :=
  ⟨_, rfl, join_inevitable (System.reachable_of_meets [.work, .destroy, .work] (by decide) rfl) (by decide)⟩

/-- **All that was accepted gets done**, if the destructor has not begun by then. -/
theorem performed_inevitably {s₁ : AsyncLogging}
    (reached : Reachable AsyncLogging.step AsyncLogging.Fits .start s₁) (alive : s₁.destructor = .alive) :
    Inevitable AsyncLogging.proceed (fun s => ∃ done, s.sinks = .replay done ∧ s₁.accepted <+: done) s₁ := by
  have looks := (Control.reachable reached).not_last alive
  have holds := proceeding_of_reachable reached ((accounted_start.reachable reached).of_reachable looks)
  suffices progress : ∀ size s, Proceeding s₁.accepted size s →
      (∃ done, s.sinks = .replay done ∧ s₁.accepted <+: done) ∨ (∃ a s', s.proceed a = some s') ∧
        ∀ a s', s.proceed a = some s' → ∃ size' < size, Proceeding s₁.accepted size' s' by
    exact Inevitable.of_measure Nat.lt_wfRel.wf progress holds
  intro size s proceeding
  rcases proceeding.proceeds with ⟨done, replayed, included, -⟩ | enabled
  · exact .inl ⟨done, replayed, included⟩
  · exact .inr ⟨enabled, fun a s' proceeded => proceeding.proceed proceeded⟩

/-- The thread sleeps, and is still to be notified. -/
theorem performed_inevitably_sleeping :
    ∃ s, run AsyncLogging.step .start [.work, .work, .add 7] = some s ∧
      Inevitable AsyncLogging.proceed (fun s => ∃ done, s.sinks = .replay done ∧ [.add 7] <+: done) s :=
  ⟨_, rfl, performed_inevitably (System.reachable_of_meets [.work, .work, .add 7] (by decide) rfl) rfl⟩

end AlpacaCore.Jalog
