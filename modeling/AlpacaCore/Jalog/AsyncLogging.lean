import AlpacaCore.Jalog.Logger
import Mathlib.Algebra.Ring.Nat

/-!
`AsyncLogging` with its `AsyncLoggingThread`: entries are queued, and a thread records them.

Of an entry the queue keeps everything but its text, which is copied to a buffer that may move; the
entry knows where its text begins there, as an `int`. The thread takes the queue and the buffer over
at once, and goes through the tasks without the lock. `recorded` is every call of `record` that is
made of the sinks, in order; `accepted` is what was pushed, in the order in which the lock was taken.

The condition variable may wake the thread up without a notification. That a sink throws is left
out, and that it logs itself.
-/

namespace AlpacaCore.Jalog

open AlpacaCore.System (Reachable Inevitable)

/-- Of the text of the entry only the size is still good. -/
structure LogEntry where
  scope : ScopeDesc
  level : Level
  timestamp : Int
  size : Nat
  ibegin : Int
deriving DecidableEq

inductive Task where
  | logEntry (le : LogEntry)
  | addSink (sink : Nat)
  | removeSink (sink : Nat)
  | synchronize (promise : Nat)
deriving DecidableEq

/-- What was to be done when it was pushed. -/
inductive Event where
  | record (e : Entry)
  | add (sink : Nat)
  | remove (sink : Nat)
  | synchronize (promise : Nat)
deriving DecidableEq

/-- `int(size)`, for an `int` of 32 bits -/
def toInt (size : Nat) : Int := Int.bmod size (2 ^ 32)

/-- `std::string_view(data + ibegin, size)`; outside of the buffer it is undefined. -/
def view (buffer : List UInt8) (ibegin : Int) (size : Nat) : Option (List UInt8) :=
  if 0 ≤ ibegin ∧ ibegin + size ≤ buffer.length then some ((buffer.drop ibegin.toNat).take size) else none

/-- What the tasks act on. -/
structure Sinks where
  sinks : List Nat
  recorded : List (Nat × Entry)
  /-- the promises that are set -/
  promises : List Nat
deriving DecidableEq

namespace Sinks

def start : Sinks := ⟨[], [], []⟩

def record (x : Sinks) (e : Entry) : Sinks :=
  { x with recorded := x.recorded ++ x.sinks.map fun sink => (sink, e) }

def add (x : Sinks) (sink : Nat) : Sinks := { x with sinks := x.sinks ++ [sink] }

/-- `erase_all_if` -/
def remove (x : Sinks) (sink : Nat) : Sinks := { x with sinks := x.sinks.filter (· ≠ sink) }

def setValue (x : Sinks) (promise : Nat) : Sinks := { x with promises := x.promises ++ [promise] }

/-- A task is executed. -/
def execute (x : Sinks) (loggingTextBuffer : List UInt8) : Task → Option Sinks
  | .logEntry le => (view loggingTextBuffer le.ibegin le.size).map fun text =>
      x.record ⟨le.scope, le.level, le.timestamp, text⟩
  | .addSink sink => some (x.add sink)
  | .removeSink sink => some (x.remove sink)
  | .synchronize promise => some (x.setValue promise)

/-- What was to be done is done. -/
def perform (x : Sinks) : Event → Sinks
  | .record e => x.record e
  | .add sink => x.add sink
  | .remove sink => x.remove sink
  | .synchronize promise => x.setValue promise

/-- All this, one after the other. -/
def replay (events : List Event) : Sinks := events.foldl perform start

end Sinks

structure AsyncLoggingImpl where
  taskQueue : List Task
  textBuffer : List UInt8
  executingTasks : List Task
  loggingTextBuffer : List UInt8
deriving DecidableEq

namespace AsyncLoggingImpl

/-- `swapBuffers`, where its assertion holds. -/
def swapBuffers (l : AsyncLoggingImpl) : AsyncLoggingImpl :=
  ⟨l.executingTasks, l.loggingTextBuffer, l.taskQueue, l.textBuffer⟩

/-- What `executeTasks` ends with. -/
def clear (l : AsyncLoggingImpl) : AsyncLoggingImpl :=
  { l with executingTasks := [], loggingTextBuffer := [] }

/-- `pushTaskL` -/
def pushTask (l : AsyncLoggingImpl) : Event → AsyncLoggingImpl
  | .record e => { l with
      textBuffer := l.textBuffer ++ e.text ++ [0]
      taskQueue := l.taskQueue ++
        [.logEntry ⟨e.scope, e.level, e.timestamp, e.text.length, toInt l.textBuffer.length⟩] }
  | .add sink => { l with taskQueue := l.taskQueue ++ [.addSink sink] }
  | .remove sink => { l with taskQueue := l.taskQueue ++ [.removeSink sink] }
  | .synchronize promise => { l with taskQueue := l.taskQueue ++ [.synchronize promise] }

end AsyncLoggingImpl

/-- Where the thread is. -/
inductive Worker where
  /-- `m_running.test_and_set` -/
  | tests
  /-- In `update`, about to look whether there are tasks. -/
  | looks
  | sleeps
  /-- In `executeTasks`, at this task; it may be that of `finalize`. -/
  | executes (next : Nat) (last : Bool)
  /-- In `finalize`, about to take the lock. -/
  | finalizes
  | ended
deriving DecidableEq

/-- Where the destructor of the thread's `Impl` is. -/
inductive Destructor where
  | alive
  /-- `m_running.clear` was called. -/
  | cleared
  /-- `wakeUp` has pushed its task. -/
  | pushed
  /-- `wakeUp` has notified. -/
  | joins
  | joined
deriving DecidableEq

structure AsyncLogging where
  impl : AsyncLoggingImpl
  sinks : Sinks
  running : Bool
  worker : Worker
  destructor : Destructor
  /-- Of how many pushes the notification is still to come. -/
  notifies : Nat
  /-- how many promises were made -/
  promises : Nat
  accepted : List Event
deriving DecidableEq

namespace AsyncLogging

inductive Action where
  | record (e : Entry)
  | add (sink : Nat)
  | remove (sink : Nat)
  | flush
  | notify
  /-- the next step of the destructor -/
  | destroy
  /-- the next step of the thread -/
  | work
  /-- The thread wakes up without a notification. -/
  | wake

def start : AsyncLogging :=
  ⟨⟨[], [], [], []⟩, .start, true, .tests, .alive, 0, 0, []⟩

/-- The locked part of a push. -/
def push (s : AsyncLogging) (event : Event) : AsyncLogging :=
  { s with impl := s.impl.pushTask event, accepted := s.accepted ++ [event] }

/-- A push, whose notification comes next. -/
def pushTask (s : AsyncLogging) (event : Event) : AsyncLogging :=
  { s.push event with notifies := s.notifies + 1 }

/-- `m_tasksCv.notify_one` -/
def notifyOne (s : AsyncLogging) : AsyncLogging :=
  match s.worker with
  | .sleeps => { s with worker := .looks }
  | _ => s

/-- The tasks that `executeTasks` has still to go through. -/
def remaining (s : AsyncLogging) : List Task :=
  match s.worker with
  | .executes next _ => s.impl.executingTasks.drop next
  | _ => []

/-- The task that is next, or the end of `executeTasks`. -/
def execute (s : AsyncLogging) (next : Nat) (last : Bool) : Option AsyncLogging :=
  match s.impl.executingTasks[next]? with
  | some task => (s.sinks.execute s.impl.loggingTextBuffer task).map fun sinks =>
      { s with sinks, worker := .executes (next + 1) last }
  | none => some { s with impl := s.impl.clear, worker := if last then .ended else .tests }

def work (s : AsyncLogging) : Option AsyncLogging :=
  match s.worker with
  | .tests => some { s with running := true, worker := if s.running then .looks else .finalizes }
  | .looks =>
      if s.impl.taskQueue = [] then some { s with worker := .sleeps }
      else some { s with impl := s.impl.swapBuffers, worker := .executes 0 false }
  | .sleeps => none
  | .executes next last => s.execute next last
  | .finalizes => some { s with impl := s.impl.swapBuffers, worker := .executes 0 true }
  | .ended => none

def destroy (s : AsyncLogging) : Option AsyncLogging :=
  match s.destructor with
  | .alive => some { s with running := false, destructor := .cleared }
  | .cleared => some { s.push (.synchronize s.promises) with
      destructor := .pushed, promises := s.promises + 1 }
  | .pushed => some { s.notifyOne with destructor := .joins }
  | .joins => if s.worker = .ended then some { s with destructor := .joined } else none
  | .joined => none

def step (s : AsyncLogging) : Action → Option AsyncLogging
  | .record e => some (s.pushTask (.record e))
  | .add sink => some (s.pushTask (.add sink))
  | .remove sink => some (s.pushTask (.remove sink))
  | .flush => some { s.pushTask (.synchronize s.promises) with promises := s.promises + 1 }
  | .notify => if s.notifies = 0 then none else some { s.notifyOne with notifies := s.notifies - 1 }
  | .destroy => s.destroy
  | .work => s.work
  | .wake => match s.worker with
      | .sleeps => some { s with worker := .looks }
      | _ => none

/-- Where the text of an entry begins is an `int`. -/
def Fits (s : AsyncLogging) : Action → Prop
  | .record _ => s.impl.textBuffer.length < 2 ^ 31
  | _ => True

instance (s : AsyncLogging) : ∀ a, Decidable (s.Fits a)
  | .record _ => inferInstanceAs (Decidable (_ < _))
  | .add _ | .remove _ | .flush | .notify | .destroy | .work | .wake => isTrue trivial

end AsyncLogging

end AlpacaCore.Jalog
