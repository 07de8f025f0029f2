import AlpacaCore.Io.Operations

/-!
One reader and one writer attached through `basic_xio` to one channel, each
over its own wait object, with every step that other threads can get between
kept apart:

* a call under the channel's mutex, which may take a callback out of
  `m_notify`;
* calling that callback after the unlock, which is `notify_one` on the wait
  object of the party that registered it;
* starting the wait after `init_async_io` was blocked;
* the expiry of a timer, the return of `cvar_wobj::just_wait`, and the handlers
  a strand runs, one at a time and in the order they were posted.

Each party has at most one operation outstanding. A callback carries, besides
its party, the number of the operation that registered it. The code has no such
number; here it tells the notifications apart.
-/

namespace AlpacaCore.Io

inductive Party where
  | reader
  | writer
deriving DecidableEq, Repr

/-- The stream operation a party performs. -/
def Party.dir : Party → Dir
  | .reader => .read
  | .writer => .write

/-- The wait object types. -/
inductive Wobj where
  | cvar
  | timer
  | strand
deriving DecidableEq, Repr

/-- `astl::timeout`, as far as `is_infinite` tells. -/
inductive Timeout where
  | never
  | after
deriving DecidableEq, Repr

/-- How an operation was issued: `sync_io`, or `async_io` with its timeout. -/
inductive Kind where
  | sync
  | async (timeout : Timeout)
deriving DecidableEq, Repr

/-- `notify_one_on_blocked(m_wobj)`, registered by operation `op` of `party`. -/
structure Callback where
  party : Party
  op : Nat
deriving DecidableEq, Repr

/-- What follows once `unlock_notify` has called the callback it took out: the
completion is posted (`init_async_io`), or the operation ends. -/
inductive Next where
  | post
  | finish
deriving DecidableEq, Repr

/-- Where a party's operation stands. -/
inductive Phase where
  /-- no operation outstanding -/
  | idle
  /-- in `unlock_notify`, the lock released and `callback` about to be called -/
  | calling (next : Next) (status : Status) (callback : Callback)
  /-- `init_async_io` completed; the completion is not posted yet -/
  | initiated (status : Status)
  /-- the completion is posted -/
  | posted (status : Status)
  /-- `init_async_io` was blocked; the wait is not started yet -/
  | registered
  /-- the wait is started -/
  | waiting
  /-- the wait is over and its handler is to run with this error code -/
  | woken (ec : Bool)
deriving DecidableEq, Repr

/-- An ended operation and its final status. -/
structure Result where
  op : Nat
  kind : Kind
  status : Status
deriving DecidableEq, Repr

structure Peer (T : Type) where
  phase : Phase
  /-- the number of the last operation issued -/
  op : Nat
  kind : Kind
  value : T
  /-- `cvar_wobj::m_flag`: the operations whose `notify_one` set it since it was
  last cleared; the flag is true when there is one -/
  flag : List Nat
  results : List Result

/-- The callback a party in this phase is about to call. -/
def Phase.callee : Phase → List Callback
  | .calling _ _ cb => [cb]
  | _ => []

/-- The operation is blocked and its wait is not over. -/
def Phase.Awaits (phase : Phase) : Prop := phase = .registered ∨ phase = .waiting

/-- The status the outstanding operation is about to end with, once known. -/
def Phase.status : Phase → List Status
  | .calling _ status _ => [status]
  | .initiated status => [status]
  | .posted status => [status]
  | _ => []

/-- The statuses of the operations a party has ended or is about to end. -/
def Peer.statuses {T : Type} (peer : Peer T) : List (Kind × Status) :=
  peer.results.map (fun r => (r.kind, r.status)) ++
    peer.phase.status.map fun status => (peer.kind, status)

/-- A handler posted to a strand. -/
inductive Task where
  /-- posted by `notify_one` of `timer_wobj` and `strand_wobj` -/
  | notify (callback : Callback)
  /-- the wait handler of a timer, queued when the wait ended -/
  | handler (party : Party)
  /-- the completion posted by `init_async_io` -/
  | complete (party : Party)
deriving DecidableEq, Repr

/-- The party whose wait object or operation the handler is about. -/
def Task.party : Task → Party
  | .notify cb => cb.party
  | .handler p => p
  | .complete p => p

/-- The capacity of the channel, and what each party waits on: the type of its
wait object and, unless that is a `cvar_wobj`, its strand. -/
structure Config where
  maxSize : Nat
  maxSize_pos : 0 < maxSize
  wobj : Party → Wobj
  strand : Party → Nat

structure Net (T : Type) where
  channel : BufferedChannel T Callback
  peer : Party → Peer T
  tasks : Nat → List Task
  /-- callbacks a `close` took out and has not called yet -/
  closing : List Callback

namespace Net

inductive Action (T : Type) where
  | sync (p : Party) (t : T)
  /-- `async_io` up to the unlock in `init_async_io` -/
  | async (p : Party) (timeout : Timeout) (t : T)
  /-- the callback taken out by the party's call is called -/
  | call (p : Party)
  | post (p : Party)
  | wait (p : Party)
  /-- `cvar_wobj::just_wait` finds the flag set -/
  | wake (p : Party)
  /-- the time given to the wait is over -/
  | expire (p : Party)
  /-- the handler runs after `just_wait` returned -/
  | retry (p : Party)
  /-- a strand runs the handler at the head of its queue -/
  | task (strand : Nat)
  /-- any thread closes the channel -/
  | close
  | callClosing (callback : Callback)

variable {T : Type}

def start [Inhabited T] (cfg : Config) : Net T where
  channel := .create cfg.maxSize
  peer := fun _ => ⟨.idle, 0, .sync, default, [], []⟩
  tasks := fun _ => []
  closing := []

def setPeer (s : Net T) (p : Party) (peer : Peer T) : Net T :=
  { s with peer := Function.update s.peer p peer }

/-- `xec::post` to a strand. -/
def pushTask (s : Net T) (strand : Nat) (task : Task) : Net T :=
  { s with tasks := Function.update s.tasks strand (s.tasks strand ++ [task]) }

/-- The party is in the middle of a handler on its strand. -/
def Running (cfg : Config) (s : Net T) (p : Party) : Prop :=
  cfg.wobj p ≠ .cvar ∧
    match (s.peer p).phase with
    | .calling _ _ _ => (s.peer p).kind ≠ .sync
    | .initiated _ => True
    | .registered => True
    | _ => False

instance (cfg : Config) (s : Net T) (p : Party) : Decidable (Running cfg s p) := by
  unfold Running
  split <;> infer_instance

/-- The strand is between two handlers. -/
def StrandFree (cfg : Config) (s : Net T) (strand : Nat) : Prop :=
  (cfg.strand .reader = strand → ¬ Running cfg s .reader) ∧
    (cfg.strand .writer = strand → ¬ Running cfg s .writer)

instance (cfg : Config) (s : Net T) (strand : Nat) : Decidable (StrandFree cfg s strand) := by
  unfold StrandFree
  infer_instance

/-- `notify_one` of the wait object of the callback's party: `cvar_wobj` sets
its flag, the others post to their strand. -/
def notifyOne (cfg : Config) (s : Net T) (cb : Callback) : Net T :=
  match cfg.wobj cb.party with
  | .cvar =>
      let peer := s.peer cb.party
      s.setPeer cb.party { peer with flag := peer.flag ++ [cb.op] }
  | .timer => s.pushTask (cfg.strand cb.party) (.notify cb)
  | .strand => s.pushTask (cfg.strand cb.party) (.notify cb)

/-- The operation of `p` ends: its caller gets the status. -/
def finish (s : Net T) (p : Party) (status : Status) : Net T :=
  let peer := s.peer p
  s.setPeer p { peer with
    phase := .idle
    results := peer.results ++ [⟨peer.op, peer.kind, status⟩] }

/-- What follows a call under the lock that is not blocked or is the last of its
operation: the callback it took out is to be called first. -/
def settle (s : Net T) (p : Party) (next : Next) (status : Status) (notified : Option Callback) :
    Net T :=
  match notified with
  | some cb => s.setPeer p { s.peer p with phase := .calling next status cb }
  | none =>
      match next with
      | .post => s.setPeer p { s.peer p with phase := .initiated status }
      | .finish => s.finish p status

/-- The wait handler of `async_io`: the re-try with `nullptr`. -/
def runHandler [Movable T] (s : Net T) (p : Party) (ec : Bool) : Net T :=
  let peer := s.peer p
  let out := streamOp p.dir s.channel peer.value none
  let status := Traffic.handlerStatus (peer.kind == .async .after) ec out.result.status
  { s.setPeer p { peer with value := out.value } with channel := out.channel }.settle p .finish
    status out.notified

/-- The handler at the head of a strand's queue runs. -/
def runTask [Movable T] (cfg : Config) (s : Net T) : Task → Option (Net T)
  | .notify cb =>
      let peer := s.peer cb.party
      if peer.phase = .waiting then
        match cfg.wobj cb.party with
        -- `cancel_one` queues the handler of the pending wait
        | .timer => some ((s.setPeer cb.party { peer with phase := .woken true }).pushTask
            (cfg.strand cb.party) (.handler cb.party))
        -- the posted lambda takes `m_cb` and invokes it
        | .strand => some (s.runHandler cb.party true)
        | .cvar => none
      else
        -- no wait is pending: there is nothing to cancel, or `m_cb` is empty
        some s
  | .handler p =>
      match (s.peer p).phase with
      | .woken ec => some (s.runHandler p ec)
      | _ => none
  | .complete p =>
      match (s.peer p).phase with
      | .posted status => some (s.finish p status)
      | _ => none

def step [Movable T] (cfg : Config) (s : Net T) : Action T → Option (Net T)
  | .sync p t =>
      let peer := s.peer p
      if peer.phase = .idle then
        let out := streamOp p.dir s.channel t none
        some ({ s.setPeer p { peer with op := peer.op + 1, kind := .sync, value := out.value } with
          channel := out.channel }.settle p .finish out.result.status out.notified)
      else none
  | .async p timeout t =>
      let peer := s.peer p
      -- `strand_wobj` has no wait with a timeout
      if peer.phase = .idle ∧ (cfg.wobj p = .strand → timeout = .never) ∧
          (cfg.wobj p ≠ .cvar → StrandFree cfg s (cfg.strand p)) then
        let out := streamOp p.dir s.channel t (some ⟨p, peer.op + 1⟩)
        let s := { s.setPeer p { peer with
            op := peer.op + 1, kind := .async timeout, value := out.value } with
          channel := out.channel }
        if out.result.status.complete then
          some (s.settle p .post out.result.status out.notified)
        else
          some (s.setPeer p { s.peer p with phase := .registered })
      else none
  | .call p =>
      match (s.peer p).phase with
      | .calling next status cb => some ((notifyOne cfg s cb).settle p next status none)
      | _ => none
  | .post p =>
      match (s.peer p).phase with
      | .initiated status =>
          match cfg.wobj p with
          -- `post(immediate_executor)` runs the task at once
          | .cvar => some (s.finish p status)
          | .timer => some ((s.setPeer p { s.peer p with phase := .posted status }).pushTask
              (cfg.strand p) (.complete p))
          | .strand => some ((s.setPeer p { s.peer p with phase := .posted status }).pushTask
              (cfg.strand p) (.complete p))
      | _ => none
  | .wait p =>
      let peer := s.peer p
      if peer.phase = .registered then some (s.setPeer p { peer with phase := .waiting }) else none
  | .wake p =>
      let peer := s.peer p
      if cfg.wobj p = .cvar ∧ peer.phase = .waiting ∧ peer.flag ≠ [] then
        some (s.setPeer p { peer with phase := .woken true, flag := [] })
      else none
  | .expire p =>
      let peer := s.peer p
      if peer.phase = .waiting ∧ peer.kind = .async .after then
        match cfg.wobj p with
        -- `wait_for` returns its predicate, so a set flag is not a timeout
        | .cvar => if peer.flag = [] then some (s.setPeer p { peer with phase := .woken false })
            else none
        | .timer => some ((s.setPeer p { peer with phase := .woken false }).pushTask
            (cfg.strand p) (.handler p))
        | .strand => none
      else none
  | .retry p =>
      match cfg.wobj p, (s.peer p).phase with
      | .cvar, .woken ec => some (s.runHandler p ec)
      | _, _ => none
  | .task strand =>
      match s.tasks strand with
      | [] => none
      | task :: tasks =>
          if StrandFree cfg s strand then
            runTask cfg { s with tasks := Function.update s.tasks strand tasks } task
          else none
  | .close =>
      let (notify, channel) := s.channel.close
      some { s with channel, closing := s.closing ++ notify.toList }
  | .callClosing cb =>
      if cb ∈ s.closing then
        some (notifyOne cfg { s with closing := s.closing.erase cb } cb)
      else none

/-! ### Notifications on their way

A callback taken out of `m_notify` is first in the hands of the thread that
took it out, then, once called, latched in the flag of a `cvar_wobj` or posted
to a strand.
-/

/-- The callbacks taken out of `m_notify` and not called yet. -/
def taken (s : Net T) : List Callback :=
  (s.peer .reader).phase.callee ++ (s.peer .writer).phase.callee ++ s.closing

/-- How many times the callback is taken out and not called, latched, or posted
and not run. -/
def onTheWay (cfg : Config) (s : Net T) (cb : Callback) : Nat :=
  s.taken.count cb + (s.peer cb.party).flag.count cb.op +
    (s.tasks (cfg.strand cb.party)).count (.notify cb)

section Frame

@[simp] theorem setPeer_self (s : Net T) (p : Party) (peer : Peer T) :
    (s.setPeer p peer).peer p = peer := Function.update_self ..

theorem setPeer_other (s : Net T) {p q : Party} (peer : Peer T) (other : q ≠ p) :
    (s.setPeer p peer).peer q = s.peer q := Function.update_of_ne other ..

@[simp] theorem setPeer_channel (s : Net T) (p : Party) (peer : Peer T) :
    (s.setPeer p peer).channel = s.channel := rfl

@[simp] theorem setPeer_tasks (s : Net T) (p : Party) (peer : Peer T) :
    (s.setPeer p peer).tasks = s.tasks := rfl

@[simp] theorem setPeer_closing (s : Net T) (p : Party) (peer : Peer T) :
    (s.setPeer p peer).closing = s.closing := rfl

@[simp] theorem pushTask_peer (s : Net T) (strand : Nat) (task : Task) :
    (s.pushTask strand task).peer = s.peer := rfl

@[simp] theorem pushTask_channel (s : Net T) (strand : Nat) (task : Task) :
    (s.pushTask strand task).channel = s.channel := rfl

@[simp] theorem pushTask_closing (s : Net T) (strand : Nat) (task : Task) :
    (s.pushTask strand task).closing = s.closing := rfl

/-- Only what `p` is about to call can change the count when nothing but the
phase of `p` changes. -/
theorem onTheWay_of_phase (cfg : Config) (s s' : Net T) (p : Party) (tasks : s'.tasks = s.tasks)
    (closing : s'.closing = s.closing) (others : ∀ q, q ≠ p → s'.peer q = s.peer q)
    (flag : (s'.peer p).flag = (s.peer p).flag) (cb : Callback) :
    onTheWay cfg s' cb + (s.peer p).phase.callee.count cb =
      onTheWay cfg s cb + (s'.peer p).phase.callee.count cb := by
  have flags : ∀ q, (s'.peer q).flag = (s.peer q).flag := by
    intro q
    by_cases same : q = p
    · rw [same, flag]
    · rw [others q same]
  unfold onTheWay taken
  rw [tasks, closing, flags]
  cases p with
  | reader =>
      rw [others .writer (by decide)]
      simp only [List.count_append]
      omega
  | writer =>
      rw [others .reader (by decide)]
      simp only [List.count_append]
      omega

/-- Posting a handler that is not a notification leaves the count alone. -/
theorem onTheWay_pushTask (cfg : Config) (s : Net T) (strand : Nat) (task : Task) (cb : Callback) :
    onTheWay cfg (s.pushTask strand task) cb =
      onTheWay cfg s cb + if cfg.strand cb.party = strand ∧ task = .notify cb then 1 else 0 := by
  unfold onTheWay taken
  simp only [pushTask, Function.update_apply]
  by_cases here : cfg.strand cb.party = strand
  · simp only [here, if_true, List.count_append, List.count_singleton, beq_iff_eq, true_and]
    omega
  · simp [here]

/-- Calling a callback keeps it on its way. -/
theorem onTheWay_notifyOne (cfg : Config) (s : Net T) (called cb : Callback) :
    onTheWay cfg (notifyOne cfg s called) cb =
      onTheWay cfg s cb + if cb = called then 1 else 0 := by
  have posts : onTheWay cfg (s.pushTask (cfg.strand called.party) (.notify called)) cb =
      onTheWay cfg s cb + if cb = called then 1 else 0 := by
    rw [onTheWay_pushTask]
    by_cases same : cb = called
    · simp [same]
    · simp [same, Ne.symm same]
  unfold notifyOne
  split
  · unfold onTheWay taken
    by_cases party : cb.party = called.party
    · rw [party, setPeer_self]
      have phases : ∀ q, ((s.setPeer called.party { s.peer called.party with
          flag := (s.peer called.party).flag ++ [called.op] }).peer q).phase =
            (s.peer q).phase := by
        intro q
        by_cases same : q = called.party
        · rw [same, setPeer_self]
        · rw [setPeer_other _ _ same]
      have equal : cb = called ↔ called.op = cb.op := by
        constructor
        · rintro rfl
          rfl
        · intro op
          cases cb
          cases called
          simp_all
      simp only [phases, setPeer_closing, setPeer_tasks, List.count_append, List.count_singleton,
        beq_iff_eq, equal]
      omega
    · have other : cb ≠ called := fun same => party (by rw [same])
      have phases : ∀ q, ((s.setPeer called.party { s.peer called.party with
          flag := (s.peer called.party).flag ++ [called.op] }).peer q).phase =
            (s.peer q).phase := by
        intro q
        by_cases same : q = called.party
        · rw [same, setPeer_self]
        · rw [setPeer_other _ _ same]
      rw [setPeer_other _ _ party]
      simp only [phases, setPeer_closing, setPeer_tasks, other, if_false, Nat.add_zero]
  · exact posts
  · exact posts

end Frame

end Net

end AlpacaCore.Io
