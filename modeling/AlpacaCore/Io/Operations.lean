import AlpacaCore.Io.Channel

/-!
Any number of callers on one channel, over wait objects about which nothing is
assumed.

A caller either calls `write` or `read` directly (with whatever callback it
likes), or issues one of the operations of `basic_xio`: `sync_io` is one call,
`async_io` is a call that registers a callback and, when that call was blocked,
a second call from the wait handler. When a wait object runs the handler, and
with which error code, is left open: it may run it at any moment after the wait
started. What the wait objects of the library do is therefore a special case.

The log records what took effect under the lock, in order. An entry is made
from the status a call returned and the value its caller held, not from the
queue.
-/

namespace AlpacaCore.Io

/-- What took effect under the lock. `op` is the index of the operation. -/
inductive Event (T : Type) where
  | wrote (op : Nat) (t : T)
  | gave (op : Nat) (t : T)
  | sawClosed (dir : Dir) (op : Nat)
  | closed
deriving DecidableEq, Repr

/-- An operation some caller has issued. -/
structure Operation (T : Type) where
  dir : Dir
  /-- `async_io` was given a timeout -/
  timed : Bool
  /-- the caller's value when the operation was issued -/
  given : T
  /-- the caller's value now -/
  value : T
  /-- the final status; `none` while the wait handler has not run -/
  status : Option Status

/-- The channel, the operations issued so far (each known by its index), and
the log. -/
structure Traffic (T Cb : Type) where
  channel : BufferedChannel T Cb
  operations : List (Operation T)
  log : List (Event T)

namespace Traffic

inductive Action (T Cb : Type) where
  /-- a direct call of `write` or `read`; `sync_io` is `call dir t none` -/
  | call (dir : Dir) (t : T) (onBlocked : Option Cb)
  /-- `async_io`, up to where `init_async_io` returned and the wait started -/
  | async (dir : Dir) (timed : Bool) (t : T) (onBlocked : Option Cb)
  /-- the wait handler of an operation runs; `ec` is the truth of its error code -/
  | handler (op : Nat) (ec : Bool)
  | close

variable {T Cb : Type}

def start (maxSize : Nat) : Traffic T Cb := ⟨.create maxSize, [], []⟩

/-- The log entry of a call, if it had an effect: read off its status. -/
def entry (dir : Dir) (op : Nat) (before : T) (out : Outcome T Cb) : List (Event T) :=
  if out.result.status.success then
    match dir with
    | .write => [.wrote op before]
    | .read => [.gave op out.value]
  else if out.result.status.closed then [.sawClosed dir op]
  else []

/-- The status the callback of `async_io` gets from the handler's re-try. -/
def handlerStatus (timed ec : Bool) (s : Status) : Status :=
  if timed && !ec then s.setTimeout else s

def step [Movable T] (s : Traffic T Cb) : Action T Cb → Option (Traffic T Cb)
  | .call dir t onBlocked =>
      let out := streamOp dir s.channel t onBlocked
      let op := ⟨dir, false, t, out.value, some out.result.status⟩
      some ⟨out.channel, s.operations ++ [op], s.log ++ entry dir s.operations.length t out⟩
  | .async dir timed t onBlocked =>
      let out := streamOp dir s.channel t onBlocked
      let status := if out.result.status.complete then some out.result.status else none
      let op := ⟨dir, timed, t, out.value, status⟩
      some ⟨out.channel, s.operations ++ [op], s.log ++ entry dir s.operations.length t out⟩
  | .handler i ec => do
      let op ← s.operations[i]?
      if op.status.isSome then none
      else
        let out := streamOp op.dir s.channel op.value none
        let op' := { op with
          value := out.value
          status := some (handlerStatus op.timed ec out.result.status) }
        some ⟨out.channel, s.operations.set i op', s.log ++ entry op.dir i op.value out⟩
  | .close =>
      some ⟨s.channel.close.2, s.operations, s.log ++ [.closed]⟩

end Traffic

namespace Log

variable {T : Type}

/-- The values taken in by successful writes, in the order of the log. -/
def written : List (Event T) → List T
  | [] => []
  | .wrote _ t :: log => t :: written log
  | _ :: log => written log

/-- The values handed out by successful reads, in the order of the log. -/
def given : List (Event T) → List T
  | [] => []
  | .gave _ t :: log => t :: given log
  | _ :: log => given log

/-- The values operation `op` moved, in or out. -/
def moved (op : Nat) : List (Event T) → List T
  | [] => []
  | .wrote i t :: log => if i = op then t :: moved op log else moved op log
  | .gave i t :: log => if i = op then t :: moved op log else moved op log
  | _ :: log => moved op log

@[simp] theorem written_append (xs ys : List (Event T)) :
    written (xs ++ ys) = written xs ++ written ys := by
  induction xs with
  | nil => rfl
  | cons e xs ih => cases e <;> simp [written, ih]

@[simp] theorem given_append (xs ys : List (Event T)) :
    given (xs ++ ys) = given xs ++ given ys := by
  induction xs with
  | nil => rfl
  | cons e xs ih => cases e <;> simp [given, ih]

@[simp] theorem moved_append (op : Nat) (xs ys : List (Event T)) :
    moved op (xs ++ ys) = moved op xs ++ moved op ys := by
  induction xs with
  | nil => rfl
  | cons e xs ih => cases e <;> simp [moved, ih] <;> split <;> simp

/-- A property of every split of the log at an entry, which holds of the old
log and at its new end and survives growth behind it, holds of the grown log. -/
theorem splits_snoc {P : List (Event T) → Event T → List (Event T) → Prop} {log : List (Event T)}
    {new : Event T} (old : ∀ before e after, log = before ++ e :: after → P before e after)
    (grows : ∀ before e after, log = before ++ e :: after → P before e after →
      P before e (after ++ [new]))
    (fresh : P log new []) :
    ∀ before e after, log ++ [new] = before ++ e :: after → P before e after := by
  intro before e after split
  rcases List.eq_nil_or_concat after with rfl | ⟨after, last, rfl⟩
  · obtain ⟨rfl, last⟩ := List.append_inj' split rfl
    cases last
    exact fresh
  · rw [List.concat_eq_append, ← List.cons_append, ← List.append_assoc] at split
    obtain ⟨here, last⟩ := List.append_inj' split rfl
    cases last
    simpa using grows before e after here (old before e after here)

/-- What every entry says about the entries before and after it: after `close`
nothing is written, and a reader that sees the channel closed comes after the
close and after every value was handed out. -/
structure SplitLaw (before : List (Event T)) (e : Event T) (after : List (Event T)) : Prop where
  nothing_written : e = .closed → written after = []
  close_precedes : ∀ dir op, e = .sawClosed dir op → .closed ∈ before
  all_given : ∀ op, e = .sawClosed .read op → given before = written before ∧ given after = []

end Log

namespace Traffic

variable {T Cb : Type}

/-! ### The channel against the log -/

/-- The log accounts for the content of the channel. -/
structure Accounts (maxSize : Nat) (ch : BufferedChannel T Cb) (log : List (Event T)) : Prop where
  size : ch.maxSize = maxSize
  order : Log.written log = Log.given log ++ ch.queue
  bounded : ch.queue.length ≤ maxSize
  closed_iff : ch.closed = true ↔ .closed ∈ log
  drained : ∀ op, .sawClosed .read op ∈ log → ch.queue = []
  seen_closed : ∀ dir op, .sawClosed dir op ∈ log → ch.closed = true
  splits : ∀ before e after, log = before ++ e :: after → Log.SplitLaw before e after

theorem accounts_start (maxSize : Nat) :
    Accounts maxSize (BufferedChannel.create maxSize : BufferedChannel T Cb) [] where
  size := rfl
  order := rfl
  bounded := Nat.zero_le _
  closed_iff := by simp [BufferedChannel.create]
  drained := by simp
  seen_closed := by simp
  splits := by simp

/-- A call under the lock keeps the account: it adds what it did to the log. -/
theorem Accounts.call [Movable T] {maxSize : Nat} {ch : BufferedChannel T Cb} {log : List (Event T)}
    (held : Accounts maxSize ch log) (dir : Dir) (op : Nat) (t : T) (onBlocked : Option Cb) :
    Accounts maxSize (streamOp dir ch t onBlocked).channel
      (log ++ entry dir op t (streamOp dir ch t onBlocked)) := by
  have effect := streamOp_effect dir ch t onBlocked
  generalize streamOp dir ch t onBlocked = out at effect
  cases effect with
  | wrote isWrite isOpen room =>
      subst isWrite
      have noClose : .closed ∉ log := fun logged => by simp [held.closed_iff.mpr logged] at isOpen
      have unseen : ∀ dir op, .sawClosed dir op ∉ log := fun dir op logged => by
        simp [held.seen_closed dir op logged] at isOpen
      simp only [entry, Status.setSuccess_success, if_true]
      refine ⟨held.size, ?_, ?_, ?_, ?_, ?_, Log.splits_snoc held.splits ?_ ?_⟩
      · simp [Log.written, Log.given, held.order]
      · simpa [held.size] using Nat.succ_le_of_lt room
      · simp [isOpen, noClose]
      · intro op' logged
        simp [unseen] at logged
      · intro dir' op' logged
        simp [unseen] at logged
      · intro before e after here old
        refine ⟨?_, old.close_precedes, ?_⟩
        · rintro rfl
          simp [here] at noClose
        · rintro op' rfl
          exact absurd (here ▸ by simp) (unseen .read op')
      · exact ⟨by simp, by simp, by simp⟩
  | @gave front queue isRead contents =>
      subst isRead
      have undrained : ∀ op, .sawClosed .read op ∉ log := fun op logged => by
        simp [held.drained op logged] at contents
      simp only [entry, Status.setSuccess_success, if_true]
      refine ⟨held.size, ?_, ?_, ?_, ?_, ?_, Log.splits_snoc held.splits ?_ ?_⟩
      · simp [Log.written, Log.given, held.order, contents]
      · have bound := held.bounded
        rw [contents] at bound
        exact Nat.le_of_succ_le bound
      · simp [held.closed_iff]
      · intro op' logged
        simp [undrained] at logged
      · intro dir' op' logged
        exact held.seen_closed dir' op' (by simpa using logged)
      · intro before e after here old
        refine ⟨?_, old.close_precedes, ?_⟩
        · intro isClose
          simp [Log.written, old.nothing_written isClose]
        · rintro op' rfl
          exact absurd (here ▸ by simp) (undrained op')
      · exact ⟨by simp, by simp, by simp⟩
  | closed isClosed empty =>
      simp only [entry, Status.setClosed_success, Status.clear_success, Status.setClosed_closed,
        Bool.false_eq_true, if_false, if_true]
      refine ⟨held.size, ?_, held.bounded, ?_, ?_, ?_, Log.splits_snoc held.splits ?_ ?_⟩
      · simp [Log.written, Log.given, held.order]
      · simp [held.closed_iff]
      · intro op' logged
        rcases List.mem_append.mp logged with old | new
        · exact held.drained op' old
        · simp only [List.mem_singleton, Event.sawClosed.injEq] at new
          exact empty new.1.symm
      · intro _ _ _
        exact isClosed
      · intro before e after here old
        refine ⟨?_, old.close_precedes, ?_⟩
        · intro isClose
          simp [Log.written, old.nothing_written isClose]
        · intro op' saw
          simpa [Log.given] using old.all_given op' saw
      · refine ⟨by simp, fun _ _ _ => held.closed_iff.mp isClosed, ?_⟩
        intro op' saw
        simp only [Event.sawClosed.injEq] at saw
        simp [Log.given, held.order, empty saw.1]
  | blocked _ =>
      simp only [entry, Status.clear_success, Status.clear_closed, Bool.false_eq_true, if_false,
        List.append_nil]
      exact ⟨held.size, held.order, held.bounded, held.closed_iff, held.drained,
        held.seen_closed, held.splits⟩

theorem Accounts.close {maxSize : Nat} {ch : BufferedChannel T Cb} {log : List (Event T)}
    (held : Accounts maxSize ch log) : Accounts maxSize ch.close.2 (log ++ [.closed]) := by
  simp only [BufferedChannel.close, BufferedChannel.unlockNotify, BufferedChannel.exchangeNotify]
  refine ⟨held.size, ?_, held.bounded, by simp, ?_, by simp, Log.splits_snoc held.splits ?_ ?_⟩
  · simp [Log.written, Log.given, held.order]
  · intro op logged
    exact held.drained op (by simpa using logged)
  · intro before e after here old
    refine ⟨?_, old.close_precedes, ?_⟩
    · intro isClose
      simp [Log.written, old.nothing_written isClose]
    · intro op saw
      simpa [Log.given] using old.all_given op saw
  · exact ⟨by simp [Log.written], by simp, by simp⟩

/-! ### Each operation against the log -/

/-- An operation without success moved nothing and left the caller's value
alone; one with success moved exactly one value, its argument if it was a write
and what the caller now holds if it was a read. -/
structure Settled (i : Nat) (op : Operation T) (log : List (Event T)) : Prop where
  waiting : op.status = none → Log.moved i log = [] ∧ op.value = op.given
  failed : ∀ s, op.status = some s → s.success = false →
    Log.moved i log = [] ∧ op.value = op.given
  succeeded : ∀ s, op.status = some s → s.success = true →
    Log.moved i log = [match op.dir with | .write => op.given | .read => op.value]

theorem moved_entry_ne {i j : Nat} (other : i ≠ j) (dir : Dir) (t : T) (out : Outcome T Cb) :
    Log.moved i (entry dir j t out) = [] := by
  unfold entry
  split
  · cases dir <;> simp [Log.moved, Ne.symm other]
  · split <;> simp [Log.moved]

/-- What a call moved, from its status. -/
theorem moved_entry_self (i : Nat) (dir : Dir) (t : T) (out : Outcome T Cb) :
    Log.moved i (entry dir i t out) =
      if out.result.status.success then [match dir with | .write => t | .read => out.value]
      else [] := by
  unfold entry
  split
  · cases dir <;> simp [Log.moved]
  · split <;> simp [Log.moved]

/-- Entries of other operations do not matter to an operation. -/
theorem Settled.other {i j : Nat} {op : Operation T} {log : List (Event T)}
    (held : Settled i op log) (other : i ≠ j) (dir : Dir) (t : T) (out : Outcome T Cb) :
    Settled i op (log ++ entry dir j t out) := by
  refine ⟨?_, ?_, ?_⟩ <;> simp only [Log.moved_append, moved_entry_ne other, List.append_nil]
  · exact held.waiting
  · exact held.failed
  · exact held.succeeded

/-- A call by an operation that has moved nothing so far settles it, with the
call's status or with any status that agrees on success. -/
theorem settled_call [Movable T] {i : Nat} {log : List (Event T)} (unmoved : Log.moved i log = [])
    (dir : Dir) (timed : Bool) (ch : BufferedChannel T Cb) (t : T) (onBlocked : Option Cb)
    (status : Option Status)
    (agrees : ∀ s, status = some s →
      s.success = (streamOp dir ch t onBlocked).result.status.success)
    (unfinished : status = none → (streamOp dir ch t onBlocked).result.status.success = false) :
    Settled i ⟨dir, timed, t, (streamOp dir ch t onBlocked).value, status⟩
      (log ++ entry dir i t (streamOp dir ch t onBlocked)) := by
  have effect := streamOp_effect dir ch t onBlocked
  generalize streamOp dir ch t onBlocked = out at effect agrees unfinished ⊢
  have noSuccess : out.result.status.success = false →
      Log.moved i (log ++ entry dir i t out) = [] ∧ out.value = t := by
    intro failed
    constructor
    · simp [unmoved, moved_entry_self, failed]
    · cases effect with
      | wrote => simp at failed
      | gave => simp at failed
      | closed => rfl
      | blocked => rfl
  refine ⟨fun none => noSuccess (unfinished none), ?_, ?_⟩
  · intro s isSome failed
    exact noSuccess (by rw [← agrees s isSome, failed])
  · intro s isSome success
    simp [unmoved, moved_entry_self, ← agrees s isSome, success]

/-- The state of the traffic after any run. -/
structure Inv (maxSize : Nat) (s : Traffic T Cb) : Prop where
  accounts : Accounts maxSize s.channel s.log
  settled : ∀ i op, s.operations[i]? = some op → Settled i op s.log
  unissued : ∀ i, s.operations.length ≤ i → Log.moved i s.log = []

theorem inv_start (maxSize : Nat) : Inv maxSize (start maxSize : Traffic T Cb) where
  accounts := accounts_start maxSize
  settled := by simp [start]
  unissued := by simp [start, Log.moved]

/-- Issuing an operation: one call under the lock by a new operation. -/
theorem Inv.issue [Movable T] {maxSize : Nat} {s : Traffic T Cb} (held : Inv maxSize s) (dir : Dir)
    (timed : Bool) (t : T) (onBlocked : Option Cb) (status : Option Status)
    (agrees : ∀ st, status = some st →
      st.success = (streamOp dir s.channel t onBlocked).result.status.success)
    (unfinished : status = none →
      (streamOp dir s.channel t onBlocked).result.status.success = false) :
    Inv maxSize
      ⟨(streamOp dir s.channel t onBlocked).channel,
        s.operations ++ [⟨dir, timed, t, (streamOp dir s.channel t onBlocked).value, status⟩],
        s.log ++ entry dir s.operations.length t (streamOp dir s.channel t onBlocked)⟩ := by
  refine ⟨held.accounts.call dir _ t onBlocked, ?_, ?_⟩
  · intro i op issued
    rcases Nat.lt_trichotomy i s.operations.length with before | rfl | beyond
    · rw [List.getElem?_append_left before] at issued
      exact (held.settled i op issued).other (Nat.ne_of_lt before) _ _ _
    · rw [List.getElem?_concat_length] at issued
      cases issued
      exact settled_call (held.unissued _ (Nat.le_refl _)) _ _ _ _ _ _ agrees unfinished
    · rw [List.getElem?_eq_none (by simp; omega)] at issued
      cases issued
  · intro i beyond
    have past : s.operations.length + 1 ≤ i := by simpa using beyond
    rw [Log.moved_append, held.unissued i (by omega), moved_entry_ne (by omega)]
    rfl

theorem handlerStatus_success (timed ec : Bool) (s : Status) :
    (handlerStatus timed ec s).success = s.success := by
  unfold handlerStatus
  split <;> rfl

theorem step_inv [Movable T] {maxSize : Nat} (s : Traffic T Cb) (a : Action T Cb)
    (s' : Traffic T Cb) (held : Inv maxSize s) (stepped : step s a = some s') :
    Inv maxSize s' := by
  cases a with
  | call dir t onBlocked =>
      cases stepped
      exact held.issue dir false t onBlocked _ (by simp) (by simp)
  | async dir timed t onBlocked =>
      cases stepped
      refine held.issue dir timed t onBlocked _ ?_ ?_
      · intro st isSome
        split at isSome
        · cases isSome
          rfl
        · cases isSome
      · intro isNone
        split at isNone
        · cases isNone
        · rename_i incomplete
          simp only [Status.complete, Bool.or_eq_true, not_or, Bool.not_eq_true] at incomplete
          exact incomplete.1
  | handler i ec =>
      simp only [step, Option.bind_eq_bind, Option.bind_eq_some_iff] at stepped
      obtain ⟨op, issued, stepped⟩ := stepped
      split at stepped
      · cases stepped
      · rename_i running
        cases stepped
        have noStatus : op.status = none := by simpa using running
        obtain ⟨unmoved, untouched⟩ := (held.settled i op issued).waiting noStatus
        refine ⟨held.accounts.call op.dir i op.value none, ?_, ?_⟩
        · intro j op' there
          by_cases same : i = j
          · subst same
            rw [List.getElem?_set_self (by
              exact (List.getElem?_eq_some_iff.mp issued).1)] at there
            cases there
            have settles := settled_call unmoved op.dir op.timed s.channel op.value none
              (some (handlerStatus op.timed ec
                (streamOp op.dir s.channel op.value none).result.status))
              (by simp [handlerStatus_success]) (by simp)
            exact ⟨by simp, fun st isSome failed => by
              simpa [untouched] using settles.failed st isSome failed,
              fun st isSome success => by
              simpa [untouched] using settles.succeeded st isSome success⟩
          · rw [List.getElem?_set_ne same] at there
            exact (held.settled j op' there).other (Ne.symm same) _ _ _
        · intro j beyond
          have past : s.operations.length ≤ j := by simpa using beyond
          have bound := (List.getElem?_eq_some_iff.mp issued).1
          rw [Log.moved_append, held.unissued j past, moved_entry_ne (by omega)]
          rfl
  | close =>
      cases stepped
      refine ⟨held.accounts.close, ?_, ?_⟩
      · intro i op issued
        have settled := held.settled i op issued
        refine ⟨?_, ?_, ?_⟩ <;> simp only [Log.moved_append, Log.moved, List.append_nil]
        · exact settled.waiting
        · exact settled.failed
        · exact settled.succeeded
      · intro i beyond
        simpa [Log.moved] using held.unissued i beyond

/-! ### The contract -/

/-- What the channel owes its callers, in terms of the log, the operations and
the content of the queue. -/
structure Fifo (maxSize : Nat) (s : Traffic T Cb) : Prop where
  order : Log.written s.log = Log.given s.log ++ s.channel.queue
  bounded : s.channel.queue.length ≤ maxSize
  settled : ∀ i op, s.operations[i]? = some op → Settled i op s.log
  closing : ∀ before after, s.log = before ++ .closed :: after → Log.written after = []
  drained : ∀ before after op, s.log = before ++ .sawClosed .read op :: after →
    .closed ∈ before ∧ Log.given before = Log.written before ∧ Log.given after = []

/-- **The channel is a bounded FIFO for any number of callers.** After every
run of direct calls, `sync_io`, untimed and timed `async_io` and `close`, in any
order and with wait handlers run at any time: what was written is what was read
followed by what is queued, the queue respects `max_size`, every operation moved
one value if its status has success and none otherwise, nothing is written
after a close, and a reader sees the channel closed only after it was handed
every value. -/
theorem traffic_fifo [Movable T] {maxSize : Nat} {actions : List (Action T Cb)}
    {s : Traffic T Cb} (computed : System.run step (start maxSize) actions = some s) :
    Fifo maxSize s := by
  have held : Inv maxSize s := System.run_invariant (inv_start maxSize) step_inv computed
  refine ⟨held.accounts.order, held.accounts.bounded, held.settled, ?_, ?_⟩
  · intro before after split
    exact (held.accounts.splits before _ after split).nothing_written rfl
  · intro before after op split
    have law := held.accounts.splits before _ after split
    exact ⟨law.close_precedes _ _ rfl, law.all_given op rfl⟩

/-- A timed write blocks on the full channel and times out; the value it kept
is not in the log, and the reader drains the channel before it sees it closed. -/
theorem traffic_fifo_timed_out_write :
    ∃ s : Traffic String Nat, System.run step (start 1)
      [.call .write "a" none, .async .write true "b" (some 1), .handler 1 false,
        .close, .call .read "" none, .call .read "" none] = some s ∧ Fifo 1 s :=
  ⟨_, rfl, @traffic_fifo String Nat _ 1 [.call .write "a" none, .async .write true "b" (some 1),
    .handler 1 false, .close, .call .read "" none, .call .read "" none] _ rfl⟩

end Traffic

end AlpacaCore.Io
