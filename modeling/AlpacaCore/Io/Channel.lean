import AlpacaCore.System.Run

/-!
`io::status`, `io::stream_result` and `io::buffered_channel`.

Every member function of the channel runs under its mutex, so each is one step
on the channel's state. What leaves the locked region is returned: the caller's
value after the call, the result, and the callback `unlock_notify` took out of
`m_notify`, which the caller invokes after the unlock.
-/

namespace AlpacaCore.Io

/-- `io::status`: one Boolean for each bit of the set. -/
structure Status where
  success : Bool
  closed : Bool
  timeout : Bool
deriving DecidableEq, Repr

namespace Status

/-- No bit set. -/
def clear : Status := ⟨false, false, false⟩

def setSuccess (s : Status) : Status := { s with success := true }
def setClosed (s : Status) : Status := { s with closed := true }
def setTimeout (s : Status) : Status := { s with timeout := true }

def blocked (s : Status) : Bool := !s.success && !s.closed
def complete (s : Status) : Bool := s.success || s.closed
def aborted (s : Status) : Bool := !s.success && !s.closed && !s.timeout

@[simp] theorem clear_success : clear.success = false := rfl
@[simp] theorem clear_closed : clear.closed = false := rfl
@[simp] theorem setSuccess_success (s : Status) : s.setSuccess.success = true := rfl
@[simp] theorem setSuccess_closed (s : Status) : s.setSuccess.closed = s.closed := rfl
@[simp] theorem setClosed_success (s : Status) : s.setClosed.success = s.success := rfl
@[simp] theorem setClosed_closed (s : Status) : s.setClosed.closed = true := rfl
@[simp] theorem setTimeout_success (s : Status) : s.setTimeout.success = s.success := rfl
@[simp] theorem setTimeout_closed (s : Status) : s.setTimeout.closed = s.closed := rfl

end Status

/-- `io::stream_result`: a status with the callback displaced from `m_notify`. -/
structure StreamResult (Cb : Type) where
  status : Status
  value : Option Cb
deriving DecidableEq, Repr

/-- Values that `std::move` can take from; `movedFrom t` is what it leaves in `t`. -/
class Movable (T : Type) where
  movedFrom : T → T

/-- A moved-from `std::string` is empty. -/
instance : Movable String := ⟨fun _ => ""⟩

/-- `buffered_channel<T>`. A callback (`xec::task`) is a token of type `Cb`; an
empty task and `nullptr` are `none`. -/
structure BufferedChannel (T Cb : Type) where
  maxSize : Nat
  queue : List T
  notify : Option Cb
  closed : Bool
deriving DecidableEq, Repr

/-- What a call of `write` or `read` leaves behind. -/
structure Outcome (T Cb : Type) where
  channel : BufferedChannel T Cb
  /-- the caller's `t` after the call -/
  value : T
  result : StreamResult Cb
  /-- the callback to invoke after the unlock -/
  notified : Option Cb

namespace BufferedChannel

variable {T Cb : Type}

/-- The constructor. -/
def create (maxSize : Nat) : BufferedChannel T Cb := ⟨maxSize, [], none, false⟩

/-- `exchange_notify_l`: stores the new callback, hands back the old one. -/
def exchangeNotify (ch : BufferedChannel T Cb) (onBlocked : Option Cb) :
    Option Cb × BufferedChannel T Cb :=
  (ch.notify, { ch with notify := onBlocked })

/-- `block`. -/
def block (ch : BufferedChannel T Cb) (t : T) (onBlocked : Option Cb) : Outcome T Cb :=
  let (displaced, ch) := ch.exchangeNotify onBlocked
  ⟨ch, t, ⟨.clear, displaced⟩, none⟩

/-- `unlock_notify`: the callback taken out, to be called after the unlock. -/
def unlockNotify (ch : BufferedChannel T Cb) : Option Cb × BufferedChannel T Cb :=
  ch.exchangeNotify none

/-- `write`. -/
def write [Movable T] (ch : BufferedChannel T Cb) (t : T) (onBlocked : Option Cb) :
    Outcome T Cb :=
  if ch.closed then
    ⟨ch, t, ⟨Status.clear.setClosed, none⟩, none⟩
  else if ch.queue.length < ch.maxSize then
    let (notify, ch) := unlockNotify { ch with queue := ch.queue ++ [t] }
    ⟨ch, Movable.movedFrom t, ⟨Status.clear.setSuccess, none⟩, notify⟩
  else
    ch.block t onBlocked

/-- `read`. -/
def read (ch : BufferedChannel T Cb) (t : T) (onBlocked : Option Cb) : Outcome T Cb :=
  match ch.queue with
  | front :: queue =>
      let (notify, ch) := unlockNotify { ch with queue }
      ⟨ch, front, ⟨Status.clear.setSuccess, none⟩, notify⟩
  | [] =>
      if ch.closed then
        ⟨ch, t, ⟨Status.clear.setClosed, none⟩, none⟩
      else
        ch.block t onBlocked

/-- `close`, with the callback to call after the unlock. -/
def close (ch : BufferedChannel T Cb) : Option Cb × BufferedChannel T Cb :=
  unlockNotify { ch with closed := true }

/-- `exchange_read_notify_cb`: the callback that was there. -/
def exchangeReadNotifyCb (ch : BufferedChannel T Cb) (onBlocked : Option Cb) :
    Option Cb × BufferedChannel T Cb :=
  if ch.queue.isEmpty then ch.exchangeNotify onBlocked else (none, ch)

/-- `exchange_write_notify_cb`. -/
def exchangeWriteNotifyCb (ch : BufferedChannel T Cb) (onBlocked : Option Cb) :
    Option Cb × BufferedChannel T Cb :=
  if ch.queue.length = ch.maxSize then ch.exchangeNotify onBlocked else (none, ch)

/-- The assertion that `write` comes to holds. -/
def writeAsserts (ch : BufferedChannel T Cb) : Bool :=
  if ch.closed then ch.notify.isNone
  else if ch.queue.length < ch.maxSize then ch.queue.isEmpty || ch.notify.isNone
  else true

/-- The assertion that `read` comes to holds. -/
def readAsserts (ch : BufferedChannel T Cb) : Bool :=
  match ch.queue with
  | _ :: _ => ch.queue.length == ch.maxSize || ch.notify.isNone
  | [] => if ch.closed then ch.notify.isNone else true

end BufferedChannel

/-- Which of the two stream operations is meant: `read` on a read stream,
`write` on a write stream. -/
inductive Dir where
  | read
  | write
deriving DecidableEq, Repr

/-- `stream_op`. -/
def streamOp {T Cb : Type} [Movable T] (dir : Dir) (ch : BufferedChannel T Cb) (t : T)
    (onBlocked : Option Cb) : Outcome T Cb :=
  match dir with
  | .read => ch.read t onBlocked
  | .write => ch.write t onBlocked

namespace BufferedChannel

variable {T Cb : Type}

/-- The channel would let an operation of this direction complete. -/
def Ready (ch : BufferedChannel T Cb) : Dir → Prop
  | .read => ch.queue ≠ [] ∨ ch.closed = true
  | .write => ch.queue.length < ch.maxSize ∨ ch.closed = true

end BufferedChannel

/-- What one call under the lock can do, by the status it returns. -/
inductive Effect {T Cb : Type} [Movable T] (dir : Dir) (ch : BufferedChannel T Cb) (t : T)
    (onBlocked : Option Cb) : Outcome T Cb → Prop where
  | wrote : dir = .write → ch.closed = false → ch.queue.length < ch.maxSize →
      Effect dir ch t onBlocked
        ⟨{ ch with queue := ch.queue ++ [t], notify := none }, Movable.movedFrom t,
          ⟨Status.clear.setSuccess, none⟩, ch.notify⟩
  | gave {front : T} {queue : List T} : dir = .read → ch.queue = front :: queue →
      Effect dir ch t onBlocked
        ⟨{ ch with queue := queue, notify := none }, front,
          ⟨Status.clear.setSuccess, none⟩, ch.notify⟩
  | closed : ch.closed = true → (dir = .read → ch.queue = []) →
      Effect dir ch t onBlocked ⟨ch, t, ⟨Status.clear.setClosed, none⟩, none⟩
  | blocked : ¬ ch.Ready dir →
      Effect dir ch t onBlocked
        ⟨{ ch with notify := onBlocked }, t, ⟨.clear, ch.notify⟩, none⟩

theorem streamOp_effect {T Cb : Type} [Movable T] (dir : Dir) (ch : BufferedChannel T Cb) (t : T)
    (onBlocked : Option Cb) : Effect dir ch t onBlocked (streamOp dir ch t onBlocked) := by
  cases dir with
  | read =>
      simp only [streamOp, BufferedChannel.read]
      split
      · rename_i front queue contents
        exact .gave rfl contents
      · rename_i empty
        split
        · rename_i isClosed
          exact .closed isClosed fun _ => empty
        · rename_i isOpen
          exact .blocked (by simp [BufferedChannel.Ready, empty, isOpen])
  | write =>
      simp only [streamOp, BufferedChannel.write]
      split
      · rename_i isClosed
        exact .closed isClosed (by simp)
      · rename_i isOpen
        split
        · rename_i room
          exact .wrote rfl (by simpa using isOpen) room
        · rename_i full
          exact .blocked (by simp [BufferedChannel.Ready, full, isOpen])

/-- An operation completes exactly when the channel is ready for it. -/
theorem streamOp_complete_iff {T Cb : Type} [Movable T] (dir : Dir) (ch : BufferedChannel T Cb)
    (t : T) (onBlocked : Option Cb) :
    (streamOp dir ch t onBlocked).result.status.complete = true ↔ ch.Ready dir := by
  have effect := streamOp_effect dir ch t onBlocked
  generalize streamOp dir ch t onBlocked = out at effect
  cases effect with
  | wrote isWrite _ room =>
      subst isWrite
      simp [Status.complete, BufferedChannel.Ready, room]
  | gave isRead contents =>
      subst isRead
      simp [Status.complete, BufferedChannel.Ready, contents]
  | closed isClosed _ =>
      cases dir <;> simp [Status.complete, BufferedChannel.Ready, isClosed]
  | blocked notReady => simp [Status.complete, notReady]

end AlpacaCore.Io
