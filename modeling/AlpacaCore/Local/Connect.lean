import AlpacaCore.Io.Channel
import AlpacaCore.Session.Net
import Mathlib.Logic.Function.Basic

/-!
`Backend::connect`: two channels, and an endpoint at either end of them.

A stream is known by the channel it is on. The endpoints are wired as in the source, through
the streams of each channel, `make_channel_endpoints` and the structured binding of `connect`.
After that both sides write, read and close as they like.
-/

namespace AlpacaCore.Local

open AlpacaCore.Io
open AlpacaCore.Session (BufferSizes Frame)
open AlpacaCore.System (run Reachable Free)

/-- The two channels of a connection. -/
inductive ChannelId where
  | a
  | b
deriving DecidableEq, Repr

/-- `BufferedChannelReadStream`. -/
structure ReadStream where
  channel : ChannelId

/-- `BufferedChannelWriteStream`. -/
structure WriteStream where
  channel : ChannelId

/-- `stream_endpoint`. -/
structure StreamEndpoint where
  readStream : ReadStream
  writeStream : WriteStream

/-- `channel_streams`. -/
structure ChannelStreams where
  out : ReadStream
  in' : WriteStream

/-- `channel_endpoints`. -/
structure ChannelEndpoints where
  ab : StreamEndpoint
  ba : StreamEndpoint

/-- `make_buffered_channel_streams`. -/
def makeBufferedChannelStreams (channel : ChannelId) : ChannelStreams := ⟨⟨channel⟩, ⟨channel⟩⟩

/-- `make_channel_endpoints`. -/
def makeChannelEndpoints (as bs : ChannelStreams) : ChannelEndpoints :=
  ⟨⟨as.out, bs.in'⟩, ⟨bs.out, as.in'⟩⟩

/-- The constructor of `frameio::ChannelEndpoints`. -/
def ChannelEndpoints.ofStreams (endpoints : ChannelEndpoints) : ChannelEndpoints :=
  ⟨⟨endpoints.ab.readStream, endpoints.ab.writeStream⟩, ⟨endpoints.ba.readStream, endpoints.ba.writeStream⟩⟩

structure Channels (Cb : Type) where
  a : BufferedChannel Frame Cb
  b : BufferedChannel Frame Cb

/-- A frame that was moved from has an empty `op` and no data. -/
instance : Movable Frame := ⟨fun _ => ⟨"", .null⟩⟩

section Wiring

variable {Cb : Type}

def Channels.get (channels : Channels Cb) : ChannelId → BufferedChannel Frame Cb
  | .a => channels.a
  | .b => channels.b

def Channels.set (channels : Channels Cb) (ch : BufferedChannel Frame Cb) : ChannelId → Channels Cb
  | .a => { channels with a := ch }
  | .b => { channels with b := ch }

/-- `make_buffered_channel_endpoints`, with the channels that it makes. -/
def makeBufferedChannelEndpoints (sa sb : Nat) : ChannelEndpoints × Channels Cb :=
  (makeChannelEndpoints (makeBufferedChannelStreams .a) (makeBufferedChannelStreams .b),
    ⟨.create sa, .create sb⟩)

/-- `BufferedChannel_getEndpoints`. -/
def bufferedChannelGetEndpoints (sa sb : Nat) : ChannelEndpoints × Channels Cb :=
  let (endpoints, channels) := makeBufferedChannelEndpoints sa sb
  (endpoints.ofStreams, channels)

/-- `Backend::getEndpoints`. -/
def getEndpoints (bufferSizes : BufferSizes) : ChannelEndpoints × Channels Cb :=
  bufferedChannelGetEndpoints bufferSizes.localToRemote bufferSizes.remoteToLocal

/-- Who has an endpoint of the connection: the caller of `connect`, to whom one is returned,
and the session, which is created with the other. -/
inductive Side where
  | client
  | session
deriving DecidableEq, Repr

def Side.other : Side → Side
  | .client => .session
  | .session => .client

/-- A connection, with what was done on it. -/
structure Connection (Cb : Type) where
  client : StreamEndpoint
  session : StreamEndpoint
  channels : Channels Cb
  /-- the frames that a side has written, as far as they were accepted -/
  written : Side → List Frame
  /-- the frames that a side has read -/
  received : Side → List Frame
  /-- One end of the direction in which a side writes was closed. -/
  shut : Side → Bool

/-- `Backend::connect`. -/
def connect (bufferSizes : BufferSizes) : Connection Cb :=
  let (⟨client, remote⟩, channels) := getEndpoints bufferSizes
  ⟨client, remote, channels, fun _ => [], fun _ => [], fun _ => false⟩

end Wiring

namespace Connection

variable {Cb : Type}

def endpoint (c : Connection Cb) : Side → StreamEndpoint
  | .client => c.client
  | .session => c.session

inductive Action (Cb : Type) where
  | write (side : Side) (frame : Frame) (onBlocked : Option Cb)
  | read (side : Side) (frame : Frame) (onBlocked : Option Cb)
  | closeWrite (side : Side)
  | closeRead (side : Side)

/-- `write` on the write stream of a side. -/
def write (c : Connection Cb) (side : Side) (frame : Frame) (onBlocked : Option Cb) : Outcome Frame Cb :=
  (c.channels.get (c.endpoint side).writeStream.channel).write frame onBlocked

/-- `read` on the read stream of a side. -/
def read (c : Connection Cb) (side : Side) (frame : Frame) (onBlocked : Option Cb) : Outcome Frame Cb :=
  (c.channels.get (c.endpoint side).readStream.channel).read frame onBlocked

/-- `close` on a stream that is on the channel. -/
def close (c : Connection Cb) (channel : ChannelId) : Channels Cb :=
  c.channels.set (c.channels.get channel).close.2 channel

def step (c : Connection Cb) : Action Cb → Option (Connection Cb)
  | .write side frame onBlocked =>
      let out := c.write side frame onBlocked
      some { c with
        channels := c.channels.set out.channel (c.endpoint side).writeStream.channel
        written := Function.update c.written side
          (c.written side ++ if out.result.status.success then [frame] else []) }
  | .read side frame onBlocked =>
      let out := c.read side frame onBlocked
      some { c with
        channels := c.channels.set out.channel (c.endpoint side).readStream.channel
        received := Function.update c.received side
          (c.received side ++ if out.result.status.success then [out.value] else []) }
  | .closeWrite side =>
      some { c with
        channels := c.close (c.endpoint side).writeStream.channel
        shut := Function.update c.shut side true }
  | .closeRead side =>
      some { c with
        channels := c.close (c.endpoint side).readStream.channel
        shut := Function.update c.shut side.other true }

end Connection

/-! ### One channel -/

/-- A channel of the size, between those who write to it and those who read from it. -/
structure Carries {T Cb : Type} (ch : BufferedChannel T Cb) (size : Nat) (written received : List T)
    (shut : Bool) : Prop where
  sized : ch.maxSize = size
  bounded : ch.queue.length ≤ size
  order : written = received ++ ch.queue
  closed : ch.closed = shut

section OneChannel

variable {T Cb : Type} {ch : BufferedChannel T Cb} {size : Nat} {written received : List T} {shut : Bool}

theorem carries_create (size : Nat) : Carries (.create size : BufferedChannel T Cb) size [] [] false :=
  ⟨rfl, Nat.zero_le _, rfl, rfl⟩

theorem Carries.write [Movable T] (carries : Carries ch size written received shut) (t : T)
    (onBlocked : Option Cb) :
    Carries (ch.write t onBlocked).channel size
      (written ++ if (ch.write t onBlocked).result.status.success then [t] else []) received shut := by
  have effect := streamOp_effect .write ch t onBlocked
  change Carries (streamOp .write ch t onBlocked).channel _
    (written ++ if (streamOp .write ch t onBlocked).result.status.success then [t] else []) _ _
  generalize streamOp .write ch t onBlocked = out at effect
  cases effect with
  | wrote _ _ room =>
      rw [carries.sized] at room
      refine ⟨carries.sized, ?_, ?_, carries.closed⟩
      · rw [List.length_append]
        exact room
      · simp [carries.order]
  | gave isRead _ => cases isRead
  | closed => simpa using carries
  | blocked =>
      refine ⟨carries.sized, carries.bounded, ?_, carries.closed⟩
      simpa using carries.order

theorem Carries.read [Movable T] (carries : Carries ch size written received shut) (t : T)
    (onBlocked : Option Cb) :
    Carries (ch.read t onBlocked).channel size written
      (received ++ if (ch.read t onBlocked).result.status.success then [(ch.read t onBlocked).value] else [])
      shut := by
  have effect := streamOp_effect .read ch t onBlocked
  change Carries (streamOp .read ch t onBlocked).channel _ _ (received ++
    if (streamOp .read ch t onBlocked).result.status.success then
      [(streamOp .read ch t onBlocked).value] else []) _
  generalize streamOp .read ch t onBlocked = out at effect
  cases effect with
  | wrote isWrite _ _ => cases isWrite
  | gave _ contents =>
      have bounded := carries.bounded
      rw [contents, List.length_cons] at bounded
      refine ⟨carries.sized, Nat.le_of_succ_le bounded, ?_, carries.closed⟩
      simp [carries.order, contents]
  | closed => simpa using carries
  | blocked =>
      refine ⟨carries.sized, carries.bounded, ?_, carries.closed⟩
      simpa using carries.order

theorem Carries.close (carries : Carries ch size written received shut) :
    Carries ch.close.2 size written received true :=
  ⟨carries.sized, carries.bounded, carries.order, rfl⟩

/-- What a write meets: a channel that was closed, one that is full, or room. -/
theorem Carries.status_write [Movable T] (carries : Carries ch size written received shut) (t : T)
    (onBlocked : Option Cb) :
    ((ch.write t onBlocked).result.status.closed = true ↔ shut = true) ∧
      ((ch.write t onBlocked).result.status.blocked = true ↔
        shut = false ∧ written.length - received.length = size) ∧
      ((ch.write t onBlocked).result.status.success = true ↔
        shut = false ∧ written.length - received.length < size) := by
  have unread : written.length - received.length = ch.queue.length := by
    rw [carries.order, List.length_append, Nat.add_sub_cancel_left]
  have bounded := carries.bounded
  rw [unread, ← carries.closed, ← carries.sized]
  rw [← carries.sized] at bounded
  have effect := streamOp_effect .write ch t onBlocked
  change ((streamOp .write ch t onBlocked).result.status.closed = true ↔ _) ∧
    ((streamOp .write ch t onBlocked).result.status.blocked = true ↔ _) ∧
    ((streamOp .write ch t onBlocked).result.status.success = true ↔ _)
  generalize streamOp .write ch t onBlocked = out at effect
  cases effect with
  | wrote _ isOpen room =>
      have notFull : ch.queue.length ≠ ch.maxSize := Nat.ne_of_lt room
      simp [isOpen, room, notFull, Status.blocked]
  | gave isRead _ => cases isRead
  | closed isClosed _ => simp [isClosed, Status.blocked]
  | blocked notReady =>
      simp only [BufferedChannel.Ready, not_or, Nat.not_lt, Bool.not_eq_true] at notReady
      obtain ⟨full, isOpen⟩ := notReady
      have same : ch.queue.length = ch.maxSize := Nat.le_antisymm bounded full
      simp [isOpen, same, Status.blocked]

end OneChannel

/-! ### The two directions -/

namespace Connection

variable {Cb : Type}

/-- The channel on which a side writes. -/
def direction : Side → ChannelId
  | .client => .b
  | .session => .a

/-- What `connect` makes of the sizes: the channel in which a side writes has the size that
is named after the other direction. -/
def capacity (sizes : BufferSizes) : Side → Nat
  | .client => sizes.remoteToLocal
  | .session => sizes.localToRemote

/-- How many frames of a side are accepted and not yet read by the other. -/
def unread (c : Connection Cb) (side : Side) : Nat :=
  (c.written side).length - (c.received side.other).length

structure Inv (sizes : BufferSizes) (c : Connection Cb) : Prop where
  writes : ∀ side, (c.endpoint side).writeStream.channel = direction side
  reads : ∀ side, (c.endpoint side).readStream.channel = direction side.other
  carries : ∀ side, Carries (c.channels.get (direction side)) (capacity sizes side) (c.written side)
    (c.received side.other) (c.shut side)

theorem inv_connect (sizes : BufferSizes) : Inv sizes (connect sizes : Connection Cb) := by
  refine ⟨fun side => ?_, fun side => ?_, fun side => ?_⟩
  · cases side <;> rfl
  · cases side <;> rfl
  · cases side with
    | client => exact carries_create sizes.remoteToLocal
    | session => exact carries_create sizes.localToRemote

@[simp] theorem other_other (side : Side) : side.other.other = side := by cases side <;> rfl

theorem eq_or_eq_other (side writer : Side) : side = writer ∨ side = writer.other := by
  cases side <;> cases writer <;> simp [Side.other]

@[simp] theorem other_ne (side : Side) : side.other ≠ side := by cases side <;> simp [Side.other]

@[simp] theorem get_set (channels : Channels Cb) (ch : BufferedChannel Frame Cb) (side : Side) :
    (channels.set ch (direction side)).get (direction side) = ch := by cases side <;> rfl

@[simp] theorem get_set_other (channels : Channels Cb) (ch : BufferedChannel Frame Cb) (side : Side) :
    (channels.set ch (direction side)).get (direction side.other) =
      channels.get (direction side.other) := by cases side <;> rfl

/-- A step that concerns the direction of `writer` keeps the other direction as it is. -/
theorem Inv.update {sizes : BufferSizes} {c : Connection Cb} (inv : Inv sizes c) (writer : Side)
    {ch : BufferedChannel Frame Cb} {written received : List Frame} {shut : Bool}
    (carries : Carries ch (capacity sizes writer) written received shut) :
    Inv sizes { c with
      channels := c.channels.set ch (direction writer)
      written := Function.update c.written writer written
      received := Function.update c.received writer.other received
      shut := Function.update c.shut writer shut } := by
  refine ⟨inv.writes, inv.reads, fun side => ?_⟩
  rcases eq_or_eq_other side writer with rfl | rfl
  · simpa using carries
  · have kept := inv.carries writer.other
    simpa [Function.update_of_ne (other_ne writer).symm] using kept

theorem step_inv {sizes : BufferSizes} (c : Connection Cb) (action : Action Cb) (c' : Connection Cb)
    (inv : Inv sizes c) (stepped : c.step action = some c') : Inv sizes c' := by
  cases action with
  | write side frame onBlocked =>
      have updated := inv.update side ((inv.carries side).write frame onBlocked)
      simp only [step, write, inv.writes] at stepped
      cases stepped
      simpa using updated
  | read side frame onBlocked =>
      have updated := inv.update side.other ((inv.carries side.other).read frame onBlocked)
      simp only [step, read, inv.reads] at stepped
      cases stepped
      simpa using updated
  | closeWrite side =>
      have updated := inv.update side (inv.carries side).close
      simp only [step, close, inv.writes] at stepped
      cases stepped
      simpa using updated
  | closeRead side =>
      have updated := inv.update side.other (inv.carries side.other).close
      simp only [step, close, inv.reads] at stepped
      cases stepped
      simpa using updated

/-- The direction in which a side writes is a channel of its own, with room for `size` frames. -/
structure Directed (c : Connection Cb) (side : Side) (size : Nat) : Prop where
  /-- The other side reads what this side has written, in that order, and nothing else. -/
  crosses : c.received side.other <+: c.written side
  bounded : c.unread side ≤ size
  closed : ∀ frame onBlocked,
    (c.write side frame onBlocked).result.status.closed = true ↔ c.shut side = true
  /-- A write blocks exactly where `size` frames are unread. -/
  blocks : ∀ frame onBlocked, (c.write side frame onBlocked).result.status.blocked = true ↔
    c.shut side = false ∧ c.unread side = size
  accepts : ∀ frame onBlocked, (c.write side frame onBlocked).result.status.success = true ↔
    c.shut side = false ∧ c.unread side < size

theorem Inv.directed {sizes : BufferSizes} {c : Connection Cb} (inv : Inv sizes c) (side : Side) :
    c.Directed side (capacity sizes side) := by
  have carries := inv.carries side
  refine ⟨⟨_, carries.order.symm⟩, ?_, fun frame onBlocked => ?_, fun frame onBlocked => ?_,
    fun frame onBlocked => ?_⟩
  · unfold unread
    rw [carries.order, List.length_append, Nat.add_sub_cancel_left]
    exact carries.bounded
  all_goals
    unfold write
    rw [inv.writes]
  · exact (carries.status_write frame onBlocked).1
  · exact (carries.status_write frame onBlocked).2.1
  · exact (carries.status_write frame onBlocked).2.2

theorem directed_of_reachable {sizes : BufferSizes} {c : Connection Cb}
    (reached : Reachable step Free (connect sizes) c) (side : Side) :
    c.Directed side (capacity sizes side) :=
  (reached.invariant (inv_connect sizes) fun c action c' inv _ => step_inv c action c' inv).directed side

/-- Only one size fits a direction. -/
theorem Directed.size_unique {c : Connection Cb} {side : Side} {size size' : Nat}
    (directed : c.Directed side size) (directed' : c.Directed side size') (opened : c.shut side = false)
    (full : c.unread side = size) : size = size' := by
  have blocks := (directed.blocks ⟨"", .null⟩ none).mpr ⟨opened, full⟩
  rw [← full]
  exact ((directed'.blocks ⟨"", .null⟩ none).mp blocks).2

theorem unread_write {c : Connection Cb} {side : Side} {size : Nat} (directed : c.Directed side size)
    {frame : Frame} {onBlocked : Option Cb} {c' : Connection Cb}
    (success : (c.write side frame onBlocked).result.status.success = true)
    (stepped : c.step (.write side frame onBlocked) = some c') :
    c'.shut = c.shut ∧ c'.unread side = c.unread side + 1 := by
  have fewer := directed.crosses.length_le
  simp only [step, success, if_true] at stepped
  cases stepped
  constructor
  · rfl
  · simp only [unread, Function.update_self, List.length_append, List.length_singleton]
    omega

/-- A side that only writes comes to where it blocks. -/
theorem exists_full (sizes : BufferSizes) (side : Side) :
    ∃ c : Connection Cb, Reachable step Free (connect sizes) c ∧ c.shut side = false ∧
      c.unread side = capacity sizes side := by
  suffices filled : ∀ count ≤ capacity sizes side, ∃ c : Connection Cb,
      Reachable step Free (connect sizes) c ∧ c.shut side = false ∧ c.unread side = count from
    filled _ (Nat.le_refl _)
  intro count
  induction count with
  | zero => exact fun _ => ⟨_, .start, rfl, rfl⟩
  | succ count ih =>
      intro room
      obtain ⟨c, reached, opened, unread⟩ := ih (Nat.le_of_succ_le room)
      have directed := directed_of_reachable reached side
      have success := (directed.accepts ⟨"", .null⟩ none).mpr ⟨opened, by rw [unread]; exact room⟩
      obtain ⟨c', stepped⟩ : ∃ c', c.step (.write side ⟨"", .null⟩ none) = some c' := ⟨_, rfl⟩
      obtain ⟨same, more⟩ := unread_write directed success stepped
      refine ⟨c', .next reached trivial stepped, ?_, more.trans (by rw [unread])⟩
      rw [same]
      exact opened

/-- **The sizes of a connection.** In every run after `connect` the frames of each side go to the
other; but each direction has the size that is named after it exactly if the two are equal. -/
theorem directed_iff (sizes : BufferSizes) :
    (∀ c : Connection Cb, Reachable step Free (connect sizes) c →
      c.Directed .client sizes.localToRemote ∧ c.Directed .session sizes.remoteToLocal) ↔
        sizes.localToRemote = sizes.remoteToLocal := by
  constructor
  · intro always
    obtain ⟨c, reached, opened, full⟩ := @exists_full Cb sizes .client
    exact ((directed_of_reachable reached .client).size_unique (always c reached).1 opened full).symm
  · intro same c reached
    have client := directed_of_reachable reached .client
    have session := directed_of_reachable reached .session
    simp only [capacity] at client session
    rw [same] at session ⊢
    exact ⟨client, session⟩

/-- Sizes 1 and 2: the client can write a second frame before the first one is read. -/
theorem not_directed :
    ¬ ∀ sizes : BufferSizes, 1 ≤ sizes.localToRemote → 1 ≤ sizes.remoteToLocal →
      ∀ c : Connection Nat, Reachable step Free (connect sizes) c →
        c.Directed .client sizes.localToRemote ∧ c.Directed .session sizes.remoteToLocal := by
  intro always
  have directed := (always ⟨1, 2⟩ (by decide) (by decide) _
    (System.reachable_of_run [.write .client ⟨"", .null⟩ none] rfl)).1
  have accepted := ((directed.accepts ⟨"", .null⟩ none).mp rfl).2
  exact absurd accepted (by decide)

end Connection

end AlpacaCore.Local
