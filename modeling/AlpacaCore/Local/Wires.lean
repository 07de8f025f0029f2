import AlpacaCore.Io.Turns
import AlpacaCore.Local.Connect

/-!
Sessions over the channels they have.

`Session.Net` lets an operation take effect at once or not be there. Here an endpoint is an
`IoEndpoint`: it issues the operation over its wait object, the call under the lock may be
blocked, the notification and the re-try come when they come, and the coroutine is resumed
when the operation has ended. What holds of the sessions in `Session.Net` holds here: whatever
is done on the wires is done there too, each operation at its call under the lock.

The client may use any wait objects, with timeouts as well, and a re-try after a timeout may come
while a notification is under way. Each channel has the handlers that concern it in an order of its
own, so a strand that runs all of them in one order is a special case.
-/

namespace AlpacaCore.Local

open AlpacaCore.Io (Party Peer Status Callback streamOp)
open AlpacaCore.Session (BufferSizes Env Frame Program Service Wait serve)

instance : Inhabited Frame := ⟨⟨"", .null⟩⟩

/-! ### Endpoints -/

/-- The channels of the client's connection, and of the connection to the asset manager. -/
inductive Wire where
  | toService
  | toClient
  | toManager
  | fromManager
deriving DecidableEq, Repr

/-- Who runs a coroutine. -/
inductive Role where
  | session
  | manager
deriving DecidableEq, Repr

/-- An endpoint that is used by a coroutine. -/
inductive Port where
  | io
  | amgrio
  /-- the `io` of the asset manager's session -/
  | manager
deriving DecidableEq, Repr

def Port.role : Port → Role
  | .io => .session
  | .amgrio => .session
  | .manager => .manager

/-- The channel that the endpoint reads from or writes to. -/
def Port.wire : Port → Party → Wire
  | .io, .reader => .toService
  | .io, .writer => .toClient
  | .amgrio, .reader => .fromManager
  | .amgrio, .writer => .toManager
  | .manager, .reader => .toManager
  | .manager, .writer => .fromManager

/-- The endpoint at this side of the channel; the client's is none of the coroutines'. -/
def Wire.port : Wire → Party → Option Port
  | .toService, .reader => some .io
  | .toClient, .writer => some .io
  | .fromManager, .reader => some .amgrio
  | .toManager, .writer => some .amgrio
  | .toManager, .reader => some .manager
  | .fromManager, .writer => some .manager
  | _, _ => none

/-- The capacity that `connect` gives to the channel. -/
def Wire.maxSize (sizes : BufferSizes) (wire : Wire) : Nat :=
  let client : Connection Callback := connect sizes
  let manager : Connection Callback := connect {}
  match wire with
  | .toService => (client.channels.get client.client.writeStream.channel).maxSize
  | .toClient => (client.channels.get client.client.readStream.channel).maxSize
  | .toManager => (manager.channels.get manager.client.writeStream.channel).maxSize
  | .fromManager => (manager.channels.get manager.client.readStream.channel).maxSize

/-- The side of a channel that the operation is for. -/
def opParty : Session.Io → Party
  | .push _ => .writer
  | .put _ => .writer
  | .poll => .reader
  | .get => .reader

/-- How the operation is issued: `push` and `poll` suspend the coroutine, without a timeout. -/
def opAction : Session.Io → Io.Net.Action Frame
  | .push frame => .async .writer .never frame
  | .put frame => .sync .writer frame
  | .poll => .async .reader .never default
  | .get => .sync .reader default

/-- What the coroutine gets, given the value and whether the status has `success`. -/
def opResult (value : Frame) (success : Bool) : (op : Session.Io) → op.Res
  | .push _ => ()
  | .put _ => ()
  | .poll => value
  | .get => if success then some value else none

/-- What the last operation of the party has come to. -/
def ended (peer : Peer Frame) (op : Session.Io) : op.Res :=
  opResult peer.value (peer.statuses.getLast?.any (·.2.success)) op

/-- The operation that a coroutine has come to, and what it does with the result. -/
structure Asked where
  port : Port
  op : Session.Io
  next : op.Res → Program Wait

namespace Asked

def party (asked : Asked) : Party := opParty asked.op

def wire (asked : Asked) : Wire := asked.port.wire asked.party

end Asked

/-- A loop polls; `fetch` is the one that polls the asset manager. -/
def asks (env : Env) : Role → Program Wait → Option Asked
  | .session, .ret (.fetch splice) => some ⟨.amgrio, .poll, serve env (.fetch splice)⟩
  | .session, .ret wait => some ⟨.io, .poll, serve env wait⟩
  | .session, .call (.io op) next => some ⟨.io, op, next⟩
  | .session, .call (.amgrio op) next => some ⟨.amgrio, op, next⟩
  | .manager, .ret wait => some ⟨.manager, .poll, serve env wait⟩
  | .manager, .call (.io op) next => some ⟨.manager, op, next⟩
  | _, _ => none

/-- The channel is closed by the action. -/
def closes : Io.Net.Action Frame → Bool
  | .close => true
  | _ => false

/-! ### Steps -/

structure Wires where
  wire : Wire → Io.Net Frame
  /-- where the coroutine is suspended -/
  program : Role → Program Wait
  /-- The operation it is suspended at was issued. -/
  issued : Role → Bool
  /-- The frames the client has written and read so far. The code does not keep them. -/
  asked : List Frame
  received : List Frame

namespace Wires

structure Config where
  session : Session.Config
  net : Wire → Io.Config
  sized : ∀ wire, (net wire).maxSize = wire.maxSize session.sizes

inductive Action where
  /-- a step on a channel: an operation goes on, or the client issues one -/
  | wire (wire : Wire) (action : Io.Net.Action Frame)
  | issue (role : Role)
  | resume (role : Role)
  | connect
  /-- `found` tells whether the cache has the model -/
  | find (found : Bool)

def start (cfg : Config) (service : Service) : Wires where
  wire := fun wire => .start (cfg.net wire)
  program
    | .session => service.createSession
    | .manager => .ret .assetMgr
  issued := fun _ => false
  asked := []
  received := []

/-- What the client has written in a step on the channel: what is new in it. -/
def written (wire : Wire) (before after : List Frame) : List Frame :=
  if wire = .toService then after.drop before.length else []

/-- What the client has read: what is no longer there. -/
def read (wire : Wire) (before after : List Frame) : List Frame :=
  if wire = .toClient then before.take (before.length - after.length) else []

/-- The channel goes on. -/
def setWire (s : Wires) (wire : Wire) (net : Io.Net Frame) : Wires :=
  let before := (s.wire wire).channel.queue
  { s with
    wire := Function.update s.wire wire net
    asked := s.asked ++ written wire before net.channel.queue
    received := s.received ++ read wire before net.channel.queue }

def setProgram (s : Wires) (role : Role) (program : Program Wait) : Wires :=
  { s with program := Function.update s.program role program }

def setIssued (s : Wires) (role : Role) (issued : Bool) : Wires :=
  { s with issued := Function.update s.issued role issued }

def asks (cfg : Config) (s : Wires) (role : Role) : Option Asked :=
  Local.asks cfg.session.env role (s.program role)

/-- The side of the channel that the operation is issued at. -/
def peer (s : Wires) (asked : Asked) : Peer Frame := (s.wire asked.wire).peer asked.party

def step (cfg : Config) (s : Wires) : Action → Option Wires
  | .wire wire action =>
      -- what the coroutines issue is `issue`
      if action.issued.all fun (p, _) => (wire.port p).isNone then
        (Io.Net.step (cfg.net wire) (s.wire wire) action).map (s.setWire wire)
      else none
  | .issue role => do
      let asked ← s.asks cfg role
      if s.issued role then none
      else
        let net ← Io.Net.step (cfg.net asked.wire) (s.wire asked.wire) (opAction asked.op)
        some ((s.setWire asked.wire net).setIssued role true)
  | .resume role => do
      let asked ← s.asks cfg role
      if s.issued role = true ∧ (s.peer asked).phase = .idle then
        some ((s.setProgram role (asked.next (ended (s.peer asked) asked.op))).setIssued role false)
      else none
  | .connect =>
      match s.program .session with
      | .call .connect next => some { s with
          wire
            | .toManager => .start (cfg.net .toManager)
            | .fromManager => .start (cfg.net .fromManager)
            | wire => s.wire wire
          program
            | .session => next ()
            | .manager => Service.assetMgr.createSession
          issued := fun _ => false }
      | _ => none
  | .find found =>
      match s.program .session with
      | .call (.find params) next =>
          if found then
            match Session.Model.load cfg.session.env params with
            | .ok model => some (s.setProgram .session (next (some model)))
            | .error _ => none
          else some (s.setProgram .session (next none))
      | _ => none

/-- The client keeps its end open. -/
def StaysOpen (_ : Wires) : Action → Prop
  | .wire _ action => closes action = false
  | _ => True

instance (s : Wires) (a : Action) : Decidable (StaysOpen s a) := by
  cases a <;> unfold StaysOpen <;> infer_instance

end Wires

/-! ### What an operation does to its channel -/

/-- The result of an operation on a channel with these frames, and what is in the channel then;
`none` when it has to wait. -/
def effect (maxSize : Nat) (queue : List Frame) : (op : Session.Io) → Option (op.Res × List Frame)
  | .push frame => if queue.length < maxSize then some ((), queue ++ [frame]) else none
  | .put frame => if queue.length < maxSize then some ((), queue ++ [frame]) else some ((), queue)
  | .poll => queue.head?.map fun frame => (frame, queue.tail)
  | .get => some (queue.head?, queue.tail)

/-- The operation gives this frame to its call. -/
def Gives (op : Session.Io) (frame : Frame) : Prop :=
  match op with
  | .push sent => frame = sent
  | .put sent => frame = sent
  | _ => True

/-- The operation has only one call. -/
def Immediate : Session.Io → Prop
  | .put _ => True
  | .get => True
  | _ => False

/-- A call that is the operation's last one. -/
theorem effect_of_call {ch : Io.BufferedChannel Frame Callback} {op : Session.Io} {frame : Frame}
    {onBlocked : Option Callback} {out : Io.Outcome Frame Callback} (isOpen : ch.closed = false)
    (gives : Gives op frame) (called : streamOp (opParty op).dir ch frame onBlocked = out)
    (last : out.result.status.complete = true ∨ Immediate op) :
    effect ch.maxSize ch.queue op =
      some (opResult out.value out.result.status.success op, out.channel.queue) := by
  have happens := Io.streamOp_effect (opParty op).dir ch frame onBlocked
  rw [called] at happens
  cases happens with
  | wrote isWrite _ room =>
      cases op with
      | push sent => simp [effect, opResult, room, show frame = sent from gives]
      | put sent => simp [effect, opResult, room, show frame = sent from gives]
      | poll => cases isWrite
      | get => cases isWrite
  | gave isRead contents =>
      cases op with
      | push sent => cases isRead
      | put sent => cases isRead
      | poll => simp [effect, opResult, contents]
      | get => simp [effect, opResult, contents]
  | closed isClosed _ =>
      rw [isOpen] at isClosed
      cases isClosed
  | blocked notReady =>
      cases op with
      | push sent => simp [Status.complete, Immediate] at last
      | put sent =>
          have full : ¬ ch.queue.length < ch.maxSize := fun room => notReady (.inl room)
          simp [effect, opResult, full]
      | poll => simp [Status.complete, Immediate] at last
      | get =>
          have empty : ch.queue = [] := by
            by_contra some
            exact notReady (.inl some)
          simp [effect, opResult, empty]

/-- The channel stays open. -/
theorem open_of_call {ch : Io.BufferedChannel Frame Callback} (isOpen : ch.closed = false) (dir : Io.Dir)
    (frame : Frame) (onBlocked : Option Callback) :
    (streamOp dir ch frame onBlocked).channel.closed = false := by
  have happens := Io.streamOp_effect dir ch frame onBlocked
  generalize streamOp dir ch frame onBlocked = out at happens
  cases happens <;> exact isOpen

/-! ### What it is in `Session.Net` -/

/-- The frames in the channel. -/
def queue (n : Session.Net) : Wire → List Frame
  | .toService => n.toService
  | .toClient => n.toClient.map (·.frame)
  | .toManager => n.toManager
  | .fromManager => n.fromManager

/-- The coroutine, suspended. -/
def coroutine (n : Session.Net) : Role → Program Wait
  | .session => n.session
  | .manager => n.manager

/-- At an endpoint, where the frames in the other channel do not matter. -/
theorem act_of_read {W : Type} {limit maxSize : Nat} {wrap : Frame → W} {input : List Frame}
    {output : List W} {op : Session.Io} (reads : opParty op = .reader) {r : op.Res} {rest : List Frame}
    (takes : effect maxSize input op = some (r, rest)) :
    op.act limit wrap input output = some (r, rest, output) := by
  cases op with
  | push sent => cases reads
  | put sent => cases reads
  | poll =>
      obtain ⟨frame, there, same⟩ := Option.map_eq_some_iff.mp takes
      obtain ⟨tail, rfl⟩ := List.head?_eq_some_iff.mp there
      cases same
      rfl
  | get =>
      cases takes
      cases input <;> rfl

theorem act_of_write {W : Type} {limit : Nat} {wrap : Frame → W} {unwrap : W → Frame}
    (wrapped : ∀ frame, unwrap (wrap frame) = frame) (input : List Frame) {output : List W}
    {op : Session.Io} (writes : opParty op = .writer) {r : op.Res} {rest : List Frame}
    (takes : effect limit (output.map unwrap) op = some (r, rest)) :
    ∃ output', op.act limit wrap input output = some (r, input, output') ∧ output'.map unwrap = rest := by
  cases op with
  | push sent =>
      simp only [effect, List.length_map] at takes
      split at takes
      · rename_i room
        cases takes
        exact ⟨output ++ [wrap sent], by simp [Session.Io.act, room], by simp [wrapped]⟩
      · cases takes
  | put sent =>
      simp only [effect, List.length_map] at takes
      split at takes
      · rename_i room
        cases takes
        exact ⟨output ++ [wrap sent], by simp [Session.Io.act, room], by simp [wrapped]⟩
      · rename_i full
        cases takes
        exact ⟨output, by simp [Session.Io.act, full], rfl⟩
  | poll => cases writes
  | get => cases writes

/-- `a` is the operation `asked`, which has the result `r` and leaves `rest` in its channel. -/
def Performs (cfg : Session.Config) (n : Session.Net) (role : Role) (asked : Asked) (r : asked.op.Res)
    (rest : List Frame) : Prop :=
  ∃ a n', n.step cfg a = some n' ∧ queue n' = Function.update (queue n) asked.wire rest ∧
    coroutine n' = Function.update (coroutine n) role (asked.next r) ∧ n'.asked = n.asked ∧
    n'.received = n.received

/-- It is enough to look at the endpoint. -/
theorem performs_of_act {cfg : Session.Config} {n : Session.Net} {role : Role} {asked : Asked} {W : Type}
    (wrap : Frame → W) {unwrap : W → Frame} (wrapped : ∀ frame, unwrap (wrap frame) = frame)
    {output : List W} (writes : queue n (asked.port.wire .writer) = output.map unwrap)
    (acts : ∀ r input' output', asked.op.act ((asked.port.wire .writer).maxSize cfg.sizes) wrap
        (queue n (asked.port.wire .reader)) output = some (r, input', output') →
      ∃ a n', n.step cfg a = some n' ∧
        queue n' = Function.update (Function.update (queue n) (asked.port.wire .writer) (output'.map unwrap))
          (asked.port.wire .reader) input' ∧
        coroutine n' = Function.update (coroutine n) role (asked.next r) ∧ n'.asked = n.asked ∧
        n'.received = n.received)
    {r : asked.op.Res} {rest : List Frame}
    (takes : effect (asked.wire.maxSize cfg.sizes) (queue n asked.wire) asked.op = some (r, rest)) :
    Performs cfg n role asked r rest := by
  cases party : opParty asked.op with
  | reader =>
      have wire : asked.wire = asked.port.wire .reader := by rw [Asked.wire, Asked.party, party]
      rw [wire] at takes
      obtain ⟨a, n', stepped, queues, programs, asks, received⟩ :=
        acts r rest output (act_of_read party takes)
      refine ⟨a, n', stepped, ?_, programs, asks, received⟩
      rw [queues, ← writes, Function.update_eq_self, wire]
  | writer =>
      have wire : asked.wire = asked.port.wire .writer := by rw [Asked.wire, Asked.party, party]
      rw [wire, writes] at takes
      obtain ⟨output', taken, rfl⟩ :=
        act_of_write wrapped (queue n (asked.port.wire .reader)) party takes
      obtain ⟨a, n', stepped, queues, programs, asks, received⟩ := acts r _ output' taken
      refine ⟨a, n', stepped, ?_, programs, asks, received⟩
      have apart : asked.port.wire .reader ≠ asked.port.wire .writer := by
        cases asked.port <;> decide
      rw [queues, wire, Function.update_comm apart.symm, Function.update_eq_self]

/-- A loop polls. -/
theorem contents_of_poll {W : Type} {limit : Nat} {wrap : Frame → W} {input input' : List Frame}
    {output output' : List W} {frame : Frame}
    (acts : Session.Io.poll.act limit wrap input output = some (frame, input', output')) :
    input = frame :: input' ∧ output' = output := by
  cases input with
  | nil => cases acts
  | cons => cases acts; exact ⟨rfl, rfl⟩

/-- **An operation with a result is a step of `Session.Net`.** -/
theorem performs_of_effect {cfg : Session.Config} {n : Session.Net} {role : Role} {asked : Asked}
    (suspended : asks cfg.env role (coroutine n role) = some asked) {r : asked.op.Res} {rest : List Frame}
    (takes : effect (asked.wire.maxSize cfg.sizes) (queue n asked.wire) asked.op = some (r, rest)) :
    Performs cfg n role asked r rest := by
  unfold asks at suspended
  split at suspended
  · rename_i splice fetching
    change n.session = _ at fetching
    cases suspended
    refine performs_of_act id (fun _ => rfl) (List.map_id _).symm ?_ takes
    intro frame input output acts
    obtain ⟨contents, rfl⟩ := contents_of_poll acts
    change n.fromManager = _ at contents
    refine ⟨.session false, { n with fromManager := input, session := serve cfg.env (.fetch splice) frame },
      ?_, ?_, ?_, rfl, rfl⟩
    · simp [Session.Net.step, Session.Net.stepSession, fetching, contents]
    · funext wire
      cases wire <;> simp [queue, Port.wire]
    · funext role
      cases role <;> rfl
  · rename_i wait other waiting
    change n.session = _ at waiting
    cases suspended
    refine performs_of_act (Session.Sent.mk n.serving) (fun _ => rfl) rfl ?_ takes
    intro frame input output acts
    obtain ⟨contents, rfl⟩ := contents_of_poll acts
    change n.toService = _ at contents
    refine ⟨.session false, { n with
      toService := input, session := serve cfg.env wait frame, served := n.served ++ [n.taken + 1] },
      ?_, ?_, ?_, rfl, rfl⟩
    · simp [Session.Net.step, Session.Net.stepSession, waiting, contents]
    · funext wire
      cases wire <;> simp [queue, Port.wire]
    · funext role
      cases role <;> rfl
  · rename_i op next suspends
    change n.session = _ at suspends
    cases suspended
    refine performs_of_act (Session.Sent.mk n.serving) (fun _ => rfl) rfl ?_ takes
    intro r input output acts
    refine ⟨.session false, { n with toService := input, toClient := output, session := next r },
      ?_, ?_, ?_, rfl, rfl⟩
    · change op.act cfg.sizes.localToRemote (Session.Sent.mk n.serving) n.toService n.toClient = _ at acts
      simp [Session.Net.step, Session.Net.stepSession, suspends, acts]
    · funext wire
      cases wire <;> simp [queue, Port.wire]
    · funext role
      cases role <;> rfl
  · rename_i op next suspends
    change n.session = _ at suspends
    cases suspended
    refine performs_of_act id (fun _ => rfl) (List.map_id _).symm ?_ takes
    intro r input output acts
    refine ⟨.session false, { n with fromManager := input, toManager := output, session := next r },
      ?_, ?_, ?_, rfl, rfl⟩
    · change op.act ({} : BufferSizes).remoteToLocal id n.fromManager n.toManager = _ at acts
      simp [Session.Net.step, Session.Net.stepSession, suspends, acts]
    · funext wire
      cases wire <;> simp [queue, Port.wire]
    · funext role
      cases role <;> rfl
  · rename_i wait waiting
    change n.manager = _ at waiting
    cases suspended
    refine performs_of_act id (fun _ => rfl) (List.map_id _).symm ?_ takes
    intro frame input output acts
    obtain ⟨contents, rfl⟩ := contents_of_poll acts
    change n.toManager = _ at contents
    refine ⟨.manager, { n with toManager := input, manager := serve cfg.env wait frame },
      ?_, ?_, ?_, rfl, rfl⟩
    · simp [Session.Net.step, Session.Net.stepManager, waiting, contents]
    · funext wire
      cases wire <;> simp [queue, Port.wire]
    · funext role
      cases role <;> rfl
  · rename_i op next suspends
    change n.manager = _ at suspends
    cases suspended
    refine performs_of_act id (fun _ => rfl) (List.map_id _).symm ?_ takes
    intro r input output acts
    refine ⟨.manager, { n with toManager := input, fromManager := output, manager := next r },
      ?_, ?_, ?_, rfl, rfl⟩
    · change op.act ({} : BufferSizes).localToRemote id n.toManager n.fromManager = _ at acts
      simp [Session.Net.step, Session.Net.stepManager, suspends, acts]
    · funext wire
      cases wire <;> simp [queue, Port.wire]
    · funext role
      cases role <;> rfl
  · cases suspended

end AlpacaCore.Local
