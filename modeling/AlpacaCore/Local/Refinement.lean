import AlpacaCore.Local.Wires

/-!
What is done on the wires is done in `Session.Net`.

An operation of a coroutine is done there at the call under the lock in which it takes effect, so
the coroutine is ahead there until it is resumed here. The rest of what happens on a channel is
nothing there, but for the calls of the client.
-/

namespace AlpacaCore.Local

open AlpacaCore.Io (Party Peer Phase Kind Status Callback streamOp)
open AlpacaCore.Session (Frame Program Service Wait)
open AlpacaCore.System (Reachable Free run)

/-- The channel is open, and the wait objects of the coroutines are in order. The client's need not
be: an operation of its that has timed out may leave a notification to the next one. -/
structure Sound (cfg : Io.Config) (wire : Wire) (net : Io.Net Frame) : Prop where
  inv : Io.Net.Inv cfg net
  room : net.channel.queue.length ≤ net.channel.maxSize
  prompt : ∀ p, wire.port p ≠ none → net.Prompt cfg p
  isOpen : net.channel.closed = false

theorem sound_start (cfg : Io.Config) (wire : Wire) : Sound cfg wire (.start cfg) :=
  ⟨Io.Net.inv_start cfg, Nat.zero_le _, fun p _ => Io.Net.prompt_start cfg p, rfl⟩

/-- An operation of a coroutine has no timeout that could be late. -/
theorem Sound.step {cfg : Io.Config} {wire : Wire} {net net' : Io.Net Frame} {a : Io.Net.Action Frame}
    (sound : Sound cfg wire net) (untimed : ∀ p, wire.port p ≠ none → (net.peer p).phase ≠ .woken false)
    (staysOpen : closes a = false) (stepped : Io.Net.step cfg net a = some net') :
    Sound cfg wire net' := by
  refine ⟨Io.Net.step_inv net a net' sound.inv stepped, Io.Net.step_room sound.inv sound.room stepped,
    fun p owned => ?_, ?_⟩
  · apply Io.Net.step_prompt sound.inv sound.room (sound.prompt p owned) _ stepped
    exact fun expired => absurd expired (untimed p owned)
  · cases Io.Net.step_turn stepped with
    | quiet _ channel _ => rw [channel, sound.isOpen]
    | call p kind t onBlocked issued others idle channel value op ofKind begins =>
        rw [channel]
        exact open_of_call sound.isOpen p.dir t onBlocked
    | handler p ec nothing others blocked channel value op kind statuses unblocked =>
        rw [channel]
        exact open_of_call sound.isOpen p.dir _ none
    | close isClose _ _ =>
        subst isClose
        cases staysOpen

/-- The operation is on its way, with its result if it has taken effect. -/
inductive Flying (peer : Peer Frame) (op : Session.Io) : Option op.Res → Prop where
  | waits (blocked : peer.phase.Blocked) (kind : peer.kind = .async .never) (gives : Gives op peer.value) :
      Flying peer op none
  | took (unblocked : ¬ peer.phase.Blocked) : Flying peer op (some (ended peer op))

theorem Flying.stays {before after : Peer Frame} {op : Session.Io} {res : Option op.Res}
    (flying : Flying before op res) (stays : Io.Net.Stays before after) : Flying after op res := by
  cases flying with
  | waits blocked kind gives =>
      exact .waits (stays.blocked.mpr blocked) (stays.kind.trans kind) (stays.value ▸ gives)
  | took unblocked =>
      have same : ended after op = ended before op := by rw [ended, ended, stays.value, stays.statuses]
      rw [← same]
      exact .took fun blocked => unblocked (stays.blocked.mp blocked)

namespace Wires

variable {cfg : Config} {s s' : Wires} {n : Session.Net}

/-- Where the coroutine is in `Session.Net`: it is ahead when its operation has taken effect. -/
inductive Acts (cfg : Config) (s : Wires) (role : Role) : Program Wait → Prop where
  | rests (free : s.issued role = false) : Acts cfg s role (s.program role)
  | flies {asked : Asked} {res : Option asked.op.Res} (issued : s.issued role = true)
      (suspended : s.asks cfg role = some asked) (flying : Flying (s.peer asked) asked.op res) :
      Acts cfg s role (res.elim (s.program role) asked.next)

structure Refines (cfg : Config) (s : Wires) (n : Session.Net) : Prop where
  sound : ∀ wire, Sound (cfg.net wire) wire (s.wire wire)
  queues : ∀ wire, queue n wire = (s.wire wire).channel.queue
  acts : ∀ role, Acts cfg s role (coroutine n role)
  /-- at an endpoint of a coroutine only the operation waits that it is suspended at -/
  owned : ∀ wire p port, wire.port p = some port → ((s.wire wire).peer p).phase.Blocked →
    ∃ asked, s.issued port.role = true ∧ s.asks cfg port.role = some asked ∧ asked.port = port ∧
      asked.party = p
  asked : n.asked = s.asked
  received : n.received.map (·.frame) = s.received

theorem refines_start (cfg : Config) (service : Service) :
    Refines cfg (start cfg service) (Session.Net.start service) := by
  refine ⟨fun wire => sound_start _ _, fun wire => ?_, fun role => ?_, ?_, rfl, rfl⟩
  · cases wire <;> rfl
  · cases role with
    | session => exact .rests rfl
    | manager => exact .rests rfl
  · rintro wire p port - (awaits | ⟨ec, woken⟩)
    · simp [start, Io.Net.start, Phase.Awaits] at awaits
    · simp [start, Io.Net.start] at woken

theorem Acts.stays {role : Role} {q : Program Wait} (acts : Acts cfg s role q)
    (program : s'.program role = s.program role) (issued : s'.issued role = s.issued role)
    (peers : ∀ asked, s.asks cfg role = some asked → Io.Net.Stays (s.peer asked) (s'.peer asked)) :
    Acts cfg s' role q := by
  cases acts with
  | rests free =>
      rw [← program]
      exact .rests (issued.trans free)
  | @flies asked _ flies suspended flying =>
      rw [← program]
      refine .flies (issued.trans flies) ?_ (flying.stays (peers asked suspended))
      rw [Wires.asks, program]
      exact suspended

theorem asks_port {asked : Asked} {role : Role} (suspended : s.asks cfg role = some asked) :
    asked.port.role = role := by
  unfold Wires.asks Local.asks at suspended
  split at suspended <;> cases suspended <;> rfl

@[simp] theorem wire_port (asked : Asked) : asked.wire.port asked.party = some asked.port := by
  cases asked with
  | mk port op next => cases port <;> cases op <;> rfl

theorem eq_of_port {wire : Wire} {p : Party} {port : Port} (owned : wire.port p = some port) :
    port.wire p = wire := by
  cases wire <;> cases p <;> cases owned <;> rfl

theorem issued_setIssued {role other : Role} (issued : s.issued other = true) :
    (s.setIssued role true).issued other = true := by
  by_cases same : other = role
  · simp [setIssued, same]
  · simpa [setIssued, same] using issued

/-- A side of a channel is at one endpoint. -/
theorem peer_setWire {asked other : Asked} {net : Io.Net Frame} (apart : other.port ≠ asked.port)
    (stays : ∀ p, p ≠ asked.party → Io.Net.Stays ((s.wire asked.wire).peer p) (net.peer p)) :
    Io.Net.Stays (s.peer other) ((s.setWire asked.wire net).peer other) := by
  by_cases same : other.wire = asked.wire
  · rw [peer, peer, setWire, same]
    simp only [Function.update_self]
    apply stays
    intro party
    have here := wire_port other
    rw [same, party, wire_port] at here
    exact apart (Option.some.inj here).symm
  · rw [peer, peer, setWire]
    simp only [Function.update_of_ne same]
    exact .refl _

/-- A coroutine's operation takes effect, or begins to wait. -/
theorem Refines.inside {n' : Session.Net} {role : Role} {asked : Asked} {net : Io.Net Frame}
    {res : Option asked.op.Res} (refines : Refines cfg s n) (suspended : s.asks cfg role = some asked)
    (sound : Sound (cfg.net asked.wire) asked.wire net)
    (stays : ∀ p, p ≠ asked.party → Io.Net.Stays ((s.wire asked.wire).peer p) (net.peer p))
    (flying : Flying (net.peer asked.party) asked.op res)
    (queues : queue n' = Function.update (queue n) asked.wire net.channel.queue)
    (coroutines : coroutine n' = Function.update (coroutine n) role (res.elim (s.program role) asked.next))
    (asks : n'.asked = (s.setWire asked.wire net).asked)
    (received : n'.received.map (·.frame) = (s.setWire asked.wire net).received) :
    Refines cfg ((s.setWire asked.wire net).setIssued role true) n' := by
  have ofRole := asks_port suspended
  refine ⟨fun wire => ?_, fun wire => ?_, fun other => ?_, ?_, asks, received⟩
  · by_cases same : wire = asked.wire
    · subst same
      simpa [setWire, setIssued] using sound
    · simpa [setWire, setIssued, same] using refines.sound wire
  · by_cases same : wire = asked.wire
    · subst same
      simp [setWire, setIssued, queues]
    · simpa [setWire, setIssued, queues, same] using refines.queues wire
  · rw [coroutines]
    by_cases same : other = role
    · subst same
      rw [Function.update_self]
      refine .flies (by simp [setIssued]) suspended ?_
      simpa [peer, setWire, setIssued] using flying
    · rw [Function.update_of_ne same]
      refine (refines.acts other).stays rfl (by simp [setIssued, setWire, same]) fun asked' suspended' => ?_
      refine peer_setWire (fun port => same ?_) stays
      rw [← asks_port suspended', port, ofRole]
  · intro wire p port owner blocked
    by_cases same : wire = asked.wire
    · subst same
      by_cases party : p = asked.party
      · subst party
        rw [wire_port] at owner
        cases owner
        exact ⟨asked, by simp [setIssued, ofRole], by rw [ofRole]; exact suspended, rfl, rfl⟩
      · simp only [setIssued, setWire, Function.update_self] at blocked
        obtain ⟨asked', issued, suspended', at', party'⟩ :=
          refines.owned _ p port owner ((stays p party).blocked.mp blocked)
        exact ⟨asked', issued_setIssued issued, suspended', at', party'⟩
    · simp only [setIssued, setWire, Function.update_of_ne same] at blocked
      obtain ⟨asked', issued, suspended', at', party'⟩ := refines.owned _ p port owner blocked
      exact ⟨asked', issued_setIssued issued, suspended', at', party'⟩

/-- Something happens on a channel that is not for the coroutines. -/
theorem Refines.outside {n' : Session.Net} {wire : Wire} {net : Io.Net Frame} (refines : Refines cfg s n)
    (sound : Sound (cfg.net wire) wire net)
    (stays : ∀ p, wire.port p ≠ none → Io.Net.Stays ((s.wire wire).peer p) (net.peer p))
    (queues : queue n' = Function.update (queue n) wire net.channel.queue)
    (coroutines : coroutine n' = coroutine n) (asks : n'.asked = (s.setWire wire net).asked)
    (received : n'.received.map (·.frame) = (s.setWire wire net).received) :
    Refines cfg (s.setWire wire net) n' := by
  refine ⟨fun other => ?_, fun other => ?_, fun role => ?_, ?_, asks, received⟩
  · by_cases same : other = wire
    · subst same
      simpa [setWire] using sound
    · simpa [setWire, same] using refines.sound other
  · by_cases same : other = wire
    · subst same
      simp [setWire, queues]
    · simpa [setWire, queues, same] using refines.queues other
  · rw [coroutines]
    refine (refines.acts role).stays rfl rfl fun asked _ => ?_
    by_cases same : asked.wire = wire
    · subst same
      simpa [peer, setWire] using stays asked.party (by simp)
    · simpa [peer, setWire, same] using .refl _
  · intro other p port owner blocked
    by_cases same : other = wire
    · subst same
      simp only [setWire, Function.update_self] at blocked
      exact refines.owned other p port owner ((stays p (by simp [owner])).blocked.mp blocked)
    · simp only [setWire, Function.update_of_ne same] at blocked
      exact refines.owned other p port owner blocked

theorem written_nil {wire : Wire} {before after : List Frame}
    (less : wire = .toService → after.length ≤ before.length) : written wire before after = [] := by
  unfold written
  split
  · rename_i here
    exact List.drop_eq_nil_of_le (less here)
  · rfl

theorem read_nil {wire : Wire} {before after : List Frame}
    (more : wire = .toClient → before.length ≤ after.length) : read wire before after = [] := by
  unfold read
  split
  · rename_i here
    rw [Nat.sub_eq_zero_of_le (more here), List.take_zero]
  · rfl

/-- What a coroutine does is not what the client writes and reads. -/
theorem untouched_of_effect {asked : Asked} {maxSize : Nat} {before after : List Frame} {r : asked.op.Res}
    (takes : effect maxSize before asked.op = some (r, after)) :
    written asked.wire before after = [] ∧ read asked.wire before after = [] := by
  obtain ⟨port, op, next⟩ := asked
  cases op with
  | push sent =>
      simp only [effect] at takes
      split at takes
      · cases takes
        refine ⟨written_nil fun here => ?_, read_nil fun _ => by simp⟩
        cases port <;> cases here
      · cases takes
  | put sent =>
      simp only [effect] at takes
      split at takes
      · cases takes
        refine ⟨written_nil fun here => ?_, read_nil fun _ => by simp⟩
        cases port <;> cases here
      · cases takes
        exact ⟨written_nil fun _ => Nat.le_refl _, read_nil fun _ => Nat.le_refl _⟩
  | poll =>
      obtain ⟨frame, there, same⟩ := Option.map_eq_some_iff.mp takes
      cases same
      refine ⟨written_nil fun _ => by simp, read_nil fun here => ?_⟩
      cases port <;> cases here
  | get =>
      cases takes
      refine ⟨written_nil fun _ => by simp, read_nil fun here => ?_⟩
      cases port <;> cases here

/-- The client writes to the one channel and reads from the other. -/
theorem client_wire {wire : Wire} {p : Party} (free : wire.port p = none) :
    wire = .toService ∧ p = .writer ∨ wire = .toClient ∧ p = .reader := by
  cases wire <;> cases p <;> simp [Wire.port] at free <;> simp

theorem Refines.maxSize (refines : Refines cfg s n) (wire : Wire) :
    (s.wire wire).channel.maxSize = wire.maxSize cfg.session.sizes :=
  (refines.sound wire).inv.registered.capacity.trans (cfg.sized wire)

/-- A call by the client is a step of the client, or nothing happens. -/
theorem Refines.client {wire : Wire} {p : Party} (refines : Refines cfg s n) (free : wire.port p = none)
    (frame : Frame) (onBlocked : Option Callback) :
    ∃ n', Reachable (Session.Net.step cfg.session) Free n n' ∧
      queue n' = Function.update (queue n) wire
        (streamOp p.dir (s.wire wire).channel frame onBlocked).channel.queue ∧
      coroutine n' = coroutine n ∧
      n'.asked = s.asked ++ written wire (s.wire wire).channel.queue
        (streamOp p.dir (s.wire wire).channel frame onBlocked).channel.queue ∧
      n'.received.map (·.frame) = s.received ++ read wire (s.wire wire).channel.queue
        (streamOp p.dir (s.wire wire).channel frame onBlocked).channel.queue := by
  have happens := Io.streamOp_effect p.dir (s.wire wire).channel frame onBlocked
  generalize streamOp p.dir (s.wire wire).channel frame onBlocked = out at happens ⊢
  cases happens with
  | wrote isWrite _ room =>
      obtain ⟨rfl, rfl⟩ | ⟨-, rfl⟩ := client_wire free
      · have here : n.toService = (s.wire .toService).channel.queue := refines.queues .toService
        rw [refines.maxSize, ← here] at room
        have stepped : n.step cfg.session (.push frame) = some { n with
            toService := n.toService ++ [frame], asked := n.asked ++ [frame] } := if_pos room
        refine ⟨_, .next .start trivial stepped, ?_, ?_, ?_, ?_⟩
        · rw [← here]
          funext other
          cases other <;> rfl
        · funext role
          cases role <;> rfl
        · simp [written, refines.asked]
        · simp [read, refines.received]
      · cases isWrite
  | @gave front rest isRead contents =>
      obtain ⟨-, rfl⟩ | ⟨rfl, rfl⟩ := client_wire free
      · cases isRead
      · have here : n.toClient.map (·.frame) = (s.wire .toClient).channel.queue := refines.queues .toClient
        rw [contents] at here
        obtain ⟨sent, left, there, rfl, rfl⟩ := List.map_eq_cons_iff.mp here
        have stepped : n.step cfg.session .poll = some { n with
            toClient := left, received := n.received ++ [sent] } := by
          simp [Session.Net.step, there]
        refine ⟨_, .next .start trivial stepped, ?_, ?_, ?_, ?_⟩
        · funext other
          cases other <;> rfl
        · funext role
          cases role <;> rfl
        · simp [written, refines.asked]
        · simp [read, contents, refines.received]
  | closed isClosed _ =>
      rw [(refines.sound wire).isOpen] at isClosed
      cases isClosed
  | blocked notReady =>
      refine ⟨n, .start, ?_, rfl, ?_, ?_⟩
      · rw [← refines.queues, Function.update_eq_self]
      · rw [written_nil fun _ => Nat.le_refl _, List.append_nil, refines.asked]
      · rw [read_nil fun _ => Nat.le_refl _, List.append_nil, refines.received]

theorem Acts.of_rests {role : Role} {q : Program Wait} (acts : Acts cfg s role q)
    (free : s.issued role = false) : q = s.program role := by
  cases acts with
  | rests _ => rfl
  | flies issued _ _ =>
      rw [free] at issued
      cases issued

theorem Acts.of_issued {role : Role} {q : Program Wait} {asked : Asked} (acts : Acts cfg s role q)
    (issued : s.issued role = true) (suspended : s.asks cfg role = some asked) :
    ∃ res, Flying (s.peer asked) asked.op res ∧ q = res.elim (s.program role) asked.next := by
  cases acts with
  | rests free =>
      rw [free] at issued
      cases issued
  | flies _ suspended' flying =>
      cases suspended.symm.trans suspended'
      exact ⟨_, flying, rfl⟩

theorem setIssued_same {role : Role} {issued : Bool} (same : s.issued role = issued) :
    s.setIssued role issued = s := by
  rw [setIssued, ← same, Function.update_eq_self]

/-- An operation of a coroutine takes effect in a call. -/
theorem Refines.took {role : Role} {asked : Asked} {net : Io.Net Frame} {frame : Frame}
    {onBlocked : Option Callback} {out : Io.Outcome Frame Callback} (refines : Refines cfg s n)
    (suspended : s.asks cfg role = some asked) (behind : coroutine n role = s.program role)
    (sound : Sound (cfg.net asked.wire) asked.wire net)
    (stays : ∀ p, p ≠ asked.party → Io.Net.Stays ((s.wire asked.wire).peer p) (net.peer p))
    (gives : Gives asked.op frame)
    (called : streamOp asked.party.dir (s.wire asked.wire).channel frame onBlocked = out)
    (last : out.result.status.complete = true ∨ Immediate asked.op) (channel : net.channel = out.channel)
    (value : (net.peer asked.party).value = out.value) {before : List (Kind × Status)} {kind : Kind}
    (statuses : (net.peer asked.party).statuses = before ++ [(kind, out.result.status)])
    (unblocked : ¬ (net.peer asked.party).phase.Blocked) :
    ∃ n', Reachable (Session.Net.step cfg.session) Free n n' ∧
      Refines cfg ((s.setWire asked.wire net).setIssued role true) n' := by
  have takes := effect_of_call (refines.sound asked.wire).isOpen gives called last
  have result : ended (net.peer asked.party) asked.op =
      opResult out.value out.result.status.success asked.op := by
    rw [ended, value, statuses]
    simp
  rw [← result, ← channel, refines.maxSize, ← refines.queues] at takes
  have suspended' : Local.asks cfg.session.env role (coroutine n role) = some asked := behind ▸ suspended
  obtain ⟨a, n', stepped, queues, coroutines, asks, received⟩ := performs_of_effect suspended' takes
  rw [refines.queues] at takes
  obtain ⟨notWritten, notRead⟩ := untouched_of_effect takes
  have flying : Flying (net.peer asked.party) asked.op (some (ended (net.peer asked.party) asked.op)) :=
    .took unblocked
  refine ⟨n', .next .start trivial stepped,
    refines.inside suspended sound stays flying queues coroutines ?_ ?_⟩
  · rw [asks, refines.asked, setWire, notWritten, List.append_nil]
  · rw [received, refines.received, setWire, notRead, List.append_nil]

/-- The wait of a coroutine has no timeout. -/
theorem Refines.untimed (refines : Refines cfg s n) {wire : Wire} {p : Party}
    (owned : wire.port p ≠ none) : ((s.wire wire).peer p).phase ≠ .woken false := by
  intro expired
  obtain ⟨port, owner⟩ := Option.ne_none_iff_exists'.mp owned
  have blocked : ((s.wire wire).peer p).phase.Blocked := .inr ⟨_, expired⟩
  obtain ⟨asked, issued, suspended, rfl, rfl⟩ := refines.owned wire p port owner blocked
  obtain rfl : asked.wire = wire := eq_of_port owner
  obtain ⟨res, flying, -⟩ := (refines.acts asked.port.role).of_issued issued suspended
  have timed := ((refines.sound asked.wire).prompt asked.party owned).timed expired
  cases flying with
  | took unblocked => exact unblocked blocked
  | waits _ never _ => cases timed.symm.trans never

theorem Refines.wire_step {wire : Wire} {action : Io.Net.Action Frame} {net : Io.Net Frame}
    (refines : Refines cfg s n) (staysOpen : closes action = false)
    (allowed : (action.issued.all fun (p, _) => (wire.port p).isNone) = true)
    (stepped : Io.Net.step (cfg.net wire) (s.wire wire) action = some net) :
    ∃ n', Reachable (Session.Net.step cfg.session) Free n n' ∧ Refines cfg (s.setWire wire net) n' := by
  have sound := (refines.sound wire).step (fun _ => refines.untimed) staysOpen stepped
  -- where the client makes the call, or the wait handler of its operation
  have byClient : ∀ p frame onBlocked, wire.port p = none →
      net.channel = (streamOp p.dir (s.wire wire).channel frame onBlocked).channel →
      (∀ q, q ≠ p → Io.Net.Stays ((s.wire wire).peer q) (net.peer q)) →
      ∃ n', Reachable (Session.Net.step cfg.session) Free n n' ∧ Refines cfg (s.setWire wire net) n' := by
    intro p frame onBlocked free channel others
    obtain ⟨n', went, queues, coroutines, asks, received⟩ := refines.client free frame onBlocked
    rw [← channel] at queues asks received
    refine ⟨n', went, refines.outside sound (fun q owned => others q ?_) queues coroutines asks received⟩
    rintro rfl
    exact owned free
  cases Io.Net.step_turn stepped with
  | quiet nothing channel peers =>
      refine ⟨n, .start, refines.outside sound (fun q _ => peers q) ?_ rfl ?_ ?_⟩
      · rw [channel, ← refines.queues, Function.update_eq_self]
      · rw [setWire, channel, written_nil fun _ => Nat.le_refl _, List.append_nil, refines.asked]
      · rw [setWire, channel, read_nil fun _ => Nat.le_refl _, List.append_nil, refines.received]
  | close isClose channel peers =>
      subst isClose
      cases staysOpen
  | call p kind t onBlocked issued others idle channel value op ofKind begins =>
      rw [issued] at allowed
      exact byClient p t onBlocked (by simpa using allowed) channel others
  | handler p ec nothing others blocked channel value op kind statuses unblocked =>
      cases owner : wire.port p with
      | none => exact byClient p _ none owner channel others
      | some port =>
          obtain ⟨asked, issued, suspended, rfl, rfl⟩ := refines.owned wire p port owner blocked
          obtain rfl : asked.wire = wire := eq_of_port owner
          obtain ⟨res, flying, behind⟩ := (refines.acts asked.port.role).of_issued issued suspended
          cases flying with
          | took unblocked => exact absurd blocked unblocked
          | waits _ untimed gives =>
              change ((s.wire asked.wire).peer asked.party).kind = _ at untimed
              rw [untimed] at statuses
              -- an operation without a timeout has not been woken for nothing
              have complete := (sound.prompt asked.party (by simp)).untimed
                (streamOp asked.party.dir (s.wire asked.wire).channel (s.peer asked).value none).result.status
                (by rw [statuses]; exact List.mem_append_right _ (List.mem_singleton_self _))
              obtain ⟨n', went, refines'⟩ := refines.took suspended behind sound others gives rfl
                (.inl complete) channel value statuses unblocked
              have still : (s.setWire asked.wire net).issued asked.port.role = true := issued
              rw [setIssued_same still] at refines'
              exact ⟨n', went, refines'⟩

/-- How the operations of the coroutines are issued. -/
theorem issued_opAction {op : Session.Io} {p : Party} {kind : Kind} {frame : Frame}
    (issued : (opAction op).issued = some (p, kind, frame)) :
    p = opParty op ∧ Gives op frame ∧
      (kind = .async .never ∧ ¬ Immediate op ∨ kind = .sync ∧ Immediate op) := by
  cases op <;> cases issued
  · exact ⟨rfl, rfl, .inl ⟨rfl, id⟩⟩
  · exact ⟨rfl, rfl, .inr ⟨rfl, trivial⟩⟩
  · exact ⟨rfl, trivial, .inl ⟨rfl, id⟩⟩
  · exact ⟨rfl, trivial, .inr ⟨rfl, trivial⟩⟩

theorem closes_opAction (op : Session.Io) : closes (opAction op) = false := by
  cases op <;> rfl

theorem Refines.issue_step {role : Role} {asked : Asked} {net : Io.Net Frame} (refines : Refines cfg s n)
    (suspended : s.asks cfg role = some asked) (free : s.issued role = false)
    (stepped : Io.Net.step (cfg.net asked.wire) (s.wire asked.wire) (opAction asked.op) = some net) :
    ∃ n', Reachable (Session.Net.step cfg.session) Free n n' ∧
      Refines cfg ((s.setWire asked.wire net).setIssued role true) n' := by
  have behind := (refines.acts role).of_rests free
  have sound := (refines.sound asked.wire).step (fun _ => refines.untimed) (closes_opAction _) stepped
  have issues : (opAction asked.op).issued ≠ none := by
    cases asked.op <;> simp [opAction, Io.Net.Action.issued]
  cases Io.Net.step_turn stepped with
  | quiet nothing _ _ => exact absurd nothing issues
  | close isClose _ _ =>
      rw [isClose] at issues
      exact absurd rfl issues
  | handler _ _ nothing => exact absurd nothing issues
  | call p kind t onBlocked issued others idle channel value op ofKind begins =>
      obtain ⟨party, gives, how⟩ := issued_opAction issued
      obtain rfl : p = asked.party := party
      generalize called : streamOp asked.party.dir (s.wire asked.wire).channel t onBlocked = out at *
      by_cases last : out.result.status.complete = true ∨ Immediate asked.op
      · have stands : kind.stands out.result.status = some out.result.status := by
          obtain ⟨rfl, waits⟩ | ⟨rfl, -⟩ := how
          · exact if_pos (last.resolve_right waits)
          · rfl
        rw [stands] at begins
        cases begins with
        | ended statuses unblocked =>
            exact refines.took suspended behind sound others gives called last channel value statuses unblocked
      · obtain ⟨incomplete, waits⟩ := not_or.mp last
        obtain ⟨rfl, -⟩ := how.resolve_right fun sync => waits sync.2
        rw [Io.Kind.stands, if_neg incomplete] at begins
        cases begins with
        | blocked statuses blocked =>
            have happens := Io.streamOp_effect asked.party.dir (s.wire asked.wire).channel t onBlocked
            rw [called] at happens
            cases happens with
            | wrote _ _ _ => exact absurd rfl incomplete
            | gave _ _ => exact absurd rfl incomplete
            | closed _ _ => exact absurd rfl incomplete
            | blocked notReady =>
                have flying : Flying (net.peer asked.party) asked.op none :=
                  .waits blocked ofKind (value ▸ gives)
                refine ⟨n, .start, refines.inside suspended sound others flying ?_ ?_ ?_ ?_⟩
                · rw [channel, ← refines.queues, Function.update_eq_self]
                · exact (Function.update_eq_self_iff.mpr behind.symm).symm
                · rw [setWire, channel, written_nil fun _ => Nat.le_refl _, List.append_nil, refines.asked]
                · rw [setWire, channel, read_nil fun _ => Nat.le_refl _, List.append_nil, refines.received]

/-- The coroutine gets the result, and is where it is in `Session.Net`. -/
theorem Refines.resume_step {role : Role} {asked : Asked} (refines : Refines cfg s n)
    (suspended : s.asks cfg role = some asked) (issued : s.issued role = true)
    (idle : (s.peer asked).phase = .idle) :
    Refines cfg ((s.setProgram role (asked.next (ended (s.peer asked) asked.op))).setIssued role false) n := by
  have unblocked : ¬ (s.peer asked).phase.Blocked := by simp [idle, Phase.Blocked, Phase.Awaits]
  refine ⟨refines.sound, refines.queues, fun other => ?_, ?_, refines.asked, refines.received⟩
  · by_cases same : other = role
    · subst same
      obtain ⟨res, flying, ahead⟩ := (refines.acts other).of_issued issued suspended
      cases flying with
      | waits blocked _ _ => exact absurd blocked unblocked
      | took _ =>
          have rests : Acts cfg ((s.setProgram other (asked.next (ended (s.peer asked) asked.op))).setIssued
              other false) other _ := .rests (by simp [setIssued])
          rw [ahead]
          simpa [setProgram, setIssued] using rests
    · exact (refines.acts other).stays (by simp [setProgram, setIssued, same])
        (by simp [setIssued, setProgram, same]) fun _ _ => .refl _
  · intro wire p port owner blocked
    obtain ⟨asked', issued', suspended', rfl, rfl⟩ := refines.owned wire p port owner blocked
    by_cases same : asked'.port.role = role
    · subst same
      cases suspended.symm.trans suspended'
      obtain rfl : asked.wire = wire := eq_of_port owner
      exact absurd blocked unblocked
    · refine ⟨asked', ?_, ?_, rfl, rfl⟩
      · simpa [setIssued, setProgram, same] using issued'
      · simpa [Wires.asks, setIssued, setProgram, same] using suspended'

/-- At anything but an operation nothing is issued, and nothing waits. -/
theorem Refines.outward {role : Role} (refines : Refines cfg s n) (outward : s.asks cfg role = none) :
    s.issued role = false ∧ coroutine n role = s.program role ∧
      ∀ wire p port, wire.port p = some port → port.role = role →
        ¬ ((s.wire wire).peer p).phase.Blocked := by
  have free : s.issued role = false := by
    by_contra issued
    rw [Bool.not_eq_false] at issued
    have acts := refines.acts role
    generalize coroutine n role = q at acts
    cases acts with
    | rests free =>
        rw [free] at issued
        cases issued
    | flies _ suspended _ =>
        rw [outward] at suspended
        cases suspended
  refine ⟨free, (refines.acts role).of_rests free, ?_⟩
  rintro wire p port owner rfl blocked
  obtain ⟨asked, -, suspended, -, -⟩ := refines.owned wire p port owner blocked
  rw [outward] at suspended
  cases suspended

theorem Refines.find_step {params : Session.Model.Params}
    {next : Option Session.Model → Program Wait} (refines : Refines cfg s n)
    (suspended : s.program .session = .call (.find params) next) (found : Bool) {q : Program Wait}
    (stepped : ∀ m : Session.Net, m.session = .call (.find params) next →
      m.step cfg.session (.session found) = some { m with session := q }) :
    ∃ n', Reachable (Session.Net.step cfg.session) Free n n' ∧
      Refines cfg (s.setProgram .session q) n' := by
  have outward : s.asks cfg .session = none := by simp [Wires.asks, suspended, Local.asks]
  obtain ⟨free, behind, unblocked⟩ := refines.outward outward
  refine ⟨_, .next .start trivial (stepped n (behind.trans suspended)), refines.sound, refines.queues,
    fun role => ?_, ?_, refines.asked, refines.received⟩
  · cases role with
    | session => exact .rests free
    | manager => exact (refines.acts .manager).stays rfl rfl fun _ _ => .refl _
  · intro wire p port owner blocked
    obtain ⟨asked, issued, suspended', rfl, rfl⟩ := refines.owned wire p port owner blocked
    by_cases same : asked.port.role = .session
    · exact absurd blocked (unblocked wire asked.party asked.port owner same)
    · exact ⟨asked, issued, by simpa [Wires.asks, setProgram, same] using suspended', rfl, rfl⟩

theorem Refines.connect_step {next : Unit → Program Wait} (refines : Refines cfg s n)
    (suspended : s.program .session = .call .connect next) (stepped : s.step cfg .connect = some s') :
    ∃ n', Reachable (Session.Net.step cfg.session) Free n n' ∧ Refines cfg s' n' := by
  have outward : s.asks cfg .session = none := by simp [Wires.asks, suspended, Local.asks]
  obtain ⟨free, behind, unblocked⟩ := refines.outward outward
  simp only [step, suspended, Option.some.injEq] at stepped
  subst stepped
  have connects : n.step cfg.session (.session false) = some { n with
      toManager := []
      fromManager := []
      manager := Service.assetMgr.createSession
      session := next () } := by
    have session : n.session = .call .connect next := behind.trans suspended
    simp [Session.Net.step, Session.Net.stepSession, session]
  refine ⟨_, .next .start trivial connects, fun wire => ?_, fun wire => ?_, fun role => ?_, ?_,
    refines.asked, refines.received⟩
  · cases wire with
    | toService => exact refines.sound .toService
    | toClient => exact refines.sound .toClient
    | toManager => exact sound_start _ _
    | fromManager => exact sound_start _ _
  · cases wire with
    | toService => exact refines.queues .toService
    | toClient => exact refines.queues .toClient
    | toManager => rfl
    | fromManager => rfl
  · cases role with
    | session => exact .rests rfl
    | manager => exact .rests rfl
  · intro wire p port owner blocked
    have fresh : ∀ ioCfg, ¬ ((Io.Net.start ioCfg : Io.Net Frame).peer p).phase.Blocked := by
      simp [Io.Net.start, Phase.Blocked, Phase.Awaits]
    cases wire with
    | toService =>
        cases p with
        | reader =>
            cases owner
            exact absurd blocked (unblocked .toService .reader .io rfl rfl)
        | writer => cases owner
    | toClient =>
        cases p with
        | reader => cases owner
        | writer =>
            cases owner
            exact absurd blocked (unblocked .toClient .writer .io rfl rfl)
    | toManager => exact absurd blocked (fresh _)
    | fromManager => exact absurd blocked (fresh _)

theorem Refines.step {a : Action} (refines : Refines cfg s n) (staysOpen : StaysOpen s a)
    (stepped : step cfg s a = some s') :
    ∃ n', Reachable (Session.Net.step cfg.session) Free n n' ∧ Refines cfg s' n' := by
  cases a with
  | wire wire action =>
      simp only [Wires.step] at stepped
      split at stepped
      · rename_i allowed
        obtain ⟨net, goes, rfl⟩ := Option.map_eq_some_iff.mp stepped
        exact refines.wire_step staysOpen allowed goes
      · cases stepped
  | issue role =>
      obtain ⟨asked, suspended, goes⟩ := Option.bind_eq_some_iff.mp stepped
      split at goes
      · cases goes
      · rename_i free
        obtain ⟨net, issues, ended⟩ := Option.bind_eq_some_iff.mp goes
        cases ended
        exact refines.issue_step suspended (by simpa using free) issues
  | resume role =>
      obtain ⟨asked, suspended, goes⟩ := Option.bind_eq_some_iff.mp stepped
      split at goes
      · rename_i ready
        cases goes
        exact ⟨n, .start, refines.resume_step suspended ready.1 ready.2⟩
      · cases goes
  | connect =>
      cases suspended : s.program .session with
      | ret wait => simp [Wires.step, suspended] at stepped
      | throw x => simp [Wires.step, suspended] at stepped
      | call op next =>
          cases op with
          | connect => exact refines.connect_step suspended stepped
          | io op => simp [Wires.step, suspended] at stepped
          | amgrio op => simp [Wires.step, suspended] at stepped
          | find params => simp [Wires.step, suspended] at stepped
  | find found =>
      simp only [Wires.step] at stepped
      split at stepped
      · rename_i params next suspended
        split at stepped
        · rename_i isFound
          split at stepped
          · rename_i model loads
            cases stepped
            exact refines.find_step suspended found fun m session => by
              simp [Session.Net.step, Session.Net.stepSession, session, isFound, loads]
          · cases stepped
        · rename_i missing
          cases stepped
          exact refines.find_step suspended found fun m session => by
            simp [Session.Net.step, Session.Net.stepSession, session, missing]
      · cases stepped

/-- **Sessions over real channels are sessions.** Whatever the client and the asset manager do with
open channels, and in whatever order calls, notifications, timeouts and re-tries come, the frames that
the client has written and read and those that are in the channels are those of a run of
`Session.Net`. -/
theorem wires_refine {service : Service} (reached : Reachable (step cfg) StaysOpen (start cfg service) s) :
    ∃ n, Reachable (Session.Net.step cfg.session) Free (Session.Net.start service) n ∧ Refines cfg s n :=
  reached.simulated (refines_start cfg service) fun _ _ _ _ refines staysOpen stepped =>
    refines.step staysOpen stepped

/-- All endpoints wait over timers, each on a strand of its own. -/
def Config.timers : Config where
  session := .noFiles
  net _ := ⟨10, by decide, fun _ => .timer, fun | .reader => 0 | .writer => 1⟩
  sized wire := by cases wire <;> rfl

/-- The session tells its state while the client's poll for it times out, and waits for the client;
the poll reads the state before it is notified. -/
def greeting : List Action :=
  [.wire .toClient (.async .reader .after ⟨"", .null⟩), .wire .toClient (.wait .reader), .issue .session,
    .wire .toClient (.expire .reader), .wire .toClient (.task 0), .wire .toClient (.call .writer),
    .wire .toClient (.post .writer), .wire .toClient (.task 1), .resume .session,
    .issue .session, .wire .toService (.wait .reader), .wire .toService (.sync .writer ⟨"", .null⟩),
    .wire .toService (.call .writer), .wire .toService (.task 0), .wire .toService (.task 0),
    .resume .session]

theorem wires_refine_greeting :
    ∃ s, run (step .timers) (start .timers .dummy) greeting = some s ∧
      s.received = [⟨Session.StateChange.id, .string Session.stateDummy⟩] ∧ s.asked = [⟨"", .null⟩] ∧
      ∃ n, Reachable (Session.Net.step Config.timers.session) Free (Session.Net.start .dummy) n ∧
        Refines .timers s n :=
  ⟨_, rfl, rfl, rfl, wires_refine (System.reachable_of_meets greeting (by decide) rfl)⟩

end Wires

end AlpacaCore.Local
