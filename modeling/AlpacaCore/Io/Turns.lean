import AlpacaCore.Io.Delivery
import Mathlib.Data.List.Induction

/-!
What the wait objects make of the calls on a channel.

`Traffic` leaves open when a wait handler runs. Under the wait objects of the library a step is
a call under the lock by a new operation, the re-try of one that was blocked, the close, or
nothing that the channel or a caller could tell. So what holds of the traffic on a channel
holds over the wait objects.
-/

namespace AlpacaCore.Io

open AlpacaCore.System (Reachable Free)

/-- The re-try of the operation is still to come. -/
def Phase.Blocked (phase : Phase) : Prop := phase.Awaits ∨ ∃ ec, phase = .woken ec

/-- What is known of an operation behind its first call, which had this status. -/
def Kind.stands (kind : Kind) (status : Status) : Option Status :=
  match kind with
  | .sync => some status
  | .async _ => if status.complete then some status else none

namespace Net

variable {T : Type}

/-- The operation that the action issues. -/
def Action.issued : Action T → Option (Party × Kind × T)
  | .sync p t => some (p, .sync, t)
  | .async p timeout t => some (p, .async timeout, t)
  | _ => none

/-- The caller could not tell the difference. -/
structure Stays (before after : Peer T) : Prop where
  value : after.value = before.value
  op : after.op = before.op
  kind : after.kind = before.kind
  statuses : after.statuses = before.statuses
  blocked : after.phase.Blocked ↔ before.phase.Blocked

/-- A new operation has its status, or its wait is to come. -/
inductive Begins (before after : Peer T) (kind : Kind) : Option Status → Prop where
  | ended {status : Status} (statuses : after.statuses = before.statuses ++ [(kind, status)])
      (unblocked : ¬ after.phase.Blocked) : Begins before after kind (some status)
  | blocked (statuses : after.statuses = before.statuses) (waits : after.phase.Blocked) :
      Begins before after kind none

/-- What a step comes to. -/
inductive Turn [Movable T] (s : Net T) (a : Action T) (s' : Net T) : Prop where
  | quiet (nothing : a.issued = none) (channel : s'.channel = s.channel)
      (peers : ∀ q, Stays (s.peer q) (s'.peer q))
  | call (p : Party) (kind : Kind) (t : T) (onBlocked : Option Callback)
      (issued : a.issued = some (p, kind, t))
      (others : ∀ q, q ≠ p → Stays (s.peer q) (s'.peer q))
      (idle : (s.peer p).phase = .idle)
      (channel : s'.channel = (streamOp p.dir s.channel t onBlocked).channel)
      (value : (s'.peer p).value = (streamOp p.dir s.channel t onBlocked).value)
      (op : (s'.peer p).op = (s.peer p).op + 1) (ofKind : (s'.peer p).kind = kind)
      (begins : Begins (s.peer p) (s'.peer p) kind
        (kind.stands (streamOp p.dir s.channel t onBlocked).result.status))
  | handler (p : Party) (ec : Bool) (nothing : a.issued = none)
      (others : ∀ q, q ≠ p → Stays (s.peer q) (s'.peer q))
      (blocked : (s.peer p).phase.Blocked)
      (channel : s'.channel = (streamOp p.dir s.channel (s.peer p).value none).channel)
      (value : (s'.peer p).value = (streamOp p.dir s.channel (s.peer p).value none).value)
      (op : (s'.peer p).op = (s.peer p).op) (kind : (s'.peer p).kind = (s.peer p).kind)
      (statuses : (s'.peer p).statuses = (s.peer p).statuses ++ [((s.peer p).kind,
        Traffic.handlerStatus ((s.peer p).kind == .async .after) ec
          (streamOp p.dir s.channel (s.peer p).value none).result.status)])
      (unblocked : ¬ (s'.peer p).phase.Blocked)
  | close (closes : a = .close) (channel : s'.channel = s.channel.close.2)
      (peers : ∀ q, Stays (s.peer q) (s'.peer q))

/-! ### The parts of a step -/

theorem Stays.refl (peer : Peer T) : Stays peer peer := ⟨rfl, rfl, rfl, rfl, Iff.rfl⟩

theorem Stays.trans {before mid after : Peer T} (first : Stays before mid) (second : Stays mid after) :
    Stays before after := by
  constructor
  · exact second.value.trans first.value
  · exact second.op.trans first.op
  · exact second.kind.trans first.kind
  · exact second.statuses.trans first.statuses
  · exact second.blocked.trans first.blocked

theorem setPeer_stays (s : Net T) (p : Party) {peer : Peer T} (stays : Stays (s.peer p) peer) (q : Party) :
    Stays (s.peer q) ((s.setPeer p peer).peer q) := by
  by_cases same : q = p
  · subst same
    rw [setPeer_self]
    exact stays
  · rw [setPeer_other _ _ same]
    exact .refl _

theorem notifyOne_stays (cfg : Config) (s : Net T) (cb : Callback) (q : Party) :
    Stays (s.peer q) ((notifyOne cfg s cb).peer q) := by
  unfold notifyOne
  split
  · refine setPeer_stays s cb.party ?_ q
    exact ⟨rfl, rfl, rfl, rfl, Iff.rfl⟩
  · exact .refl _
  · exact .refl _

/-- The phase goes on, with the status that is known and no wait before or behind. -/
theorem stays_setPhase (peer : Peer T) {phase : Phase} (status : phase.status = peer.phase.status)
    (blocked : phase.Blocked ↔ peer.phase.Blocked) : Stays peer { peer with phase := phase } := by
  refine ⟨rfl, rfl, rfl, ?_, blocked⟩
  rw [Peer.statuses, Peer.statuses, status]

/-- What is left to do of an operation with its status leaves it that. -/
theorem settle_stays (s : Net T) (p : Party) (next : Next) {status : Status}
    (known : (s.peer p).phase.status = [status]) (unblocked : ¬ (s.peer p).phase.Blocked) (q : Party) :
    Stays (s.peer q) ((s.settle p next status none).peer q) := by
  have settles := settle_settles s p next status none
  by_cases same : q = p
  · subst same
    have ended : ¬ ((s.settle q next status none).peer q).phase.Blocked := by
      rintro (awaits | ⟨ec, woken⟩)
      · exact settles.ended.1 awaits
      · exact settles.ended.2 ec woken
    refine ⟨?_, settles.op, settles.kind, ?_, iff_of_false ended unblocked⟩
    · cases next <;> simp [settle, finish]
    · rw [settles.statuses, Peer.statuses, known]
      rfl
  · rw [settles.others q same]
    exact .refl _

/-- A call that is the operation's last one gives it its status. -/
theorem settle_ends (s : Net T) (p : Party) (peer : Peer T) (channel : BufferedChannel T Callback)
    (results : peer.results = (s.peer p).results) (unknown : (s.peer p).phase.status = []) (next : Next)
    (status : Status) (notified : Option Callback) :
    let s' := { s.setPeer p peer with channel := channel }.settle p next status notified
    (∀ q, q ≠ p → Stays (s.peer q) (s'.peer q)) ∧ s'.channel = channel ∧ (s'.peer p).value = peer.value ∧
      (s'.peer p).op = peer.op ∧ (s'.peer p).kind = peer.kind ∧
      (s'.peer p).statuses = (s.peer p).statuses ++ [(peer.kind, status)] ∧ ¬ (s'.peer p).phase.Blocked := by
  intro s'
  have settles : Settles p next status notified { s.setPeer p peer with channel := channel } s' :=
    settle_settles _ p next status notified
  have here : ({ s.setPeer p peer with channel := channel } : Net T).peer p = peer := setPeer_self s p peer
  refine ⟨fun q other => ?_, settles.channel, ?_, ?_, ?_, ?_, ?_⟩
  · rw [settles.others q other]
    exact setPeer_other s peer other ▸ .refl _
  · cases notified <;> cases next <;> simp [s', settle, finish]
  · rw [settles.op, here]
  · rw [settles.kind, here]
  · rw [settles.statuses, here, results, Peer.statuses, unknown]
    simp
  · rintro (awaits | ⟨ec, woken⟩)
    · exact settles.ended.1 awaits
    · exact settles.ended.2 ec woken

/-- The handler is a call under the lock, seen from a state that differs only in what is queued. -/
theorem runHandler_turn [Movable T] {s s₁ : Net T} {a : Action T} {p : Party} (ec : Bool)
    (nothing : a.issued = none) (peers : s₁.peer = s.peer) (channel : s₁.channel = s.channel)
    (blocked : (s.peer p).phase.Blocked) : Turn s a (s₁.runHandler p ec) := by
  have unknown : (s.peer p).phase.status = [] := by
    rcases blocked with (phase | phase) | ⟨ec, phase⟩ <;> simp [phase, Phase.status]
  obtain ⟨ch, peer, tasks, closing⟩ := s₁
  simp only at peers channel
  subst peers channel
  obtain ⟨others, channel, value, op, kind, statuses, unblocked⟩ :=
    settle_ends ⟨s.channel, s.peer, tasks, closing⟩ p
      { s.peer p with value := (streamOp p.dir s.channel (s.peer p).value none).value }
      (streamOp p.dir s.channel (s.peer p).value none).channel rfl unknown .finish
      (Traffic.handlerStatus ((s.peer p).kind == .async .after) ec
        (streamOp p.dir s.channel (s.peer p).value none).result.status)
      (streamOp p.dir s.channel (s.peer p).value none).notified
  exact .handler p ec nothing others blocked channel value op kind statuses unblocked

theorem runTask_turn [Movable T] {cfg : Config} {s s' : Net T} {a : Action T} (s₁ : Net T) {task : Task}
    (nothing : a.issued = none) (peers : s₁.peer = s.peer) (channel : s₁.channel = s.channel)
    (ran : runTask cfg s₁ task = some s') : Turn s a s' := by
  cases task with
  | notify cb =>
      simp only [runTask, peers] at ran
      split at ran
      · rename_i waiting
        split at ran
        · -- the handler is queued
          cases ran
          refine .quiet nothing channel fun q => ?_
          rw [← peers]
          refine setPeer_stays s₁ cb.party ?_ q
          rw [peers]
          exact stays_setPhase _ (by simp [waiting, Phase.status])
            (iff_of_true (.inr ⟨true, rfl⟩) (.inl (.inr waiting)))
        · cases ran
          exact runHandler_turn true nothing peers channel (.inl (.inr waiting))
        · cases ran
      · cases ran
        exact .quiet nothing channel fun q => peers ▸ .refl _
  | handler p =>
      simp only [runTask, peers] at ran
      split at ran
      · rename_i ec woken
        cases ran
        exact runHandler_turn ec nothing peers channel (.inr ⟨ec, woken⟩)
      · cases ran
  | complete p =>
      simp only [runTask, peers] at ran
      split at ran
      · rename_i status posted
        cases ran
        refine .quiet nothing channel fun q => ?_
        rw [← peers]
        exact settle_stays s₁ p .finish (by simp [peers, posted, Phase.status])
          (by simp [peers, posted, Phase.Blocked, Phase.Awaits]) q
      · cases ran

/-- **The turns of `step`.** -/
theorem step_turn [Movable T] {cfg : Config} {s s' : Net T} {a : Action T} (stepped : step cfg s a = some s') :
    Turn s a s' := by
  cases a with
  | sync p t =>
      simp only [step] at stepped
      split at stepped
      · rename_i idle
        cases stepped
        obtain ⟨others, channel, value, op, kind, statuses, unblocked⟩ := settle_ends s p { s.peer p with
            op := (s.peer p).op + 1, kind := .sync, value := (streamOp p.dir s.channel t none).value }
          (streamOp p.dir s.channel t none).channel rfl (by simp [idle, Phase.status]) .finish
          (streamOp p.dir s.channel t none).result.status (streamOp p.dir s.channel t none).notified
        exact .call p .sync t none rfl others idle channel value op kind (.ended statuses unblocked)
      · cases stepped
  | async p timeout t =>
      simp only [step] at stepped
      split at stepped
      · rename_i enabled
        obtain ⟨idle, -⟩ := enabled
        split at stepped
        · rename_i complete
          cases stepped
          obtain ⟨others, channel, value, op, kind, statuses, unblocked⟩ := settle_ends s p { s.peer p with
              op := (s.peer p).op + 1, kind := .async timeout,
              value := (streamOp p.dir s.channel t (some ⟨p, (s.peer p).op + 1⟩)).value }
            (streamOp p.dir s.channel t (some ⟨p, (s.peer p).op + 1⟩)).channel rfl
            (by simp [idle, Phase.status]) .post
            (streamOp p.dir s.channel t (some ⟨p, (s.peer p).op + 1⟩)).result.status
            (streamOp p.dir s.channel t (some ⟨p, (s.peer p).op + 1⟩)).notified
          refine .call p (.async timeout) t _ rfl others idle channel value op kind ?_
          rw [Kind.stands, if_pos complete]
          exact .ended statuses unblocked
        · rename_i incomplete
          cases stepped
          refine .call p (.async timeout) t (some ⟨p, (s.peer p).op + 1⟩) rfl (fun q other => ?_) idle rfl
            ?_ ?_ ?_ ?_
          · simp only [setPeer, Function.update_of_ne other]
            exact .refl _
          · simp [setPeer]
          · simp [setPeer]
          · simp [setPeer]
          · rw [Kind.stands, if_neg incomplete]
            refine .blocked ?_ ?_
            · simp [setPeer, Peer.statuses, Phase.status, idle]
            · simp [setPeer, Phase.Blocked, Phase.Awaits]
      · cases stepped
  | call p =>
      simp only [step] at stepped
      split at stepped
      · rename_i next status cb calling
        cases stepped
        have channel := (settle_settles (notifyOne cfg s cb) p next status none).channel
        rw [notifyOne_channel] at channel
        refine .quiet rfl channel fun q => ?_
        refine (notifyOne_stays cfg s cb q).trans (settle_stays _ p next ?_ ?_ q)
        · rw [(notifyOne_keeps cfg s cb p).phase, calling]
          rfl
        · rw [(notifyOne_keeps cfg s cb p).phase, calling]
          simp [Phase.Blocked, Phase.Awaits]
      · cases stepped
  | post p =>
      simp only [step] at stepped
      split at stepped
      · rename_i status initiated
        have posts : Turn s (.post p) ((s.setPeer p { s.peer p with phase := .posted status }).pushTask
            (cfg.strand p) (.complete p)) := by
          refine .quiet rfl rfl (setPeer_stays s p (stays_setPhase _ ?_ ?_))
          · simp [initiated, Phase.status]
          · simp [initiated, Phase.Blocked, Phase.Awaits]
        split at stepped
        · cases stepped
          refine .quiet rfl rfl (settle_stays s p .finish ?_ ?_)
          · rw [initiated]
            rfl
          · simp [initiated, Phase.Blocked, Phase.Awaits]
        · cases stepped
          exact posts
        · cases stepped
          exact posts
      · cases stepped
  | wait p =>
      simp only [step] at stepped
      split at stepped
      · rename_i registered
        cases stepped
        refine .quiet rfl rfl (setPeer_stays s p (stays_setPhase _ ?_ ?_))
        · simp [registered, Phase.status]
        · simp [registered, Phase.Blocked, Phase.Awaits]
      · cases stepped
  | wake p =>
      simp only [step] at stepped
      split at stepped
      · rename_i enabled
        obtain ⟨-, waiting, -⟩ := enabled
        cases stepped
        refine .quiet rfl rfl (setPeer_stays s p ⟨rfl, rfl, rfl, ?_, ?_⟩)
        · simp [Peer.statuses, waiting, Phase.status]
        · simp [waiting, Phase.Blocked, Phase.Awaits]
      · cases stepped
  | expire p =>
      simp only [step] at stepped
      split at stepped
      · rename_i enabled
        have expires : Stays (s.peer p) { s.peer p with phase := .woken false } := by
          apply stays_setPhase
          · simp [enabled.1, Phase.status]
          · simp [enabled.1, Phase.Blocked, Phase.Awaits]
        split at stepped
        · split at stepped
          · cases stepped
            exact .quiet rfl rfl (setPeer_stays s p expires)
          · cases stepped
        · cases stepped
          exact .quiet rfl rfl (setPeer_stays s p expires)
        · cases stepped
      · cases stepped
  | retry p =>
      simp only [step] at stepped
      split at stepped
      · rename_i ec _ woken
        cases stepped
        exact runHandler_turn ec rfl rfl rfl (.inr ⟨ec, woken⟩)
      · cases stepped
  | task strand =>
      simp only [step] at stepped
      split at stepped
      · cases stepped
      · split at stepped
        · rename_i task tasks _ _
          exact runTask_turn { s with tasks := Function.update s.tasks strand tasks } rfl rfl rfl stepped
        · cases stepped
  | close =>
      cases stepped
      exact .close rfl rfl fun q => .refl _
  | callClosing cb =>
      simp only [step] at stepped
      split at stepped
      · cases stepped
        let closing := { s with closing := s.closing.erase cb }
        exact .quiet rfl (notifyOne_channel cfg closing cb) (notifyOne_stays cfg closing cb)
      · cases stepped

/-! ### Traffic -/

/-- An operation as it was issued, by direction, whether it is timed, and the value. -/
def issuedAs : Party × Kind × T → Dir × Bool × T := fun (p, kind, t) => (p.dir, kind == .async .after, t)

/-- How the operations of the party stand, in the order of their issue. -/
def standing (p : Party) (operations : List (Operation T)) : List (Bool × Option Status) :=
  (operations.filter (·.dir = p.dir)).map fun op => (op.timed, op.status)

/-- The statuses that the party's operations have. -/
def known (peer : Peer T) : List (Bool × Option Status) :=
  peer.statuses.map fun (kind, status) => (kind == .async .after, some status)

/-- The operation that is blocked is one without a status, with the value of the party. -/
structure BlockedAt (p : Party) (peer : Peer T) (operations : List (Operation T)) (i : Nat) (op : Operation T) :
    Prop where
  there : operations[i]? = some op
  dir : op.dir = p.dir
  timed : op.timed = (peer.kind == .async .after)
  value : op.value = peer.value
  status : op.status = none
  before : standing p (operations.take i) = known peer
  after : standing p (operations.drop (i + 1)) = []

/-- The operations of the party are those on the channel in its direction. -/
structure Mirrored (p : Party) (peer : Peer T) (operations : List (Operation T)) : Prop where
  unblocked : ¬ peer.phase.Blocked → standing p operations = known peer
  waits : peer.phase.Blocked → ∃ i op, BlockedAt p peer operations i op

theorem standing_append (p : Party) (xs ys : List (Operation T)) :
    standing p (xs ++ ys) = standing p xs ++ standing p ys := by
  simp [standing]

theorem dir_ne {p q : Party} (other : q ≠ p) : p.dir ≠ q.dir := by
  cases p <;> cases q <;> simp_all [Party.dir]

/-- Operations of the other party do not matter. -/
theorem standing_other {p : Party} {op : Operation T} (other : op.dir ≠ p.dir) :
    standing p [op] = [] := by
  simp [standing, other]

theorem standing_set {p : Party} {operations : List (Operation T)} {i : Nat} {op' : Operation T}
    (other : op'.dir ≠ p.dir) (there : ∀ op, operations[i]? = some op → op.dir ≠ p.dir) :
    standing p (operations.set i op') = standing p operations := by
  induction operations generalizing i with
  | nil => rfl
  | cons op operations ih =>
      cases i with
      | zero =>
          have first := there op rfl
          simp [standing, other, first]
      | succ i =>
          have later := ih fun op found => there op found
          simp only [standing, List.set_cons_succ, List.filter_cons] at later ⊢
          split
          · simpa using later
          · exact later

theorem Mirrored.stays {p : Party} {before after : Peer T} {operations : List (Operation T)}
    (mirrored : Mirrored p before operations) (stays : Stays before after) : Mirrored p after operations := by
  have same : known after = known before := by rw [known, known, stays.statuses]
  constructor
  · intro unblocked
    rw [same]
    exact mirrored.unblocked fun blocked => unblocked (stays.blocked.mpr blocked)
  · intro blocked
    obtain ⟨i, op, there, dir, timed, value, status, first, last⟩ := mirrored.waits (stays.blocked.mp blocked)
    exact ⟨i, op, there, dir, stays.kind ▸ timed, stays.value ▸ value, status, same ▸ first, last⟩

/-- The other party has issued an operation. -/
theorem Mirrored.issue_other {p : Party} {peer : Peer T} {operations : List (Operation T)} {new : Operation T}
    (mirrored : Mirrored p peer operations) (other : new.dir ≠ p.dir) : Mirrored p peer (operations ++ [new]) := by
  constructor
  · intro unblocked
    rw [standing_append, standing_other other, List.append_nil]
    exact mirrored.unblocked unblocked
  · intro blocked
    obtain ⟨i, op, there, dir, timed, value, status, first, last⟩ := mirrored.waits blocked
    have below : i + 1 ≤ operations.length := (List.getElem?_eq_some_iff.mp there).1
    refine ⟨i, op, ?_, dir, timed, value, status, ?_, ?_⟩
    · rw [List.getElem?_append_left below, there]
    · rw [List.take_append_of_le_length (Nat.le_of_succ_le below)]
      exact first
    · rw [List.drop_append_of_le_length below, standing_append, standing_other other, last, List.append_nil]

/-- An operation of the other party has ended. -/
theorem Mirrored.set_other {p : Party} {peer : Peer T} {operations : List (Operation T)} {i : Nat}
    {old new : Operation T} (mirrored : Mirrored p peer operations) (there : operations[i]? = some old)
    (same : new.dir = old.dir) (other : old.dir ≠ p.dir) : Mirrored p peer (operations.set i new) := by
  have other' : new.dir ≠ p.dir := same ▸ other
  constructor
  · intro unblocked
    rw [standing_set other' fun op found => by
      cases there.symm.trans found
      exact other]
    exact mirrored.unblocked unblocked
  · intro blocked
    obtain ⟨j, op, there', dir, timed, value, status, first, last⟩ := mirrored.waits blocked
    have apart : i ≠ j := by
      rintro rfl
      cases there.symm.trans there'
      exact other dir
    refine ⟨j, op, ?_, dir, timed, value, status, ?_, ?_⟩
    · rw [List.getElem?_set_ne apart, there']
    · rw [List.take_set, standing_set other', first]
      intro op found
      rw [List.getElem?_take] at found
      split at found
      · cases there.symm.trans found
        exact other
      · cases found
    · rw [List.drop_set]
      split
      · exact last
      · rename_i below
        rw [standing_set other', last]
        intro op found
        rw [List.getElem?_drop, Nat.add_sub_cancel' (Nat.le_of_not_lt below)] at found
        cases there.symm.trans found
        exact other

/-- A call issues an operation, which ends at once or waits. -/
theorem Mirrored.issue {p : Party} {before after : Peer T} {operations : List (Operation T)}
    (mirrored : Mirrored p before operations) (idle : before.phase = .idle) {kind : Kind}
    (ofKind : after.kind = kind) {status : Option Status} (begins : Begins before after kind status) (given : T) :
    Mirrored p after (operations ++ [⟨p.dir, kind == .async .after, given, after.value, status⟩]) := by
  have stood := mirrored.unblocked (by simp [idle, Phase.Blocked, Phase.Awaits])
  cases begins with
  | ended statuses unblocked =>
      constructor
      · intro _
        rw [standing_append, stood]
        simp [standing, known, statuses]
      · exact fun blocked => absurd blocked unblocked
  | blocked statuses waits =>
      constructor
      · exact fun unblocked => absurd waits unblocked
      · intro _
        refine ⟨operations.length, _, List.getElem?_concat_length, rfl, ofKind ▸ rfl, rfl, rfl, ?_, ?_⟩
        · rw [List.take_left, stood, known, known, statuses]
        · rw [List.drop_eq_nil_of_le (by simp)]
          rfl

/-- The handler of the blocked operation ends it. -/
theorem Mirrored.handle {p : Party} {before after : Peer T} {operations : List (Operation T)} {i : Nat}
    {op : Operation T} (blocked : BlockedAt p before operations i op) {status : Status}
    (statuses : after.statuses = before.statuses ++ [(before.kind, status)]) (unblocked : ¬ after.phase.Blocked)
    (value : T) : Mirrored p after (operations.set i { op with value := value, status := some status }) := by
  constructor
  · intro _
    have below := (List.getElem?_eq_some_iff.mp blocked.there).1
    rw [List.set_eq_take_append_cons_drop, if_pos below, standing_append, blocked.before,
      ← List.singleton_append, standing_append, blocked.after, List.append_nil]
    simp [standing, known, statuses, blocked.dir, blocked.timed]
  · exact fun blocked => absurd blocked unblocked

/-- The state of the net is one of the traffic, and the operations are those that were issued. -/
structure Mirrors (actions : List (Action T)) (s : Net T) (t : Traffic T Callback) : Prop where
  channel : t.channel = s.channel
  operations : t.operations.map (fun op => (op.dir, op.timed, op.given)) =
    (actions.filterMap Action.issued).map issuedAs
  parties : ∀ p, Mirrored p (s.peer p) t.operations

theorem mirrors_start [Inhabited T] (cfg : Config) : Mirrors [] (start cfg : Net T) (.start cfg.maxSize) := by
  refine ⟨rfl, rfl, fun p => ⟨fun _ => rfl, ?_⟩⟩
  rintro (awaits | ⟨ec, woken⟩)
  · simp [start, Phase.Awaits] at awaits
  · simp [start] at woken

theorem map_set_same {A B : Type} {f : A → B} {xs : List A} {i : Nat} {x y : A} (there : xs[i]? = some x)
    (same : f y = f x) : (xs.set i y).map f = xs.map f := by
  obtain ⟨below, rfl⟩ := List.getElem?_eq_some_iff.mp there
  have inMap : i < (xs.map f).length := by simpa using below
  have kept := List.set_getElem_self inMap
  rw [List.getElem_map] at kept
  rw [List.map_set, same, kept]

/-- Each turn is at most one of the traffic's steps. -/
theorem Mirrors.turn [Movable T] {actions : List (Action T)} {s s' : Net T} {a : Action T}
    {t : Traffic T Callback} (mirrors : Mirrors actions s t) (turn : Turn s a s') :
    ∃ t', Reachable Traffic.step Free t t' ∧ Mirrors (actions ++ [a]) s' t' := by
  cases turn with
  | quiet nothing channel peers =>
      refine ⟨t, .start, mirrors.channel.trans channel.symm, ?_, fun p => (mirrors.parties p).stays (peers p)⟩
      rw [List.filterMap_append, List.filterMap_cons_none nothing, List.filterMap_nil, List.append_nil]
      exact mirrors.operations
  | close closes channel peers =>
      subst closes
      refine ⟨_, .next .start trivial (show t.step .close = some _ from rfl), ?_, ?_, fun p => ?_⟩
      · rw [channel, mirrors.channel]
      · rw [List.filterMap_append, List.filterMap_cons_none rfl, List.filterMap_nil, List.append_nil]
        exact mirrors.operations
      · exact (mirrors.parties p).stays (peers p)
  | handler p ec nothing others blocked channel value op kind statuses unblocked =>
      obtain ⟨i, o, blockedAt⟩ := (mirrors.parties p).waits blocked
      obtain ⟨ch, operations, log⟩ := t
      obtain rfl : ch = s.channel := mirrors.channel
      let out := streamOp o.dir s.channel o.value none
      let o' := { o with value := out.value, status := some (Traffic.handlerStatus o.timed ec out.result.status) }
      have stepped : Traffic.step ⟨s.channel, operations, log⟩ (.handler i ec) =
          some ⟨out.channel, operations.set i o', log ++ Traffic.entry o.dir i o.value out⟩ := by
        simp only [Traffic.step, blockedAt.there, Option.bind_eq_bind, Option.bind_some, blockedAt.status,
          Option.isSome_none, Bool.false_eq_true, if_false]
        rfl
      refine ⟨_, .next .start trivial stepped, ?_, ?_, fun q => ?_⟩
      · simp only [out, blockedAt.dir, blockedAt.value]
        exact channel.symm
      · rw [List.filterMap_append, List.filterMap_cons_none nothing, List.filterMap_nil, List.append_nil,
          ← mirrors.operations]
        exact map_set_same blockedAt.there rfl
      · by_cases same : q = p
        · subst same
          refine Mirrored.handle blockedAt ?_ unblocked out.value
          simp only [out, blockedAt.dir, blockedAt.value, blockedAt.timed]
          exact statuses
        · refine ((mirrors.parties q).stays (others q same)).set_other blockedAt.there rfl ?_
          rw [blockedAt.dir]
          exact dir_ne same
  | call p kind v onBlocked issued others idle channel value op ofKind begins =>
      obtain ⟨ch, operations, log⟩ := t
      obtain rfl : ch = s.channel := mirrors.channel
      let out := streamOp p.dir s.channel v onBlocked
      let new : Operation T :=
        ⟨p.dir, kind == .async .after, v, (s'.peer p).value, kind.stands out.result.status⟩
      have goes : ∃ action, Traffic.step ⟨s.channel, operations, log⟩ action =
          some ⟨out.channel, operations ++ [new], log ++ Traffic.entry p.dir operations.length v out⟩ := by
        simp only [new, value]
        cases kind with
        | sync => exact ⟨.call p.dir v onBlocked, rfl⟩
        | async timeout => exact ⟨.async p.dir (Kind.async timeout == .async .after) v onBlocked, rfl⟩
      obtain ⟨action, stepped⟩ := goes
      refine ⟨_, .next .start trivial stepped, channel.symm, ?_, fun q => ?_⟩
      · rw [List.filterMap_append, List.map_append, List.map_append, mirrors.operations,
          List.filterMap_cons_some issued]
        rfl
      · by_cases same : q = p
        · subst same
          exact (mirrors.parties q).issue idle ofKind begins v
        · exact ((mirrors.parties q).stays (others q same)).issue_other (dir_ne same)

theorem mirrors_of_run [Movable T] [Inhabited T] {cfg : Config} {actions : List (Action T)} {s : Net T}
    (computed : System.run (step cfg) (start cfg) actions = some s) :
    ∃ t, Reachable Traffic.step Free (.start cfg.maxSize) t ∧ Mirrors actions s t := by
  induction actions using List.reverseRecOn generalizing s with
  | nil =>
      cases computed
      exact ⟨_, .start, mirrors_start cfg⟩
  | append_singleton actions a ih =>
      rw [System.run_snoc] at computed
      obtain ⟨mid, before, stepped⟩ := Option.bind_eq_some_iff.mp computed
      obtain ⟨t, reached, mirrors⟩ := ih before
      obtain ⟨t', went, mirrors'⟩ := mirrors.turn (step_turn stepped)
      exact ⟨t', reached.trans went, mirrors'⟩

/-- **The wait objects are a special case.** Whatever one reader and one writer do over the wait
objects of the library, what happens on the channel is a run of the traffic, with the operations that
were issued, in their order, and the statuses their callers get; so the channel is a FIFO for them. -/
theorem net_refines_traffic [Movable T] [Inhabited T] {cfg : Config} {actions : List (Action T)} {s : Net T}
    (computed : System.run (step cfg) (start cfg) actions = some s) :
    ∃ t, Reachable Traffic.step Free (.start cfg.maxSize) t ∧ Mirrors actions s t ∧
      Traffic.Fifo cfg.maxSize t := by
  obtain ⟨t, reached, mirrors⟩ := mirrors_of_run computed
  have held : Traffic.Inv cfg.maxSize t :=
    reached.invariant (Traffic.inv_start cfg.maxSize) fun t a t' held _ => Traffic.step_inv t a t' held
  refine ⟨t, reached, mirrors, held.accounts.order, held.accounts.bounded, held.settled, ?_, ?_⟩
  · intro before after split
    exact (held.accounts.splits before _ after split).nothing_written rfl
  · intro before after op split
    have law := held.accounts.splits before _ after split
    exact ⟨law.close_precedes _ _ rfl, law.all_given op rfl⟩

/-- A read over a timer is blocked and gets its value by the handler. -/
theorem net_refines_traffic_blocked :
    ∃ s : Net String, System.run (step ⟨1, by decide, fun _ => .timer, fun _ => 0⟩)
        (start ⟨1, by decide, fun _ => .timer, fun _ => 0⟩)
        [.async .reader .never "", .wait .reader, .sync .writer "a", .call .writer, .task 0, .task 0] = some s ∧
      (s.peer .reader).value = "a" ∧
      ∃ t, Reachable Traffic.step Free (.start 1) t ∧
        Mirrors [.async .reader .never "", .wait .reader, .sync .writer "a", .call .writer, .task 0, .task 0] s t ∧
        Traffic.Fifo 1 t :=
  ⟨_, rfl, rfl, @net_refines_traffic String _ _ ⟨1, by decide, fun _ => .timer, fun _ => 0⟩
    [.async .reader .never "", .wait .reader, .sync .writer "a", .call .writer, .task 0, .task 0] _ rfl⟩

end Net

end AlpacaCore.Io
