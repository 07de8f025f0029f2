import AlpacaCore.Io.WakeUp

/-!
Notifications and the operations they are meant for.

A callback is called after the unlock, and nothing takes it back when the wait of
its operation times out. An operation that ends while its notification is on its
way leaves it to whatever the party does next: the wait of a later operation
ends early, and its re-try may find the channel not ready. Where no timed-out
operation ends that way, notifications reach the operation that registered for
them, and an operation without a timeout ends with success or closed.
-/

namespace AlpacaCore.Io

open AlpacaCore.System (Reachable Free)

/-! ### What a call under the lock does for the other party -/

section Effect

variable {T Cb : Type} [Movable T] {p q : Party} {ch : BufferedChannel T Cb} {t : T}
  {onBlocked : Option Cb} {out : Outcome T Cb}

theorem Effect.bounded (effect : Effect p.dir ch t onBlocked out)
    (room : ch.queue.length ≤ ch.maxSize) :
    out.channel.queue.length ≤ out.channel.maxSize := by
  cases effect with
  | wrote _ _ free =>
      simp only [List.length_append, List.length_singleton]
      omega
  | gave _ contents =>
      simp only [contents, List.length_cons] at room ⊢
      omega
  | closed _ _ => exact room
  | blocked _ => exact room

/-- The reader only makes room and the writer only adds. -/
theorem Effect.ready_lasts (effect : Effect p.dir ch t onBlocked out) (other : q ≠ p)
    (ready : ch.Ready q.dir) : out.channel.Ready q.dir := by
  cases effect with
  | wrote isWrite _ _ =>
      cases q with
      | reader => exact .inl (by simp)
      | writer => cases p <;> simp_all [Party.dir]
  | gave isRead contents =>
      cases q with
      | reader => cases p <;> simp_all [Party.dir]
      | writer =>
          rcases ready with free | closed
          · left
            simp only [contents, List.length_cons] at free ⊢
            omega
          · exact .inr closed
  | closed _ _ => exact ready
  | blocked _ => exact (BufferedChannel.ready_setNotify ..).mpr ready

/-- A call that takes a callback out has made the channel ready for the other. -/
theorem Effect.ready_notified (effect : Effect p.dir ch t onBlocked out)
    (room : ch.queue.length ≤ ch.maxSize) (other : q ≠ p) (notified : out.notified ≠ none) :
    out.channel.Ready q.dir := by
  cases effect with
  | wrote isWrite _ _ =>
      cases q with
      | reader => exact .inl (by simp)
      | writer => cases p <;> simp_all [Party.dir]
  | gave isRead contents =>
      cases q with
      | reader => cases p <;> simp_all [Party.dir]
      | writer =>
          left
          simp only [contents, List.length_cons] at room ⊢
          omega
  | closed _ _ => exact absurd rfl notified
  | blocked _ => exact absurd rfl notified

/-- The last call of an operation stores nothing; it takes out what was stored. -/
theorem Effect.stored_le [DecidableEq Cb] (effect : Effect p.dir ch t onBlocked out)
    (final : onBlocked = none ∨ out.result.status.complete = true) (cb : Cb) :
    out.notified.toList.count cb + out.channel.notify.toList.count cb ≤
      ch.notify.toList.count cb := by
  cases effect with
  | wrote _ _ _ => simp
  | gave _ _ => simp
  | closed _ _ => simp
  | blocked _ =>
      have none : onBlocked = none := final.resolve_right (by simp [Status.complete])
      simp [none]

end Effect

namespace Net

variable {T : Type}

/-- The action makes `notify_one` for the callback reach the wait object: it is
called, the posted cancel runs, or the flag it set ends a wait. -/
inductive Delivers (s : Net T) : Action T → Callback → Prop where
  | call {p : Party} {next : Next} {status : Status} {cb : Callback} :
      (s.peer p).phase = .calling next status cb → Delivers s (.call p) cb
  | closing {cb : Callback} : cb ∈ s.closing → Delivers s (.callClosing cb) cb
  | task {strand : Nat} {cb : Callback} {tasks : List Task} :
      s.tasks strand = .notify cb :: tasks → Delivers s (.task strand) cb
  | wake {p : Party} {op : Nat} : op ∈ (s.peer p).flag → Delivers s (.wake p) ⟨p, op⟩

/-- The operation that registered the callback has not ended. -/
def Outstanding (s : Net T) (cb : Callback) : Prop :=
  cb.op = (s.peer cb.party).op ∧ (s.peer cb.party).phase ≠ .idle

/-- Notifications reach the operation they are meant for, and an operation with
an infinite timeout ends with success or closed. -/
structure Timely [Movable T] (cfg : Config) (s : Net T) : Prop where
  delivered : ∀ a cb s', step cfg s a = some s' → Delivers s a cb → s.Outstanding cb
  untimed : ∀ p status, (.async .never, status) ∈ (s.peer p).statuses → status.complete = true

/-- No wait handler runs after a timeout while a notification for its operation
is on its way. -/
def InTime (cfg : Config) (s : Net T) (a : Action T) : Prop :=
  ∀ p, (s.peer p).phase = .woken false → RunsHandler s a p →
    onTheWay cfg s ⟨p, (s.peer p).op⟩ = 0

instance (cfg : Config) (s : Net T) (a : Action T) : Decidable (InTime cfg s a) :=
  decidable_of_iff (∀ p ∈ [Party.reader, .writer], (s.peer p).phase = .woken false →
      RunsHandler s a p → onTheWay cfg s ⟨p, (s.peer p).op⟩ = 0)
    ⟨fun both p => both p (by cases p <;> simp), fun all p _ => all p⟩

/-! ### At most one notification, for the operation that waits -/

/-- How often the callback is stored in `m_notify` or on its way. -/
def pending (cfg : Config) (s : Net T) (cb : Callback) : Nat :=
  onTheWay cfg s cb + s.channel.notify.toList.count cb

theorem pending_same {cfg : Config} {s s' : Net T} (channel : s'.channel = s.channel)
    (same : ∀ cb, onTheWay cfg s' cb = onTheWay cfg s cb) (cb : Callback) :
    pending cfg s' cb = pending cfg s cb := by
  rw [pending, pending, same, channel]

theorem onTheWay_le_pending (cfg : Config) (s : Net T) (cb : Callback) :
    onTheWay cfg s cb ≤ pending cfg s cb := Nat.le_add_right ..

/-- What holds of each party while timed-out operations end in time. -/
structure Prompt (cfg : Config) (s : Net T) (p : Party) : Prop where
  /-- a pending callback belongs to the operation that is blocked -/
  live : ∀ op, 0 < pending cfg s ⟨p, op⟩ → op = (s.peer p).op ∧
    ((s.peer p).phase.Awaits ∨ (s.peer p).phase = .woken false)
  once : ∀ op, pending cfg s ⟨p, op⟩ ≤ 1
  /-- a notification is sent for a reason, and the reason lasts -/
  ready : ∀ op, 0 < onTheWay cfg s ⟨p, op⟩ → s.channel.Ready p.dir
  woken : (s.peer p).phase = .woken true → s.channel.Ready p.dir
  timed : (s.peer p).phase = .woken false → (s.peer p).kind = .async .after
  untimed : ∀ status, (.async .never, status) ∈ (s.peer p).statuses → status.complete = true

/-- Nothing is pending for the party. -/
theorem Prompt.ended {cfg : Config} {s : Net T} {p : Party}
    (quiet : ∀ op, pending cfg s ⟨p, op⟩ = 0)
    (woken : (s.peer p).phase = .woken true → s.channel.Ready p.dir)
    (intime : (s.peer p).phase ≠ .woken false)
    (untimed : ∀ status, (.async .never, status) ∈ (s.peer p).statuses → status.complete = true) :
    Prompt cfg s p := by
  refine ⟨?_, ?_, ?_, woken, fun expired => absurd expired intime, untimed⟩
  · intro op some
    simp [quiet op] at some
  · intro op
    simp [quiet op]
  · intro op onWay
    have bound := onTheWay_le_pending cfg s ⟨p, op⟩
    have none := quiet op
    omega

theorem prompt_start [Inhabited T] (cfg : Config) (p : Party) : Prompt cfg (start cfg : Net T) p := by
  have nothing : ∀ op, pending cfg (start cfg : Net T) ⟨p, op⟩ = 0 := by
    intro op
    simp [pending, onTheWay, taken, start, BufferedChannel.create, Phase.callee]
  exact .ended nothing (by simp [start]) (by simp [start])
    (by simp [start, Peer.statuses, Phase.status])

/-- Nothing is pending for a party whose operation is not blocked. -/
theorem Prompt.quiet {cfg : Config} {s : Net T} {p : Party} (held : Prompt cfg s p)
    (idle : ¬ (s.peer p).phase.Awaits) (intime : (s.peer p).phase ≠ .woken false) (op : Nat) :
    pending cfg s ⟨p, op⟩ = 0 := by
  by_contra some
  obtain ⟨-, awaits | woken⟩ := held.live op (Nat.pos_of_ne_zero some)
  · exact idle awaits
  · exact intime woken

/-- A notification that is used up was the only one. -/
theorem Prompt.used_up {cfg : Config} {s s' : Net T} {p : Party} (held : Prompt cfg s p)
    {spent : Callback → Nat} (channel : s'.channel = s.channel)
    (less : ∀ cb, onTheWay cfg s' cb + spent cb = onTheWay cfg s cb) {last : Nat}
    (some : 0 < spent ⟨p, last⟩) (op : Nat) : pending cfg s' ⟨p, op⟩ = 0 := by
  have before : ∀ n, pending cfg s' ⟨p, n⟩ + spent ⟨p, n⟩ = pending cfg s ⟨p, n⟩ := by
    intro n
    have count := less ⟨p, n⟩
    rw [pending, pending, channel]
    omega
  have lastCount := before last
  obtain ⟨current, -⟩ := held.live last (by omega)
  by_cases same : op = last
  · subst same
    have once := held.once op
    omega
  · by_contra left
    have count := before op
    obtain ⟨also, -⟩ := held.live op (by omega)
    exact same (also.trans current.symm)

/-- The others: nothing new is pending for `q`, and what it was told stays so. -/
theorem Prompt.keep {cfg : Config} {s s' : Net T} {q : Party} (held : Prompt cfg s q)
    (keeps : Keeps (s.peer q) (s'.peer q))
    (less : ∀ op, pending cfg s' ⟨q, op⟩ ≤ pending cfg s ⟨q, op⟩)
    (lasts : s.channel.Ready q.dir → s'.channel.Ready q.dir)
    (sent : ∀ op, 0 < onTheWay cfg s' ⟨q, op⟩ →
      0 < onTheWay cfg s ⟨q, op⟩ ∨ s'.channel.Ready q.dir) : Prompt cfg s' q := by
  refine ⟨?_, ?_, ?_, ?_, ?_, ?_⟩
  · intro op some
    rw [keeps.op, keeps.phase]
    exact held.live op (Nat.lt_of_lt_of_le some (less op))
  · intro op
    exact Nat.le_trans (less op) (held.once op)
  · intro op onWay
    rcases sent op onWay with before | ready
    · exact lasts (held.ready op before)
    · exact ready
  · intro woken
    rw [keeps.phase] at woken
    exact lasts (held.woken woken)
  · intro woken
    rw [keeps.phase] at woken
    rw [keeps.kind]
    exact held.timed woken
  · rw [keeps.statuses]
    exact held.untimed

/-- The others, where the channel is as it was. -/
theorem Prompt.still {cfg : Config} {s s' : Net T} {q : Party} (held : Prompt cfg s q)
    (keeps : Keeps (s.peer q) (s'.peer q)) (channel : s'.channel = s.channel)
    (same : ∀ op, onTheWay cfg s' ⟨q, op⟩ = onTheWay cfg s ⟨q, op⟩) : Prompt cfg s' q := by
  refine held.keep keeps (fun op => Nat.le_of_eq ?_) (channel ▸ id) fun op onWay => .inl ?_
  · rw [pending, pending, same, channel]
  · exact same op ▸ onWay

/-- The one concerned, when it stays blocked and the channel stays as it was. -/
theorem Prompt.stay {cfg : Config} {s s' : Net T} {p : Party} (held : Prompt cfg s p)
    (channel : s'.channel = s.channel) (op : (s'.peer p).op = (s.peer p).op)
    (statuses : (s'.peer p).statuses = (s.peer p).statuses)
    (phase : (s'.peer p).phase.Awaits ∨
      (s'.peer p).phase = .woken false ∧ (s'.peer p).kind = .async .after)
    (same : ∀ cb, onTheWay cfg s' cb = onTheWay cfg s cb) : Prompt cfg s' p := by
  have equal : ∀ op, pending cfg s' ⟨p, op⟩ = pending cfg s ⟨p, op⟩ := fun op =>
    pending_same channel same _
  refine ⟨?_, ?_, ?_, ?_, ?_, ?_⟩
  · intro n some
    rw [equal] at some
    constructor
    · exact op ▸ (held.live n some).1
    · rcases phase with awaits | ⟨woken, -⟩
      · exact .inl awaits
      · exact .inr woken
  · intro n
    rw [equal]
    exact held.once n
  · intro n onWay
    rw [same] at onWay
    rw [channel]
    exact held.ready n onWay
  · intro woken
    rcases phase with awaits | ⟨expired, -⟩
    · simp [Phase.Awaits, woken] at awaits
    · simp [woken] at expired
  · intro woken
    rcases phase with awaits | ⟨-, timed⟩
    · simp [Phase.Awaits, woken] at awaits
    · exact timed
  · rw [statuses]
    exact held.untimed

/-! ### Every change in time keeps the parties prompt -/

/-- The invariant of runs in time, over the one of all runs. -/
structure PromptInv (cfg : Config) (s : Net T) : Prop where
  room : s.channel.queue.length ≤ s.channel.maxSize
  prompt : ∀ p, Prompt cfg s p

theorem promptInv_start [Inhabited T] (cfg : Config) : PromptInv cfg (start cfg : Net T) :=
  ⟨by simp [start, BufferedChannel.create], prompt_start cfg⟩

/-- What is pending for a party that ends its operation: nothing is left. -/
theorem Prompt.complete_quiet [Movable T] {cfg : Config} {s s' : Net T} {p : Party} {runs : Prop}
    (registered : Registered cfg s) (held : Prompt cfg s p)
    (intime : (s.peer p).phase = .woken false → runs → onTheWay cfg s ⟨p, (s.peer p).op⟩ = 0)
    {t : T} {onBlocked : Option Callback} {out : Outcome T Callback}
    (effect : Effect p.dir s.channel t onBlocked out)
    (final : onBlocked = none ∨ out.result.status.complete = true)
    (origin : (s.peer p).phase = .idle ∨ ∃ ec, (s.peer p).phase = .woken ec ∧ (ec = false → runs))
    (channel : s'.channel = out.channel)
    (taken : ∀ cb, onTheWay cfg s' cb = onTheWay cfg s cb + out.notified.toList.count cb)
    (op : Nat) : pending cfg s' ⟨p, op⟩ = 0 := by
  have less := effect.stored_le final ⟨p, op⟩
  have here := held.once op
  unfold pending
  rw [taken, channel]
  rcases origin with idle | ⟨ec, woken, handler⟩
  · have quiet := held.quiet (by simp [idle, Phase.Awaits]) (by simp [idle]) op
    unfold pending at quiet
    omega
  · cases ec with
    | true =>
        have quiet := held.quiet (by simp [woken, Phase.Awaits]) (by simp [woken]) op
        unfold pending at quiet
        omega
    | false =>
        have none : onTheWay cfg s ⟨p, op⟩ = 0 := by
          by_contra some
          obtain ⟨rfl, -⟩ := held.live op
            (Nat.lt_of_lt_of_le (Nat.pos_of_ne_zero some) (onTheWay_le_pending ..))
          exact some (intime woken (handler rfl))
        by_cases stored : s.channel.notify = some ⟨p, op⟩
        · -- the slot is its own, so the re-try is blocked and clears it
          have notReady := (registered.slot _ stored).2.2
          have incomplete : out.result.status.complete ≠ true := by
            intro complete
            apply notReady
            cases effect with
            | wrote isWrite _ free => exact isWrite ▸ .inl free
            | gave isRead contents => exact isRead ▸ .inl (by simp [contents])
            | closed isClosed _ =>
                cases p with
                | reader => exact .inr isClosed
                | writer => exact .inr isClosed
            | blocked _ => simp [Status.complete] at complete
          have cleared := final.resolve_right incomplete
          cases effect with
          | wrote _ _ _ => simp [Status.complete] at incomplete
          | gave _ _ => simp [Status.complete] at incomplete
          | closed _ _ => simp [Status.complete] at incomplete
          | blocked _ => simp [none, cleared]
        · have : s.channel.notify.toList.count ⟨p, op⟩ = 0 := by
            rw [List.count_eq_zero]
            simpa using stored
          omega

/-- A party that is not blocked and finds the channel not ready finds the slot empty. -/
theorem Registered.none_stored {cfg : Config} {s : Net T} (registered : Registered cfg s) {p : Party}
    (idle : ¬ (s.peer p).phase.Awaits) (ended : ∀ ec, (s.peer p).phase ≠ .woken ec)
    (notReady : ¬ s.channel.Ready p.dir) : s.channel.notify = none := by
  by_contra full
  obtain ⟨cb, stored⟩ := Option.ne_none_iff_exists'.mp full
  obtain rfl := registered.notify_other notReady stored
  obtain ⟨-, awaits | ⟨ec, woken⟩, -⟩ := registered.slot cb stored
  · exact idle awaits
  · exact ended ec woken

theorem Change.room [Movable T] {cfg : Config} {s s' : Net T} {runs : Party → Prop}
    (change : Change cfg s runs s') (room : s.channel.queue.length ≤ s.channel.maxSize) :
    s'.channel.queue.length ≤ s'.channel.maxSize := by
  cases change with
  | register p timeout others idle notReady channel => simpa [channel] using room
  | complete p t onBlocked out status others effect final origin channel => exact channel ▸ effect.bounded room
  | conclude p others before channel => exact channel ▸ room
  | wait p others before channel => exact channel ▸ room
  | wake p spent others before channel => exact channel ▸ room
  | expire p others before timed channel => exact channel ▸ room
  | drop spent peers channel => exact channel ▸ room
  | close peers channel => simpa [channel] using room
  | deliver peers channel => exact channel ▸ room

/-- A party that is in time stays prompt, whatever the other one does. -/
theorem Change.prompt [Movable T] {cfg : Config} {s s' : Net T} {runs : Party → Prop} {q : Party}
    (change : Change cfg s runs s') (registered : Registered cfg s)
    (room : s.channel.queue.length ≤ s.channel.maxSize) (held : Prompt cfg s q)
    (intime : (s.peer q).phase = .woken false → runs q → onTheWay cfg s ⟨q, (s.peer q).op⟩ = 0) :
    Prompt cfg s' q := by
  cases change with
  | register p timeout others idle notReady channel op kind phase statuses same =>
      have empty := registered.none_stored (by simp [idle, Phase.Awaits]) (by simp [idle]) notReady
      by_cases here : q = p
      · subst here
        have quiet := held.quiet (by simp [idle, Phase.Awaits]) (by simp [idle])
        have none : ∀ n, onTheWay cfg s' ⟨q, n⟩ = 0 := fun n =>
          same _ ▸ Nat.le_zero.mp (quiet n ▸ onTheWay_le_pending cfg s ⟨q, n⟩)
        refine ⟨?_, ?_, ?_, by simp [phase], by simp [phase], statuses ▸ held.untimed⟩
        · intro n some
          constructor
          · by_contra other
            simp [pending, none, channel, Ne.symm other] at some
          · exact .inl (.inl phase)
        · intro n
          rw [pending, none, channel]
          simpa using List.count_le_length (l := [(⟨q, (s'.peer q).op⟩ : Callback)]) (a := ⟨q, n⟩)
        · intro n onWay
          simp [none] at onWay
      · refine held.keep (others q here) (fun n => ?_) (fun ready => ?_) fun n onWay => ?_
        · rw [pending, pending, same, channel, empty]
          simp [Ne.symm here]
        · rwa [channel, BufferedChannel.ready_setNotify]
        · exact .inl (same _ ▸ onWay)
  | complete p t onBlocked out status others effect final origin channel agrees statuses ended taken =>
      by_cases here : q = p
      · subst here
        refine .ended (held.complete_quiet registered intime effect final ?_ channel taken)
          (fun woken => absurd woken (ended.2 true)) (ended.2 false) ?_
        · rcases origin with ⟨idle, -⟩ | ⟨ec, woken, -, handler⟩
          · exact .inl idle
          · exact .inr ⟨ec, woken, handler⟩
        · intro known member
          rw [statuses, List.mem_append, List.mem_singleton] at member
          rcases member with before | last
          · exact held.untimed known before
          · obtain ⟨kind, rfl⟩ := Prod.mk.inj last
            rw [agrees]
            rcases origin with ⟨-, complete⟩ | ⟨ec, woken, kept, -⟩
            · exact complete .never kind.symm
            · cases ec with
              | true =>
                  have ready := held.woken woken
                  cases effect with
                  | wrote _ _ _ => rfl
                  | gave _ _ => rfl
                  | closed _ _ => rfl
                  | blocked notReady => exact absurd ready notReady
              | false =>
                  have timed := held.timed woken
                  rw [← kept, ← kind] at timed
                  cases timed
      · refine held.keep (others q here) (fun n => ?_) (fun ready => ?_) fun n onWay => ?_
        · have less := effect.stored_le final ⟨q, n⟩
          rw [pending, pending, taken, channel]
          omega
        · exact channel ▸ effect.ready_lasts here ready
        · by_cases notified : out.notified = none
          · left
            simpa [taken, notified] using onWay
          · exact .inr (channel ▸ effect.ready_notified room here notified)
  | conclude p others before channel statuses ended same =>
      by_cases here : q = p
      · subst here
        have quiet := held.quiet before.1 (before.2 false)
        refine .ended (fun n => ?_) (fun woken => absurd woken (ended.2 true)) (ended.2 false)
          (statuses ▸ held.untimed)
        rw [pending_same channel same]
        exact quiet n
      · exact held.still (others q here) channel fun _ => same _
  | wait p others before channel op kind statuses phase same =>
      by_cases here : q = p
      · subst here
        exact held.stay channel op statuses (.inl (.inr phase)) same
      · exact held.still (others q here) channel fun _ => same _
  | wake p spent others before channel op kind statuses phase less own used =>
      by_cases here : q = p
      · subst here
        obtain ⟨last, some⟩ : ∃ last, 0 < spent ⟨q, last⟩ := by
          obtain ⟨cb, rfl, some⟩ := used
          exact ⟨cb.op, some⟩
        have quiet := held.used_up channel less some
        refine .ended quiet (fun _ => ?_) (by simp [phase]) (statuses ▸ held.untimed)
        have spentOne := less ⟨q, last⟩
        rw [channel]
        exact held.ready last (by omega)
      · apply held.still (others q here) channel
        intro n
        have count := less ⟨q, n⟩
        rwa [own _ here, Nat.add_zero] at count
  | expire p others before timed channel op kind statuses phase same =>
      by_cases here : q = p
      · subst here
        exact held.stay channel op statuses (.inr ⟨phase, kind.trans timed⟩) same
      · exact held.still (others q here) channel fun _ => same _
  | drop spent peers channel late less =>
      refine held.keep (peers ▸ .refl _) (fun n => ?_) (channel ▸ id) fun n onWay => .inl ?_
      · have count := less ⟨q, n⟩
        rw [pending, pending, channel]
        omega
      · have count := less ⟨q, n⟩
        omega
  | close peers channel taken =>
      have closed : s'.channel.Ready q.dir := by
        rw [channel]
        cases q with
        | reader => exact .inr rfl
        | writer => exact .inr rfl
      refine held.keep (peers ▸ .refl _) (fun n => ?_) (fun _ => closed) fun _ _ => .inr closed
      rw [pending, pending, taken, channel]
      simp
  | deliver peers channel same => exact held.still (peers q) channel fun _ => same _

section Step

variable [Movable T] {cfg : Config} {s s' : Net T} {a : Action T}

theorem step_room (inv : Inv cfg s) (room : s.channel.queue.length ≤ s.channel.maxSize)
    (stepped : step cfg s a = some s') : s'.channel.queue.length ≤ s'.channel.maxSize := by
  rcases step_change inv.filed stepped with change | ⟨mid, first, second⟩
  · exact change.room room
  · exact second.room (first.room room)

theorem step_prompt {q : Party} (inv : Inv cfg s) (room : s.channel.queue.length ≤ s.channel.maxSize)
    (held : Prompt cfg s q) (intime : (s.peer q).phase = .woken false → RunsHandler s a q →
      onTheWay cfg s ⟨q, (s.peer q).op⟩ = 0)
    (stepped : step cfg s a = some s') : Prompt cfg s' q := by
  rcases step_change inv.filed stepped with change | ⟨mid, first, second⟩
  · exact change.prompt inv.registered room held intime
  · exact second.prompt (first.registered inv.registered) (first.room room)
      (first.prompt inv.registered room held intime) fun _ never => never.elim

theorem step_promptInv (inv : Inv cfg s) (held : PromptInv cfg s) (intime : InTime cfg s a)
    (stepped : step cfg s a = some s') : PromptInv cfg s' :=
  ⟨step_room inv held.room stepped, fun p => step_prompt inv held.room (held.prompt p) (intime p) stepped⟩

end Step

theorem promptInv_of_reachable [Movable T] [Inhabited T] {cfg : Config} {s : Net T}
    (reached : Reachable (step cfg) (InTime cfg) (start cfg) s) : PromptInv cfg s := by
  induction reached with
  | start => exact promptInv_start cfg
  | next before intime stepped held =>
      have inv := before.invariant (inv_start cfg) fun s a s' held _ => step_inv s a s' held
      exact step_promptInv inv held intime stepped

/-! ### The contract -/

/-- A notification that can be delivered is on its way. -/
theorem Delivers.onTheWay {cfg : Config} {s : Net T} {a : Action T} {cb : Callback}
    (filed : Filed cfg s) (delivers : Delivers s a cb) : 0 < onTheWay cfg s cb := by
  have places : cb ∈ s.taken ∨ cb.op ∈ (s.peer cb.party).flag ∨
      .notify cb ∈ s.tasks (cfg.strand cb.party) := by
    cases delivers with
    | @call p _ _ _ calling =>
        left
        cases p <;> simp [taken, calling, Phase.callee]
    | closing member => exact .inl (by simp [taken, member])
    | @task strand _ _ queued =>
        have home := filed.strand strand (.notify cb) (by simp [queued])
        rw [Task.party] at home
        exact .inr (.inr (by simp [home, queued]))
    | wake set => exact .inr (.inl set)
  unfold Net.onTheWay
  rcases places with out | set | queued
  · have := List.count_pos_iff.mpr out
    omega
  · have := List.count_pos_iff.mpr set
    omega
  · have := List.count_pos_iff.mpr queued
    omega

/-- **Notifications arrive in time.** In every run of one reader and one writer in
which no timed-out operation makes its re-try while a notification for it is on
its way, each `notify_one` reaches the operation that registered for it, and an
operation with an infinite timeout ends with success or closed. -/
theorem timely_of_inTime [Movable T] [Inhabited T] {cfg : Config} {s : Net T}
    (reached : Reachable (step cfg) (InTime cfg) (start cfg) s) : Timely cfg s := by
  have inv : Inv cfg s := reached.invariant (inv_start cfg) fun s a s' held _ => step_inv s a s' held
  have held := promptInv_of_reachable reached
  constructor
  · intro a cb s' _ delivers
    have onWay := delivers.onTheWay inv.filed
    have some := Nat.lt_of_lt_of_le onWay (onTheWay_le_pending cfg s cb)
    obtain ⟨op, blocked⟩ := (held.prompt cb.party).live cb.op some
    refine ⟨op, fun idle => ?_⟩
    rcases blocked with awaits | woken
    · simp [Phase.Awaits, idle] at awaits
    · simp [idle] at woken
  · exact fun p => (held.prompt p).untimed

/-- The condition leaves out only what goes wrong: a re-try that is not in time
ends its operation with the notification still on its way. -/
theorem stray_of_not_inTime [Movable T] {cfg : Config} {s s' : Net T} {a : Action T}
    (late : ¬ InTime cfg s a) (stepped : step cfg s a = some s') :
    ∃ p, 0 < onTheWay cfg s' ⟨p, (s.peer p).op⟩ ∧ ¬ (s'.peer p).phase.Awaits ∧
      ∀ ec, (s'.peer p).phase ≠ .woken ec := by
  simp only [InTime, not_forall] at late
  obtain ⟨p, woken, runs, some⟩ := late
  -- running the handler takes nothing back
  have strays : ∀ s₁ : Net T, s₁.peer = s.peer → (∀ cb, onTheWay cfg s₁ cb = onTheWay cfg s cb) →
      0 < onTheWay cfg (s₁.runHandler p false) ⟨p, (s.peer p).op⟩ ∧
        ¬ ((s₁.runHandler p false).peer p).phase.Awaits ∧
          ∀ ec, ((s₁.runHandler p false).peer p).phase ≠ .woken ec := by
    intro s₁ peers same
    obtain ⟨-, -, -, -, -, ended, taken⟩ := settle_after s₁ p { s₁.peer p with
        value := (streamOp p.dir s₁.channel (s₁.peer p).value none).value }
      (streamOp p.dir s₁.channel (s₁.peer p).value none).channel rfl rfl
      (by simp [peers, woken, Phase.callee]) (by simp [peers, woken, Phase.status]) .finish
      (Traffic.handlerStatus ((s₁.peer p).kind == .async .after) false
        (streamOp p.dir s₁.channel (s₁.peer p).value none).result.status)
      (streamOp p.dir s₁.channel (s₁.peer p).value none).notified
    constructor
    · have counted : onTheWay cfg (s₁.runHandler p false) ⟨p, (s.peer p).op⟩ = _ := taken cfg _
      rw [same] at counted
      omega
    · exact ended
  refine ⟨p, ?_⟩
  cases a with
  | retry q =>
      obtain rfl : q = p := runs
      simp only [step] at stepped
      split at stepped
      · rename_i ec _ here
        rw [woken] at here
        cases here
        cases stepped
        exact strays s rfl fun _ => rfl
      · cases stepped
  | task strand =>
      obtain ⟨tasks, queued⟩ := List.head?_eq_some_iff.mp runs
      simp only [step, queued, runTask, woken] at stepped
      split at stepped
      · cases stepped
        exact strays { s with tasks := Function.update s.tasks strand tasks } rfl fun cb => by
          simpa using onTheWay_pop cfg queued cb
      · cases stepped
  | _ => exact runs.elim

/-- The write takes the reader's callback out and the reader, just timed out,
reads the value; the callback is called when the reader waits again. -/
def staleRun (wakes : List (Action String)) (ends : List (Action String)) : List (Action String) :=
  [.async .reader .after "", .wait .reader, .sync .writer "a", .expire .reader] ++ wakes ++
    [.async .reader .never "", .wait .reader, .call .writer] ++ ends

/-- Over `cvar_wobj` and over `timer_wobj`, a read without a timeout ends with
neither success nor closed. -/
theorem stale_notification_aborts :
    ¬ (∀ s : Net String, Reachable (step ⟨1, by decide, fun _ => .cvar, fun _ => 0⟩) Free
        (start ⟨1, by decide, fun _ => .cvar, fun _ => 0⟩) s →
          Timely ⟨1, by decide, fun _ => .cvar, fun _ => 0⟩ s) ∧
      ¬ (∀ s : Net String, Reachable (step ⟨1, by decide, fun _ => .timer, fun _ => 0⟩) Free
        (start ⟨1, by decide, fun _ => .timer, fun _ => 0⟩) s →
          Timely ⟨1, by decide, fun _ => .timer, fun _ => 0⟩ s) := by
  constructor
  · intro always
    have timely := always _ (System.reachable_of_run
      (staleRun [.retry .reader] [.wake .reader, .retry .reader]) rfl)
    exact absurd (timely.untimed .reader .clear (by decide)) (by decide)
  · intro always
    have timely := always _ (System.reachable_of_run
      (staleRun [.task 0] [.task 0, .task 0]) rfl)
    exact absurd (timely.untimed .reader .clear (by decide)) (by decide)

/-- A read times out on an empty channel; the next one waits for the write. -/
theorem timely_of_inTime_timeout :
    ∃ s : Net String, System.run (step ⟨1, by decide, fun _ => .cvar, fun _ => 0⟩)
        (start ⟨1, by decide, fun _ => .cvar, fun _ => 0⟩)
        [.async .reader .after "", .wait .reader, .expire .reader, .retry .reader,
          .async .reader .never "", .sync .writer "a", .call .writer, .wait .reader] = some s ∧
      Timely ⟨1, by decide, fun _ => .cvar, fun _ => 0⟩ s :=
  ⟨_, rfl, timely_of_inTime (System.reachable_of_meets [.async .reader .after "",
    .wait .reader, .expire .reader, .retry .reader, .async .reader .never "", .sync .writer "a",
    .call .writer, .wait .reader] (by decide) rfl)⟩

end Net

end AlpacaCore.Io
