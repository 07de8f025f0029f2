import AlpacaCore.Io.StepChange

/-!
No lost wake-up.

`m_notify` is one slot for both parties. It is enough because the two are never
blocked at once: a reader is blocked on an open empty queue, a writer on an open
full one, and the capacity is positive. So a call that is blocked displaces no
live callback, and `Registered` holds of the joint state of queue, slot and
callbacks on their way.
-/

namespace AlpacaCore.Io

open AlpacaCore.System (Reachable Free)

/-- With room for one value, a channel that blocks one direction is ready for
the other. -/
theorem BufferedChannel.ready_other {T Cb : Type} {ch : BufferedChannel T Cb} {p q : Party}
    (room : 0 < ch.maxSize) (other : q ≠ p) (notReady : ¬ ch.Ready p.dir) : ch.Ready q.dir := by
  cases p with
  | reader =>
      cases q with
      | reader => exact absurd rfl other
      | writer =>
          simp only [Party.dir, Ready, not_or, not_not] at notReady ⊢
          obtain ⟨empty, -⟩ := notReady
          exact .inl (by simpa [empty] using room)
  | writer =>
      cases q with
      | reader =>
          simp only [Party.dir, Ready, not_or, Nat.not_lt] at notReady ⊢
          obtain ⟨full, -⟩ := notReady
          exact .inl (List.ne_nil_of_length_pos (by omega))
      | writer => exact absurd rfl other

/-- Readiness looks at the queue and the closed flag only. -/
theorem BufferedChannel.ready_setNotify {T Cb : Type} (ch : BufferedChannel T Cb)
    (notify : Option Cb) (dir : Dir) :
    ({ ch with notify := notify } : BufferedChannel T Cb).Ready dir ↔ ch.Ready dir := by
  cases dir <;> rfl

namespace Net

variable {T : Type}

/-- What the slot holds and whom it is for. -/
structure Registered (cfg : Config) (s : Net T) : Prop where
  capacity : s.channel.maxSize = cfg.maxSize
  /-- A stored callback belongs to a blocked operation whose direction is not
  ready. -/
  slot : ∀ cb, s.channel.notify = some cb → cb.op = (s.peer cb.party).op ∧
    ((s.peer cb.party).phase.Awaits ∨ ∃ ec, (s.peer cb.party).phase = .woken ec) ∧
      ¬ s.channel.Ready cb.party.dir
  /-- The callback of a blocked operation is stored or on its way. -/
  wake : ∀ p, (s.peer p).phase.Awaits → s.channel.notify = some ⟨p, (s.peer p).op⟩ ∨
    0 < onTheWay cfg s ⟨p, (s.peer p).op⟩

theorem registered_start [Inhabited T] (cfg : Config) : Registered cfg (start cfg : Net T) := by
  refine ⟨rfl, ?_, ?_⟩
  · simp [start, BufferedChannel.create]
  · simp [start, Phase.Awaits]

/-- A direction other than the one that is not ready has nothing stored. -/
theorem Registered.notify_other {cfg : Config} {s : Net T} (held : Registered cfg s) {p : Party}
    (notReady : ¬ s.channel.Ready p.dir) {cb : Callback} (stored : s.channel.notify = some cb) :
    cb.party = p := by
  by_contra other
  obtain ⟨-, -, blocked⟩ := held.slot cb stored
  have room : 0 < s.channel.maxSize := held.capacity ▸ cfg.maxSize_pos
  exact blocked (BufferedChannel.ready_other room other notReady)

/-- The channel is as it was. Who was blocked stays blocked, and who awaits did so
before, with as much on its way. -/
theorem Registered.still {cfg : Config} {s s' : Net T} (held : Registered cfg s)
    (channel : s'.channel = s.channel)
    (blocked : ∀ q, ((s.peer q).phase.Awaits ∨ ∃ ec, (s.peer q).phase = .woken ec) →
      (s'.peer q).op = (s.peer q).op ∧
        ((s'.peer q).phase.Awaits ∨ ∃ ec, (s'.peer q).phase = .woken ec))
    (awaits : ∀ q, (s'.peer q).phase.Awaits → (s.peer q).phase.Awaits ∧
      (s'.peer q).op = (s.peer q).op ∧
        onTheWay cfg s' ⟨q, (s.peer q).op⟩ = onTheWay cfg s ⟨q, (s.peer q).op⟩) :
    Registered cfg s' := by
  refine ⟨by rw [channel, held.capacity], ?_, ?_⟩
  · intro cb stored
    rw [channel] at stored ⊢
    obtain ⟨op, before, notReady⟩ := held.slot cb stored
    obtain ⟨kept, after⟩ := blocked cb.party before
    exact ⟨op.trans kept.symm, after, notReady⟩
  · intro q after
    obtain ⟨before, op, count⟩ := awaits q after
    rw [op, count, channel]
    exact held.wake q before

/-- The same where only `p` is concerned. -/
theorem Registered.still_party {cfg : Config} {s s' : Net T} (held : Registered cfg s) (p : Party)
    (others : ∀ q, q ≠ p → Keeps (s.peer q) (s'.peer q)) (channel : s'.channel = s.channel)
    (count : ∀ cb, cb.party ≠ p → onTheWay cfg s' cb = onTheWay cfg s cb)
    (blocked : ((s.peer p).phase.Awaits ∨ ∃ ec, (s.peer p).phase = .woken ec) →
      (s'.peer p).op = (s.peer p).op ∧
        ((s'.peer p).phase.Awaits ∨ ∃ ec, (s'.peer p).phase = .woken ec))
    (awaits : (s'.peer p).phase.Awaits → (s.peer p).phase.Awaits ∧
      (s'.peer p).op = (s.peer p).op ∧
        onTheWay cfg s' ⟨p, (s.peer p).op⟩ = onTheWay cfg s ⟨p, (s.peer p).op⟩) :
    Registered cfg s' := by
  refine held.still channel ?_ ?_
  · intro q before
    by_cases here : q = p
    · subst here
      exact blocked before
    · rw [(others q here).op, (others q here).phase]
      exact ⟨rfl, before⟩
  · intro q after
    by_cases here : q = p
    · subst here
      exact awaits after
    · rw [(others q here).phase] at after
      exact ⟨after, (others q here).op, count _ here⟩

/-- Every change keeps the slot and the callbacks on their way in agreement. -/
theorem Change.registered [Movable T] {cfg : Config} {s s' : Net T} {runs : Party → Prop}
    (change : Change cfg s runs s') (held : Registered cfg s) : Registered cfg s' := by
  cases change with
  | register p timeout others idle notReady channel op kind phase statuses same =>
      refine ⟨by rw [channel, ← held.capacity], ?_, ?_⟩
      · intro cb stored
        rw [channel] at stored ⊢
        obtain rfl : _ = cb := Option.some.inj stored
        refine ⟨rfl, .inl (.inl phase), ?_⟩
        rwa [BufferedChannel.ready_setNotify]
      · intro q awaits
        by_cases here : q = p
        · subst here
          exact .inl (by rw [channel])
        · rw [(others q here).phase] at awaits
          rw [(others q here).op, same]
          rcases held.wake q awaits with stored | onWay
          · exact absurd (held.notify_other notReady stored) here
          · exact .inr onWay
  | complete p t onBlocked out status others effect final origin channel agrees statuses ended taken =>
      -- what the other party waits for has not got lost
      have kept : (∀ q, q ≠ p → s.channel.notify = some ⟨q, (s.peer q).op⟩ →
            out.channel.notify = s.channel.notify ∨ out.notified = s.channel.notify) →
          ∀ q, (s'.peer q).phase.Awaits → s'.channel.notify = some ⟨q, (s'.peer q).op⟩ ∨
            0 < onTheWay cfg s' ⟨q, (s'.peer q).op⟩ := by
        intro forwarded q awaits
        have here : q ≠ p := by
          rintro rfl
          exact ended.1 awaits
        rw [(others q here).phase] at awaits
        rw [(others q here).op, taken, channel]
        rcases held.wake q awaits with stored | onWay
        · rcases forwarded q here stored with same | notified
          · exact .inl (same.trans stored)
          · right
            rw [notified, stored]
            simp
        · exact .inr (Nat.add_pos_left onWay _)
      cases effect with
      | wrote _ _ _ =>
          refine ⟨by rw [channel, ← held.capacity], ?_, kept fun _ _ _ => .inr rfl⟩
          intro cb stored
          rw [channel] at stored
          cases stored
      | gave _ _ =>
          refine ⟨by rw [channel, ← held.capacity], ?_, kept fun _ _ _ => .inr rfl⟩
          intro cb stored
          rw [channel] at stored
          cases stored
      | closed isClosed _ =>
          refine ⟨by rw [channel, held.capacity], ?_, kept fun _ _ _ => .inl rfl⟩
          intro cb stored
          rw [channel] at stored
          obtain ⟨-, -, blocked⟩ := held.slot cb stored
          exact absurd (by cases cb.party <;> exact .inr isClosed) blocked
      | blocked notReady =>
          have none : onBlocked = none := final.resolve_right (by simp [Status.complete])
          refine ⟨by rw [channel, ← held.capacity], ?_, kept fun q here stored => ?_⟩
          · intro cb stored
            rw [channel, none] at stored
            cases stored
          · exact absurd (held.notify_other notReady stored) here
  | conclude p others before channel statuses ended same =>
      refine held.still_party p others channel (fun cb _ => same cb) ?_ fun after => ?_
      · rintro (awaits | ⟨ec, woken⟩)
        · exact absurd awaits before.1
        · exact absurd woken (before.2 ec)
      · exact absurd after ended.1
  | wait p others before channel op kind statuses phase same =>
      refine held.still_party p others channel (fun cb _ => same cb) (fun _ => ?_) fun _ => ?_
      · exact ⟨op, .inl (.inr phase)⟩
      · exact ⟨.inl before, op, same _⟩
  | wake p spent others before channel op kind statuses phase less own used =>
      refine held.still_party p others channel (fun cb other => ?_) (fun _ => ?_) fun after => ?_
      · have count := less cb
        rwa [own cb other, Nat.add_zero] at count
      · exact ⟨op, .inr ⟨true, phase⟩⟩
      · simp [phase, Phase.Awaits] at after
  | expire p others before timed channel op kind statuses phase same =>
      refine held.still_party p others channel (fun cb _ => same cb) (fun _ => ?_) fun after => ?_
      · exact ⟨op, .inr ⟨false, phase⟩⟩
      · simp [phase, Phase.Awaits] at after
  | drop spent peers channel late less =>
      refine held.still channel (fun q before => ?_) fun q after => ?_
      · rw [peers]
        exact ⟨rfl, before⟩
      · rw [peers] at after ⊢
        have other : (⟨q, (s.peer q).op⟩ : Callback) ≠ spent := by
          rintro rfl
          exact late after
        have count := less ⟨q, (s.peer q).op⟩
        rw [if_neg other, Nat.add_zero] at count
        exact ⟨after, rfl, count⟩
  | close peers channel taken =>
      refine ⟨by rw [channel, ← held.capacity], by simp [channel], ?_⟩
      intro q awaits
      rw [peers] at awaits ⊢
      right
      rw [taken]
      rcases held.wake q awaits with stored | onWay
      · simp [stored]
      · exact Nat.add_pos_left onWay _
  | deliver peers channel same =>
      refine held.still channel (fun q before => ?_) fun q after => ?_
      · rw [(peers q).op, (peers q).phase]
        exact ⟨rfl, before⟩
      · rw [(peers q).phase] at after
        exact ⟨after, (peers q).op, same _⟩

theorem step_registered [Movable T] {cfg : Config} {s s' : Net T} {a : Action T} (filed : Filed cfg s)
    (held : Registered cfg s) (stepped : step cfg s a = some s') : Registered cfg s' := by
  rcases step_change filed stepped with change | ⟨mid, first, second⟩
  · exact change.registered held
  · exact second.registered (first.registered held)

/-! ### Queued handlers -/

/-- A wait that is over has its handler queued on the strand of a timer, and
`strand_wobj` runs the handler at once. -/
structure HandlerQueued (cfg : Config) (s : Net T) : Prop where
  queued : ∀ p ec, (s.peer p).phase = .woken ec → cfg.wobj p = .timer →
    .handler p ∈ s.tasks (cfg.strand p)
  immediate : ∀ p ec, (s.peer p).phase = .woken ec → cfg.wobj p ≠ .strand

theorem handlerQueued_start [Inhabited T] (cfg : Config) :
    HandlerQueued cfg (start cfg : Net T) :=
  ⟨by simp [start], by simp [start]⟩

theorem step_handlerQueued [Movable T] {cfg : Config} {s s' : Net T} {a : Action T}
    (held : HandlerQueued cfg s) (stepped : step cfg s a = some s') : HandlerQueued cfg s' := by
  have files := step_files stepped
  constructor
  · intro p ec ended timer
    rcases files.woken p ec ended with ⟨before, kept⟩ | ⟨-, handler⟩
    · exact kept (held.queued p ec before timer)
    · exact handler timer
  · intro p ec ended
    rcases files.woken p ec ended with ⟨before, -⟩ | ⟨wobj, -⟩
    · exact held.immediate p ec before
    · exact wobj

/-! ### The contract -/

/-- What a reachable state satisfies. -/
structure Inv (cfg : Config) (s : Net T) : Prop where
  filed : Filed cfg s
  registered : Registered cfg s
  handlers : HandlerQueued cfg s

theorem inv_start [Inhabited T] (cfg : Config) : Inv cfg (start cfg : Net T) :=
  ⟨filed_start cfg, registered_start cfg, handlerQueued_start cfg⟩

theorem step_inv [Movable T] {cfg : Config} (s : Net T) (a : Action T) (s' : Net T) (held : Inv cfg s)
    (stepped : step cfg s a = some s') : Inv cfg s' :=
  ⟨step_filed held.filed stepped, step_registered held.filed held.registered stepped,
    step_handlerQueued held.handlers stepped⟩

/-- The outstanding operation of `p` waits: it was blocked, and no handler of it
is running. Once `just_wait` has returned, the caller's thread is in the handler. -/
def Waiting (cfg : Config) (s : Net T) (p : Party) : Prop :=
  (s.peer p).phase.Awaits ∨ cfg.wobj p ≠ .cvar ∧ ∃ ec, (s.peer p).phase = .woken ec

/-- A wake-up for the outstanding operation of `p` is pending. -/
inductive WakeUpPending (cfg : Config) (s : Net T) (p : Party) : Prop where
  /-- its callback was taken out of `m_notify` and not called yet -/
  | taken (out : ⟨p, (s.peer p).op⟩ ∈ s.taken)
  /-- its callback was called and set the flag -/
  | latched (wobj : cfg.wobj p = .cvar) (set : (s.peer p).op ∈ (s.peer p).flag)
  /-- its callback was called and posted to the strand -/
  | posted (wobj : cfg.wobj p ≠ .cvar)
      (queued : .notify ⟨p, (s.peer p).op⟩ ∈ s.tasks (cfg.strand p))
  /-- the wait is over and its handler is in the queue of the strand -/
  | handler (wobj : cfg.wobj p = .timer) (queued : .handler p ∈ s.tasks (cfg.strand p))

/-- A notification on its way is in one of the three places. -/
theorem WakeUpPending.of_onTheWay {cfg : Config} {s : Net T} {p : Party} (filed : Filed cfg s)
    (onWay : 0 < onTheWay cfg s ⟨p, (s.peer p).op⟩) : WakeUpPending cfg s p := by
  have places : 0 < s.taken.count ⟨p, (s.peer p).op⟩ ∨
      0 < (s.peer p).flag.count (s.peer p).op ∨
        0 < (s.tasks (cfg.strand p)).count (.notify ⟨p, (s.peer p).op⟩) := by
    simp only [onTheWay] at onWay
    omega
  rcases places with out | set | queued
  · exact .taken (List.count_pos_iff.mp out)
  · have set := List.count_pos_iff.mp set
    exact .latched (filed.flagged p (List.ne_nil_of_mem set)) set
  · have queued := List.count_pos_iff.mp queued
    exact .posted (filed.posted _ _ queued) queued

/-- **No lost wake-up.** In every state that one reader and one writer can reach,
over any of the wait objects, an operation that waits although the channel would
let it complete has a wake-up pending. -/
theorem ready_wakeUpPending [Movable T] [Inhabited T] {cfg : Config} {s : Net T} {p : Party}
    (reached : Reachable (step cfg) Free (start cfg) s) (waits : Waiting cfg s p)
    (ready : s.channel.Ready p.dir) : WakeUpPending cfg s p := by
  have held : Inv cfg s := reached.invariant (inv_start cfg) fun s a s' held _ => step_inv s a s' held
  rcases waits with awaits | ⟨wobj, ec, woken⟩
  · rcases held.registered.wake p awaits with stored | onWay
    · exact absurd ready (held.registered.slot _ stored).2.2
    · exact .of_onTheWay held.filed onWay
  · have timer : cfg.wobj p = .timer := by
      have immediate := held.handlers.immediate p ec woken
      cases kind : cfg.wobj p with
      | cvar => exact absurd kind wobj
      | timer => rfl
      | strand => exact absurd kind immediate
    exact .handler timer (held.handlers.queued p ec woken timer)

/-- The reader has registered and does not wait yet when the write takes its
callback: the wake-up is in the writer's hands. -/
theorem ready_wakeUpPending_between :
    ∃ s : Net String, System.run (step ⟨1, by decide, fun _ => .timer, fun _ => 0⟩)
      (start ⟨1, by decide, fun _ => .timer, fun _ => 0⟩)
      [.async .reader .never "", .sync .writer "a"] = some s ∧
        WakeUpPending ⟨1, by decide, fun _ => .timer, fun _ => 0⟩ s .reader :=
  ⟨_, rfl, ready_wakeUpPending (System.reachable_of_run [.async .reader .never "",
    .sync .writer "a"] rfl) (.inl (.inl rfl)) (.inl (by decide))⟩

end Net

end AlpacaCore.Io
