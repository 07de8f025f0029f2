import AlpacaCore.Io.Queues

/-!
What one step of the reader, the writer, their wait objects and their strands
can do, stated once. `Change` names the cases by what they do to the channel, to
the one party concerned and to the notifications on their way; the invariants
are proved from these cases and never from the step function.
-/

namespace AlpacaCore.Io

namespace Net

variable {T : Type}

/-- The action runs the wait handler of `p`, queued by an earlier step. -/
def RunsHandler (s : Net T) (a : Action T) (p : Party) : Prop :=
  match a with
  | .retry q => q = p
  | .task strand => (s.tasks strand).head? = some (.handler p)
  | _ => False

instance (s : Net T) (a : Action T) (p : Party) : Decidable (RunsHandler s a p) := by
  cases a <;> unfold RunsHandler <;> infer_instance

/-- The cases of a step that runs the queued wait handlers of `runs`. -/
inductive Change [Movable T] (cfg : Config) (s : Net T) (runs : Party → Prop) (s' : Net T) :
    Prop where
  /-- An untimed or timed operation is blocked and has registered its callback. -/
  | register (p : Party) (timeout : Timeout)
      (others : ∀ q, q ≠ p → Keeps (s.peer q) (s'.peer q))
      (idle : (s.peer p).phase = .idle)
      (notReady : ¬ s.channel.Ready p.dir)
      (channel : s'.channel = { s.channel with notify := some ⟨p, (s'.peer p).op⟩ })
      (op : (s'.peer p).op = (s.peer p).op + 1)
      (kind : (s'.peer p).kind = .async timeout)
      (phase : (s'.peer p).phase = .registered)
      (statuses : (s'.peer p).statuses = (s.peer p).statuses)
      (same : ∀ cb, onTheWay cfg s' cb = onTheWay cfg s cb)
  /-- The last call of an operation: it is not blocked, or has no callback to
  register. The callback it takes out, if any, is on its way. -/
  | complete (p : Party) (t : T) (onBlocked : Option Callback) (out : Outcome T Callback)
      (status : Status)
      (others : ∀ q, q ≠ p → Keeps (s.peer q) (s'.peer q))
      (effect : Effect p.dir s.channel t onBlocked out)
      (final : onBlocked = none ∨ out.result.status.complete = true)
      (origin : ((s.peer p).phase = .idle ∧ ∀ timeout, (s'.peer p).kind = .async timeout →
          out.result.status.complete = true) ∨
        ∃ ec, (s.peer p).phase = .woken ec ∧ (s'.peer p).kind = (s.peer p).kind ∧
          (ec = false → runs p))
      (channel : s'.channel = out.channel)
      (agrees : status.complete = out.result.status.complete)
      (statuses : (s'.peer p).statuses = (s.peer p).statuses ++ [((s'.peer p).kind, status)])
      (ended : ¬ (s'.peer p).phase.Awaits ∧ ∀ ec, (s'.peer p).phase ≠ .woken ec)
      (taken : ∀ cb, onTheWay cfg s' cb = onTheWay cfg s cb + out.notified.toList.count cb)
  /-- A step of an operation that has its status. -/
  | conclude (p : Party)
      (others : ∀ q, q ≠ p → Keeps (s.peer q) (s'.peer q))
      (before : ¬ (s.peer p).phase.Awaits ∧ ∀ ec, (s.peer p).phase ≠ .woken ec)
      (channel : s'.channel = s.channel)
      (statuses : (s'.peer p).statuses = (s.peer p).statuses)
      (ended : ¬ (s'.peer p).phase.Awaits ∧ ∀ ec, (s'.peer p).phase ≠ .woken ec)
      (same : ∀ cb, onTheWay cfg s' cb = onTheWay cfg s cb)
  /-- The wait of a blocked operation starts. -/
  | wait (p : Party)
      (others : ∀ q, q ≠ p → Keeps (s.peer q) (s'.peer q))
      (before : (s.peer p).phase = .registered)
      (channel : s'.channel = s.channel)
      (op : (s'.peer p).op = (s.peer p).op)
      (kind : (s'.peer p).kind = (s.peer p).kind)
      (statuses : (s'.peer p).statuses = (s.peer p).statuses)
      (phase : (s'.peer p).phase = .waiting)
      (same : ∀ cb, onTheWay cfg s' cb = onTheWay cfg s cb)
  /-- A notification ends the wait of `p`; it is used up. -/
  | wake (p : Party) (spent : Callback → Nat)
      (others : ∀ q, q ≠ p → Keeps (s.peer q) (s'.peer q))
      (before : (s.peer p).phase = .waiting)
      (channel : s'.channel = s.channel)
      (op : (s'.peer p).op = (s.peer p).op)
      (kind : (s'.peer p).kind = (s.peer p).kind)
      (statuses : (s'.peer p).statuses = (s.peer p).statuses)
      (phase : (s'.peer p).phase = .woken true)
      (less : ∀ cb, onTheWay cfg s' cb + spent cb = onTheWay cfg s cb)
      (own : ∀ cb, cb.party ≠ p → spent cb = 0)
      (used : ∃ cb, cb.party = p ∧ 0 < spent cb)
  /-- The time given to the wait is over. -/
  | expire (p : Party)
      (others : ∀ q, q ≠ p → Keeps (s.peer q) (s'.peer q))
      (before : (s.peer p).phase = .waiting)
      (timed : (s.peer p).kind = .async .after)
      (channel : s'.channel = s.channel)
      (op : (s'.peer p).op = (s.peer p).op)
      (kind : (s'.peer p).kind = (s.peer p).kind)
      (statuses : (s'.peer p).statuses = (s.peer p).statuses)
      (phase : (s'.peer p).phase = .woken false)
      (same : ∀ cb, onTheWay cfg s' cb = onTheWay cfg s cb)
  /-- A posted notification finds no wait to end. -/
  | drop (spent : Callback)
      (peers : s'.peer = s.peer)
      (channel : s'.channel = s.channel)
      (late : ¬ (s.peer spent.party).phase.Awaits)
      (less : ∀ cb, onTheWay cfg s' cb + (if cb = spent then 1 else 0) = onTheWay cfg s cb)
  /-- The channel is closed; the callback taken out is on its way. -/
  | close
      (peers : s'.peer = s.peer)
      (channel : s'.channel = { s.channel with closed := true, notify := none })
      (taken : ∀ cb, onTheWay cfg s' cb = onTheWay cfg s cb + s.channel.notify.toList.count cb)
  /-- A callback taken out by a `close` is called. -/
  | deliver
      (peers : ∀ q, Keeps (s.peer q) (s'.peer q))
      (channel : s'.channel = s.channel)
      (same : ∀ cb, onTheWay cfg s' cb = onTheWay cfg s cb)

/-! ### The parts of a step -/

/-- A party without a status records one: what an operation's last call leaves,
seen from before the call. -/
theorem settle_after (s : Net T) (p : Party) (peer : Peer T) (channel : BufferedChannel T Callback)
    (flag : peer.flag = (s.peer p).flag) (results : peer.results = (s.peer p).results)
    (silent : (s.peer p).phase.callee = []) (unknown : (s.peer p).phase.status = [])
    (next : Next) (status : Status) (notified : Option Callback) :
    let s' := { s.setPeer p peer with channel := channel }.settle p next status notified
    (∀ q, q ≠ p → Keeps (s.peer q) (s'.peer q)) ∧ s'.channel = channel ∧
      (s'.peer p).op = peer.op ∧ (s'.peer p).kind = peer.kind ∧
      (s'.peer p).statuses = (s.peer p).statuses ++ [((s'.peer p).kind, status)] ∧
      (¬ (s'.peer p).phase.Awaits ∧ ∀ ec, (s'.peer p).phase ≠ .woken ec) ∧
      ∀ cfg cb, onTheWay cfg s' cb = onTheWay cfg s cb + notified.toList.count cb := by
  intro s'
  have settles : Settles p next status notified { s.setPeer p peer with channel := channel } s' :=
    settle_settles _ p next status notified
  have others : ∀ q, q ≠ p → s'.peer q = s.peer q := fun q other => by
    rw [settles.others q other]
    exact setPeer_other s peer other
  have here : ({ s.setPeer p peer with channel := channel } : Net T).peer p = peer :=
    setPeer_self s p peer
  refine ⟨fun q other => others q other ▸ .refl _, settles.channel, ?_, ?_, ?_, settles.ended, ?_⟩
  · rw [settles.op, here]
  · rw [settles.kind, here]
  · rw [settles.statuses, settles.kind, here, results, Peer.statuses, unknown]
    simp
  · intro cfg cb
    have counted := onTheWay_of_phase cfg s s' p settles.tasks
      settles.closing others (by rw [settles.flag, here, flag]) cb
    rw [settles.callee, silent] at counted
    simpa using counted

/-- Taking the handler at the head off the queue of a strand. -/
theorem onTheWay_pop (cfg : Config) {s : Net T} {strand : Nat} {task : Task} {tasks : List Task}
    (queued : s.tasks strand = task :: tasks) (cb : Callback) :
    onTheWay cfg { s with tasks := Function.update s.tasks strand tasks } cb +
        (if cfg.strand cb.party = strand ∧ task = .notify cb then 1 else 0) =
      onTheWay cfg s cb := by
  unfold onTheWay taken
  by_cases here : cfg.strand cb.party = strand
  · simp only [here, Function.update_self, true_and, queued, List.count_cons, beq_iff_eq]
    omega
  · simp [here]

/-! ### Every step is a change -/

/-- `settle` forgets the phase it finds. -/
theorem settle_forgets (s : Net T) (p : Party) (peer : Peer T) (phase : Phase)
    (channel : BufferedChannel T Callback) (next : Next) (status : Status)
    (notified : Option Callback) :
    { s.setPeer p { peer with phase := phase } with channel := channel }.settle p next status
        notified =
      { s.setPeer p peer with channel := channel }.settle p next status notified := by
  cases notified with
  | some cb => simp [settle, setPeer]
  | none => cases next <;> simp [settle, finish, setPeer]

/-- A change of the phase of `p` alone, from one without a callback to another. -/
theorem onTheWay_setPhase (cfg : Config) (s : Net T) (p : Party) (phase : Phase)
    (before : (s.peer p).phase.callee = []) (after : phase.callee = []) (cb : Callback) :
    onTheWay cfg (s.setPeer p { s.peer p with phase := phase }) cb = onTheWay cfg s cb := by
  have counted := onTheWay_of_phase cfg s (s.setPeer p { s.peer p with phase := phase }) p rfl rfl
    (fun q other => setPeer_other _ _ other) (by simp) cb
  simpa [before, after] using counted

theorem setPeer_keeps (s : Net T) {p q : Party} (peer : Peer T) (other : q ≠ p) :
    Keeps (s.peer q) ((s.setPeer p peer).peer q) := by
  rw [setPeer_other _ _ other]
  exact .refl _

theorem finish_onTheWay (cfg : Config) (s : Net T) (p : Party) (status : Status)
    (before : (s.peer p).phase.callee = []) (cb : Callback) :
    onTheWay cfg (s.finish p status) cb = onTheWay cfg s cb := by
  have counted := onTheWay_of_phase cfg s (s.finish p status) p rfl rfl
    (fun q other => setPeer_other _ _ other) (by simp [finish]) cb
  rw [before] at counted
  simpa [finish, Phase.callee] using counted

/-- A change of the phase from one without a status to another. -/
theorem statuses_setPhase (peer : Peer T) (phase : Phase) (before : peer.phase.status = [])
    (after : phase.status = []) : ({ peer with phase := phase } : Peer T).statuses = peer.statuses := by
  simp [Peer.statuses, before, after]

/-- The operation of `p` ends with the status it has, seen from a state that differs
only in what is queued. -/
theorem finish_change [Movable T] {cfg : Config} {s s₁ : Net T} {runs : Party → Prop} {p : Party}
    {status : Status} (peers : s₁.peer = s.peer) (channel : s₁.channel = s.channel)
    (same : ∀ cb, onTheWay cfg s₁ cb = onTheWay cfg s cb)
    (known : (s.peer p).phase = .initiated status ∨ (s.peer p).phase = .posted status) :
    Change cfg s runs (s₁.finish p status) := by
  have silent : (s.peer p).phase.callee = [] := by
    rcases known with known | known <;> simp [known, Phase.callee]
  refine .conclude p (fun q other => ?_) ?_ channel ?_ ?_ fun cb => ?_
  · rw [← peers]
    exact setPeer_keeps s₁ _ other
  · rcases known with known | known <;> simp [known, Phase.Awaits]
  · rcases known with known | known <;> simp [finish, Peer.statuses, Phase.status, peers, known]
  · simp [finish, Phase.Awaits]
  · rw [finish_onTheWay cfg s₁ p status (peers ▸ silent), same]

/-- Running the handler, seen from a state that differs only in what is queued. -/
theorem runHandler_change [Movable T] {cfg : Config} {s s₁ : Net T} {runs : Party → Prop}
    {p : Party} {ec : Bool} (peers : s₁.peer = s.peer) (channel : s₁.channel = s.channel)
    (same : ∀ cb, onTheWay cfg s₁ cb = onTheWay cfg s cb) (woken : (s.peer p).phase = .woken ec)
    (queued : ec = false → runs p) : Change cfg s runs (s₁.runHandler p ec) := by
  have here : (s₁.peer p).phase = .woken ec := by rw [peers, woken]
  obtain ⟨others, chan, -, kind, statuses, ended, taken⟩ := settle_after s₁ p { s₁.peer p with
      value := (streamOp p.dir s₁.channel (s₁.peer p).value none).value }
    (streamOp p.dir s₁.channel (s₁.peer p).value none).channel rfl rfl
    (by simp [here, Phase.callee]) (by simp [here, Phase.status]) .finish
    (Traffic.handlerStatus ((s₁.peer p).kind == .async .after) ec
      (streamOp p.dir s₁.channel (s₁.peer p).value none).result.status)
    (streamOp p.dir s₁.channel (s₁.peer p).value none).notified
  refine .complete p (s₁.peer p).value none (streamOp p.dir s₁.channel (s₁.peer p).value none)
    (Traffic.handlerStatus ((s₁.peer p).kind == .async .after) ec
      (streamOp p.dir s₁.channel (s₁.peer p).value none).result.status)
    ?_ ?_ (.inl rfl) ?_ chan ?_ ?_ ended ?_
  · rw [← peers]
    exact others
  · rw [← channel]
    exact streamOp_effect ..
  · exact .inr ⟨ec, woken, by rw [← peers]; exact kind, queued⟩
  · unfold Traffic.handlerStatus
    split <;> simp [Status.complete]
  · rw [← peers]
    exact statuses
  · intro cb
    rw [← same cb]
    exact taken cfg cb

/-- A posted notification ends the wait of its party and is used up. -/
theorem notify_change [Movable T] {cfg : Config} {s mid : Net T} {runs : Party → Prop}
    {cb : Callback} (waiting : (s.peer cb.party).phase = .waiting)
    (others : ∀ q, q ≠ cb.party → mid.peer q = s.peer q) (channel : mid.channel = s.channel)
    (woken : mid.peer cb.party = { s.peer cb.party with phase := .woken true })
    (spent : ∀ cb', onTheWay cfg mid cb' + (if cb' = cb then 1 else 0) = onTheWay cfg s cb') :
    Change cfg s runs mid := by
  refine .wake cb.party (fun cb' => if cb' = cb then 1 else 0)
    (fun q other => others q other ▸ .refl _) waiting channel (by rw [woken]) (by rw [woken])
    ?_ (by rw [woken]) spent ?_ ⟨cb, rfl, by simp⟩
  · rw [woken]
    exact statuses_setPhase _ _ (by simp [waiting, Phase.status]) rfl
  · intro cb' other
    have different : cb' ≠ cb := fun same => other (by rw [same])
    simp [different]

/-- The lambda that `strand_wobj` posted finds a handler: it is as if the wait ended
and the handler ran. -/
theorem runHandler_woken [Movable T] (s : Net T) (p : Party) :
    (s.setPeer p { s.peer p with phase := .woken true }).runHandler p true =
      s.runHandler p true := by
  unfold runHandler
  simp only [setPeer_self, setPeer_channel]
  rw [← settle_forgets s p _ (.woken true)]
  simp [setPeer]

theorem runTask_change [Movable T] {cfg : Config} {s s₁ s' : Net T} {strand : Nat} {task : Task}
    {tasks : List Task} (filed : Filed cfg s) (queued : s.tasks strand = task :: tasks)
    (free : StrandFree cfg s strand)
    (popped : s₁ = { s with tasks := Function.update s.tasks strand tasks })
    (ran : runTask cfg s₁ task = some s') :
    Change cfg s (RunsHandler s (.task strand)) s' ∨
      ∃ mid, Change cfg s (RunsHandler s (.task strand)) mid ∧
        Change cfg mid (fun _ => False) s' := by
  have peers : s₁.peer = s.peer := by rw [popped]
  have channel : s₁.channel = s.channel := by rw [popped]
  have home : cfg.strand task.party = strand := filed.strand strand task (by simp [queued])
  have posted : cfg.wobj task.party ≠ .cvar := filed.posted strand task (by simp [queued])
  have count : ∀ cb, onTheWay cfg s₁ cb + (if task = .notify cb then 1 else 0) =
      onTheWay cfg s cb := by
    intro cb
    have counted := onTheWay_pop cfg queued cb
    rw [popped]
    by_cases same : task = .notify cb
    · have there : cfg.strand cb.party = strand := by simpa [same, Task.party] using home
      simpa [same, there] using counted
    · simpa [same] using counted
  have idle : ¬ Running cfg s task.party := by
    cases party : task.party with
    | reader => exact free.1 (party ▸ home)
    | writer => exact free.2 (party ▸ home)
  cases task with
  | notify cb =>
      have spent : ∀ cb', onTheWay cfg s₁ cb' + (if cb' = cb then 1 else 0) = onTheWay cfg s cb' := by
        intro cb'
        simpa [eq_comm] using count cb'
      simp only [runTask] at ran
      split at ran
      · rename_i waiting
        have still := onTheWay_setPhase cfg s₁ cb.party (.woken true)
          (by simp [waiting, Phase.callee]) rfl
        rw [peers] at waiting
        have others : ∀ q, q ≠ cb.party → (s₁.setPeer cb.party
            { s₁.peer cb.party with phase := .woken true }).peer q = s.peer q := fun q other => by
          rw [setPeer_other _ _ other, peers]
        split at ran
        · cases ran
          left
          refine notify_change waiting others channel (by simp [peers]) fun cb' => ?_
          rw [onTheWay_pushTask, still, ← spent cb']
          simp
        · cases ran
          right
          refine ⟨s₁.setPeer cb.party { s₁.peer cb.party with phase := .woken true },
            notify_change waiting others channel (by simp [peers]) fun cb' => ?_, ?_⟩
          · rw [still, spent cb']
          · rw [← runHandler_woken]
            exact runHandler_change rfl rfl (fun _ => rfl) (by simp) (by simp)
        · cases ran
      · rename_i late
        cases ran
        left
        refine .drop cb peers channel ?_ spent
        rintro (registered | waiting)
        · exact idle ⟨posted, by simp only [Task.party, registered]⟩
        · exact late (by rw [peers, waiting])
  | handler p =>
      have same : ∀ cb, onTheWay cfg s₁ cb = onTheWay cfg s cb := by simpa using count
      simp only [runTask] at ran
      split at ran
      · rename_i ec woken
        cases ran
        exact .inl (runHandler_change peers channel same (peers ▸ woken) fun _ => by
          simp [RunsHandler, queued])
      · cases ran
  | complete p =>
      have same : ∀ cb, onTheWay cfg s₁ cb = onTheWay cfg s cb := by simpa using count
      simp only [runTask] at ran
      split at ran
      · rename_i status known
        cases ran
        exact .inl (finish_change peers channel same (.inr (peers ▸ known)))
      · cases ran

/-- The callback a party has taken out is called. -/
theorem call_change [Movable T] {cfg : Config} {s : Net T} {runs : Party → Prop} {p : Party}
    {next : Next} {status : Status} {cb : Callback}
    (calling : (s.peer p).phase = .calling next status cb) :
    Change cfg s runs ((notifyOne cfg s cb).settle p next status none) := by
  have kept := notifyOne_keeps cfg s cb
  have settles := settle_settles (notifyOne cfg s cb) p next status none
  have results : ((notifyOne cfg s cb).peer p).results = (s.peer p).results := by
    unfold notifyOne
    split
    · by_cases same : p = cb.party
      · subst same
        simp
      · rw [setPeer_other _ _ same]
    · rfl
    · rfl
  refine .conclude p (fun q other => ?_) ?_ ?_ ?_ settles.ended fun cb' => ?_
  · rw [settles.others q other]
    exact kept q
  · simp [calling, Phase.Awaits]
  · rw [settles.channel, notifyOne_channel]
  · rw [settles.statuses, (kept p).kind, results]
    simp [Peer.statuses, Phase.status, calling]
  · have counted := onTheWay_of_phase cfg _ _ p settles.tasks settles.closing settles.others
      settles.flag cb'
    rw [settles.callee, (kept p).phase, calling, onTheWay_notifyOne] at counted
    simp only [Phase.callee, List.count_singleton, beq_iff_eq, Option.toList_none,
      List.count_nil] at counted
    by_cases same : cb' = cb
    · simp only [same, if_true] at counted ⊢
      omega
    · simp only [same, Ne.symm same, if_false] at counted
      omega

/-- An operation is blocked: it is to wait, and its callback is stored. -/
theorem register_change [Movable T] {cfg : Config} {s : Net T} {runs : Party → Prop} {p : Party}
    {timeout : Timeout} {t : T} (idle : (s.peer p).phase = .idle)
    {out : Outcome T Callback}
    (effect : Effect p.dir s.channel t (some ⟨p, (s.peer p).op + 1⟩) out)
    (incomplete : ¬ out.result.status.complete = true) (notReady : ¬ s.channel.Ready p.dir) :
    Change cfg s runs { s.setPeer p { s.peer p with
      phase := .registered, op := (s.peer p).op + 1, kind := .async timeout, value := out.value } with
        channel := out.channel } := by
  have others : ∀ q, q ≠ p → ({ s.setPeer p { s.peer p with
      phase := .registered, op := (s.peer p).op + 1, kind := .async timeout, value := out.value } with
        channel := out.channel } : Net T).peer q = s.peer q := fun q other =>
    setPeer_other s _ other
  refine .register p timeout (fun q other => others q other ▸ .refl _) idle notReady ?_ ?_ ?_ ?_ ?_
    fun cb => ?_
  · cases effect with
    | wrote => simp [Status.complete] at incomplete
    | gave => simp [Status.complete] at incomplete
    | closed => simp [Status.complete] at incomplete
    | blocked => simp [setPeer]
  · simp [setPeer]
  · simp [setPeer]
  · simp [setPeer]
  · simp [setPeer, Peer.statuses, Phase.status, idle]
  · have counted := onTheWay_of_phase cfg s { s.setPeer p { s.peer p with
        phase := .registered, op := (s.peer p).op + 1, kind := .async timeout, value := out.value } with
          channel := out.channel } p rfl rfl others (by simp [setPeer]) cb
    simpa [Phase.callee, idle, setPeer] using counted

/-- `just_wait` of a `cvar_wobj` finds the flag set: all that set it is used up. -/
theorem wake_change [Movable T] {cfg : Config} {s : Net T} {runs : Party → Prop} {p : Party}
    (waiting : (s.peer p).phase = .waiting) (set : (s.peer p).flag ≠ []) :
    Change cfg s runs (s.setPeer p { s.peer p with phase := .woken true, flag := [] }) := by
  refine .wake p (fun cb => if cb.party = p then (s.peer p).flag.count cb.op else 0)
    (fun q other => setPeer_keeps s _ other) waiting rfl (by simp) (by simp) ?_ (by simp) ?_ ?_ ?_
  · simp [Peer.statuses, Phase.status, waiting]
  · intro cb
    have counted := onTheWay_setPhase cfg s p (.woken true) (by simp [waiting, Phase.callee]) rfl cb
    rw [← counted]
    by_cases here : cb.party = p
    · subst here
      cases party : cb.party <;> simp [onTheWay, taken, setPeer, party] <;> omega
    · cases p <;> simp [onTheWay, taken, setPeer, here]
  · intro cb other
    simp [other]
  · obtain ⟨op, rest, contents⟩ := List.exists_cons_of_ne_nil set
    exact ⟨⟨p, op⟩, rfl, by simp [contents]⟩

/-- A callback that a `close` took out is called. -/
theorem deliver_change [Movable T] {cfg : Config} {s : Net T} {runs : Party → Prop} {cb : Callback}
    (member : cb ∈ s.closing) :
    Change cfg s runs (notifyOne cfg { s with closing := s.closing.erase cb } cb) := by
  refine .deliver (notifyOne_keeps cfg { s with closing := s.closing.erase cb } cb)
    (notifyOne_channel ..) fun cb' => ?_
  have erased : (s.closing.erase cb).count cb' + (if cb' = cb then 1 else 0) =
      s.closing.count cb' := by
    by_cases same : cb' = cb
    · subst same
      have present := List.count_pos_iff.mpr member
      simp only [if_true, List.count_erase_self]
      omega
    · simp [List.count_erase_of_ne same, same]
  rw [onTheWay_notifyOne]
  simp only [onTheWay, taken, List.count_append]
  omega

/-- **The cases of `step`.** Running the lambda posted by `strand_wobj` is two
changes: the wait ends, and its handler runs. Everything else is one. -/
theorem step_change [Movable T] {cfg : Config} {s : Net T} {a : Action T} {s' : Net T}
    (filed : Filed cfg s) (stepped : step cfg s a = some s') :
    Change cfg s (RunsHandler s a) s' ∨
      ∃ mid, Change cfg s (RunsHandler s a) mid ∧ Change cfg mid (fun _ => False) s' := by
  cases a with
  | sync p t =>
      simp only [step] at stepped
      split at stepped
      · rename_i idle
        cases stepped
        obtain ⟨others, channel, op, kind, statuses, ended, taken⟩ := settle_after s p { s.peer p with
            op := (s.peer p).op + 1, kind := .sync, value := (streamOp p.dir s.channel t none).value }
          (streamOp p.dir s.channel t none).channel rfl rfl (by simp [idle, Phase.callee])
          (by simp [idle, Phase.status]) .finish (streamOp p.dir s.channel t none).result.status
          (streamOp p.dir s.channel t none).notified
        exact .inl (.complete p t none _ _ others (streamOp_effect ..) (.inl rfl)
          (.inl ⟨idle, fun timeout async => by rw [kind] at async; cases async⟩) channel rfl statuses
          ended (taken cfg))
      · cases stepped
  | async p timeout t =>
      simp only [step] at stepped
      split at stepped
      · rename_i enabled
        split at stepped
        · rename_i complete
          cases stepped
          obtain ⟨others, channel, -, -, statuses, ended, taken⟩ := settle_after s p { s.peer p with
              op := (s.peer p).op + 1, kind := .async timeout,
              value := (streamOp p.dir s.channel t (some ⟨p, (s.peer p).op + 1⟩)).value }
            (streamOp p.dir s.channel t (some ⟨p, (s.peer p).op + 1⟩)).channel rfl rfl
            (by simp [enabled.1, Phase.callee]) (by simp [enabled.1, Phase.status]) .post
            (streamOp p.dir s.channel t (some ⟨p, (s.peer p).op + 1⟩)).result.status
            (streamOp p.dir s.channel t (some ⟨p, (s.peer p).op + 1⟩)).notified
          exact .inl (.complete p t _ _ _ others (streamOp_effect ..) (.inr complete)
            (.inl ⟨enabled.1, fun _ _ => complete⟩) channel rfl statuses ended (taken cfg))
        · rename_i incomplete
          cases stepped
          have notReady : ¬ s.channel.Ready p.dir := fun ready =>
            incomplete ((streamOp_complete_iff ..).mpr ready)
          have effect := streamOp_effect p.dir s.channel t (some ⟨p, (s.peer p).op + 1⟩)
          simpa [setPeer] using Or.inl (register_change enabled.1 effect incomplete notReady)
      · cases stepped
  | call p =>
      simp only [step] at stepped
      split at stepped
      · rename_i calling
        cases stepped
        exact .inl (call_change calling)
      · cases stepped
  | post p =>
      simp only [step] at stepped
      split at stepped
      · rename_i status initiated
        -- with a strand, the completion is posted
        have posts : Change cfg s (RunsHandler s (.post p))
            ((s.setPeer p { s.peer p with phase := .posted status }).pushTask (cfg.strand p)
              (.complete p)) := by
          refine .conclude p (fun q other => setPeer_keeps s _ other) ?_ rfl ?_ ?_ fun cb => ?_
          · simp [initiated, Phase.Awaits]
          · simp [Peer.statuses, Phase.status, initiated]
          · simp [Phase.Awaits]
          · rw [onTheWay_pushTask, onTheWay_setPhase _ _ _ _ (by simp [initiated, Phase.callee]) rfl]
            simp
        split at stepped
        · cases stepped
          exact .inl (finish_change rfl rfl (fun _ => rfl) (.inl initiated))
        · cases stepped
          exact .inl posts
        · cases stepped
          exact .inl posts
      · cases stepped
  | wait p =>
      simp only [step] at stepped
      split at stepped
      · rename_i registered
        cases stepped
        refine .inl (.wait p (fun q other => setPeer_keeps s _ other) registered rfl (by simp)
          (by simp) ?_ (by simp)
          (onTheWay_setPhase _ _ _ _ (by simp [registered, Phase.callee]) rfl))
        simpa using statuses_setPhase _ _ (by simp [registered, Phase.status]) rfl
      · cases stepped
  | wake p =>
      simp only [step] at stepped
      split at stepped
      · rename_i enabled
        obtain ⟨-, waiting, set⟩ := enabled
        cases stepped
        exact .inl (wake_change waiting set)
      · cases stepped
  | expire p =>
      simp only [step] at stepped
      split at stepped
      · rename_i enabled
        obtain ⟨waiting, timed⟩ := enabled
        have statuses : ({ s.peer p with phase := .woken false } : Peer T).statuses =
            (s.peer p).statuses := statuses_setPhase _ _ (by simp [waiting, Phase.status]) rfl
        have count := onTheWay_setPhase cfg s p (.woken false) (by simp [waiting, Phase.callee]) rfl
        split at stepped
        · split at stepped
          · cases stepped
            exact .inl (.expire p (fun q other => setPeer_keeps s _ other) waiting timed rfl (by simp)
              (by simp) (by simpa using statuses) (by simp) count)
          · cases stepped
        · cases stepped
          refine .inl (.expire p (fun q other => setPeer_keeps s _ other) waiting timed rfl (by simp)
            (by simp) (by simpa using statuses) (by simp) fun cb => ?_)
          rw [onTheWay_pushTask, count]
          simp
        · cases stepped
      · cases stepped
  | retry p =>
      simp only [step] at stepped
      split at stepped
      · rename_i ec _ woken
        cases stepped
        exact .inl (runHandler_change rfl rfl (fun _ => rfl) woken fun _ => rfl)
      · cases stepped
  | task strand =>
      simp only [step] at stepped
      split at stepped
      · cases stepped
      · rename_i task tasks queued
        split at stepped
        · rename_i free
          exact runTask_change filed queued free rfl stepped
        · cases stepped
  | close =>
      cases stepped
      refine .inl (.close rfl rfl fun cb => ?_)
      simp [onTheWay, taken]
      omega
  | callClosing cb =>
      simp only [step] at stepped
      split at stepped
      · rename_i member
        cases stepped
        exact .inl (deliver_change member)
      · cases stepped

end Net

end AlpacaCore.Io
