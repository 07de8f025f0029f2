import AlpacaCore.Io.Waiting

/-!
What one step posts to the strands and latches in the flags. A handler is posted
to the strand of its party, so a notification is where its party looks for it, and
a wait that is over has its handler queued.
-/

namespace AlpacaCore.Io

namespace Net

variable {T : Type}

/-- The party is as it was, but for its value and its flag. -/
structure Keeps (before after : Peer T) : Prop where
  phase : after.phase = before.phase
  op : after.op = before.op
  kind : after.kind = before.kind
  statuses : after.statuses = before.statuses

theorem Keeps.refl (peer : Peer T) : Keeps peer peer := ⟨rfl, rfl, rfl, rfl⟩

/-! ### The parts of a step -/

theorem notifyOne_keeps (cfg : Config) (s : Net T) (cb : Callback) (q : Party) :
    Keeps (s.peer q) ((notifyOne cfg s cb).peer q) := by
  unfold notifyOne
  split
  · by_cases same : q = cb.party
    · subst same
      rw [setPeer_self]
      exact ⟨rfl, rfl, rfl, rfl⟩
    · rw [setPeer_other _ _ same]
      exact .refl _
  · exact .refl _
  · exact .refl _

theorem notifyOne_channel (cfg : Config) (s : Net T) (cb : Callback) :
    (notifyOne cfg s cb).channel = s.channel := by
  unfold notifyOne
  split <;> rfl

/-- What `settle` leaves of a party that has just been given a status. -/
structure Settles (p : Party) (next : Next) (status : Status) (notified : Option Callback)
    (s s' : Net T) : Prop where
  others : ∀ q, q ≠ p → s'.peer q = s.peer q
  channel : s'.channel = s.channel
  tasks : s'.tasks = s.tasks
  closing : s'.closing = s.closing
  op : (s'.peer p).op = (s.peer p).op
  kind : (s'.peer p).kind = (s.peer p).kind
  flag : (s'.peer p).flag = (s.peer p).flag
  statuses : (s'.peer p).statuses =
    (s.peer p).results.map (fun r => (r.kind, r.status)) ++ [((s.peer p).kind, status)]
  callee : (s'.peer p).phase.callee = notified.toList
  ended : ¬ (s'.peer p).phase.Awaits ∧ ∀ ec, (s'.peer p).phase ≠ .woken ec

theorem settle_settles (s : Net T) (p : Party) (next : Next) (status : Status)
    (notified : Option Callback) : Settles p next status notified s (s.settle p next status notified) := by
  unfold settle
  cases notified with
  | some cb =>
      refine ⟨fun q other => setPeer_other _ _ other, rfl, rfl, rfl, ?_, ?_, ?_, ?_, ?_, ?_⟩ <;>
        simp [Peer.statuses, Phase.status, Phase.callee, Phase.Awaits]
  | none =>
      cases next with
      | post =>
          refine ⟨fun q other => setPeer_other _ _ other, rfl, rfl, rfl, ?_, ?_, ?_, ?_, ?_, ?_⟩ <;>
            simp [Peer.statuses, Phase.status, Phase.callee, Phase.Awaits]
      | finish =>
          refine ⟨fun q other => setPeer_other _ _ other, rfl, rfl, rfl, ?_, ?_, ?_, ?_, ?_, ?_⟩ <;>
            simp [finish, Peer.statuses, Phase.status, Phase.callee, Phase.Awaits]

/-! ### Posting, flags and handlers -/

/-- What a step may post, which flags it may set, and that a wait that is over has
the handler it had or got it now. -/
structure Files (cfg : Config) (s s' : Net T) : Prop where
  posted : ∀ strand task, task ∈ s'.tasks strand → task ∈ s.tasks strand ∨
    cfg.strand task.party = strand ∧ cfg.wobj task.party ≠ .cvar
  flagged : ∀ p, (s'.peer p).flag ≠ [] → (s.peer p).flag ≠ [] ∨ cfg.wobj p = .cvar
  woken : ∀ p ec, (s'.peer p).phase = .woken ec →
    ((s.peer p).phase = .woken ec ∧
      (.handler p ∈ s.tasks (cfg.strand p) → .handler p ∈ s'.tasks (cfg.strand p))) ∨
    cfg.wobj p ≠ .strand ∧ (cfg.wobj p = .timer → .handler p ∈ s'.tasks (cfg.strand p))

theorem Files.trans {cfg : Config} {s mid s' : Net T} (first : Files cfg s mid)
    (second : Files cfg mid s') : Files cfg s s' := by
  refine ⟨?_, ?_, ?_⟩
  · intro strand task queued
    rcases second.posted strand task queued with before | new
    · exact first.posted strand task before
    · exact .inr new
  · intro p set
    rcases second.flagged p set with before | cvar
    · exact first.flagged p before
    · exact .inr cvar
  · intro p ec ended
    rcases second.woken p ec ended with ⟨before, kept⟩ | new
    · rcases first.woken p ec before with ⟨already, keeps⟩ | ⟨wobj, handler⟩
      · exact .inl ⟨already, kept ∘ keeps⟩
      · exact .inr ⟨wobj, kept ∘ handler⟩
    · exact .inr new

/-- The queues are as they were, and so is every party but for its value and flag. -/
theorem Files.of_keeps {cfg : Config} {s s' : Net T} (tasks : s'.tasks = s.tasks)
    (peers : ∀ p, Keeps (s.peer p) (s'.peer p))
    (flagged : ∀ p, (s'.peer p).flag ≠ [] → (s.peer p).flag ≠ [] ∨ cfg.wobj p = .cvar) :
    Files cfg s s' := by
  refine ⟨fun strand task queued => .inl (tasks ▸ queued), flagged, fun p ec ended => .inl ?_⟩
  rw [(peers p).phase] at ended
  exact ⟨ended, tasks ▸ id⟩

/-- Only `p` is concerned, and its handler is the only one that may be gone. -/
theorem Files.of_party {cfg : Config} {s s' : Net T} (p : Party)
    (others : ∀ q, q ≠ p → s'.peer q = s.peer q)
    (flag : (s'.peer p).flag ≠ [] → (s.peer p).flag ≠ [])
    (posted : ∀ strand task, task ∈ s'.tasks strand → task ∈ s.tasks strand ∨
      cfg.strand task.party = strand ∧ cfg.wobj task.party ≠ .cvar)
    (kept : ∀ q, q ≠ p → .handler q ∈ s.tasks (cfg.strand q) → .handler q ∈ s'.tasks (cfg.strand q))
    (woken : ∀ ec, (s'.peer p).phase = .woken ec →
      cfg.wobj p ≠ .strand ∧ (cfg.wobj p = .timer → .handler p ∈ s'.tasks (cfg.strand p))) :
    Files cfg s s' := by
  refine ⟨posted, ?_, ?_⟩
  · intro q set
    by_cases here : q = p
    · subst here
      exact .inl (flag set)
    · exact .inl (others q here ▸ set)
  · intro q ec ended
    by_cases here : q = p
    · subst here
      exact .inr (woken ec ended)
    · rw [others q here] at ended
      exact .inl ⟨ended, kept q here⟩

theorem mem_pushTask {s : Net T} {strand k : Nat} {task posted : Task} (queued : task ∈ s.tasks k) :
    task ∈ (s.pushTask strand posted).tasks k := by
  by_cases here : k = strand
  · subst here
    simp [pushTask, queued]
  · simpa [pushTask, Function.update_of_ne here] using queued

/-- A handler is posted to the strand of its party. -/
theorem Files.pushTask {cfg : Config} (s : Net T) (task : Task) (wobj : cfg.wobj task.party ≠ .cvar) :
    Files cfg s (s.pushTask (cfg.strand task.party) task) := by
  refine ⟨?_, fun _ set => .inl set, fun _ _ ended => .inl ⟨ended, mem_pushTask⟩⟩
  intro strand other queued
  by_cases here : strand = cfg.strand task.party
  · subst here
    have either : other ∈ s.tasks (cfg.strand task.party) ∨ other = task := by
      simpa [Net.pushTask] using queued
    rcases either with old | rfl
    · exact .inl old
    · exact .inr ⟨rfl, wobj⟩
  · exact .inl (by simpa [Net.pushTask, Function.update_of_ne here] using queued)

/-- A change of `p` alone after which no wait of it is over. -/
theorem Files.setPeer {cfg : Config} (s : Net T) (p : Party) (peer : Peer T)
    (flag : peer.flag = (s.peer p).flag) (ended : ∀ ec, peer.phase ≠ .woken ec) :
    Files cfg s (s.setPeer p peer) := by
  refine .of_party p (fun _ other => setPeer_other s peer other) (fun set => ?_)
    (fun _ _ queued => .inl queued) (fun _ _ queued => queued) fun ec woken => ?_
  · simpa [flag] using set
  · exact absurd (by simpa using woken) (ended ec)

theorem Files.notifyOne {cfg : Config} (s : Net T) (cb : Callback) :
    Files cfg s (notifyOne cfg s cb) := by
  have keeps := notifyOne_keeps cfg s cb
  unfold Net.notifyOne at keeps ⊢
  split
  · rename_i cvar
    rw [cvar] at keeps
    refine .of_keeps rfl keeps fun p set => ?_
    by_cases same : p = cb.party
    · exact .inr (same ▸ cvar)
    · exact .inl (by rwa [setPeer_other _ _ same] at set)
  · rename_i timer
    exact .pushTask s (.notify cb) (by simp [Task.party, timer])
  · rename_i strand
    exact .pushTask s (.notify cb) (by simp [Task.party, strand])

/-- A party is settled, from a state in which at most its handler has been taken off
the queue. -/
theorem Files.settle {cfg : Config} {s s₁ : Net T} {p : Party} {peer : Peer T}
    {channel : BufferedChannel T Callback} {next : Next} {status : Status}
    {notified : Option Callback} (peers : s₁.peer = s.peer) (flag : peer.flag = (s.peer p).flag)
    (posted : ∀ strand task, task ∈ s₁.tasks strand → task ∈ s.tasks strand)
    (kept : ∀ q, q ≠ p → .handler q ∈ s.tasks (cfg.strand q) →
      .handler q ∈ s₁.tasks (cfg.strand q)) :
    Files cfg s ({ s₁.setPeer p peer with channel := channel }.settle p next status notified) := by
  have settles := settle_settles { s₁.setPeer p peer with channel := channel } p next status notified
  refine .of_party p (fun q other => ?_) (fun set => ?_) (fun strand task queued => .inl ?_)
    (fun q other queued => ?_) fun ec woken => absurd woken (settles.ended.2 ec)
  · rw [settles.others q other, ← peers]
    exact setPeer_other s₁ peer other
  · rw [settles.flag] at set
    rw [← flag]
    simpa [Net.setPeer] using set
  · rw [settles.tasks] at queued
    exact posted strand task queued
  · rw [settles.tasks]
    exact kept q other queued

theorem Files.runHandler [Movable T] {cfg : Config} (s s₁ : Net T) {p : Party}
    (peers : s₁.peer = s.peer)
    (posted : ∀ strand task, task ∈ s₁.tasks strand → task ∈ s.tasks strand)
    (kept : ∀ q, q ≠ p → .handler q ∈ s.tasks (cfg.strand q) →
      .handler q ∈ s₁.tasks (cfg.strand q)) (ec : Bool) : Files cfg s (s₁.runHandler p ec) :=
  .settle peers (by rw [← peers]) posted kept

theorem runTask_files [Movable T] {cfg : Config} {s s' : Net T} {strand : Nat} {task : Task}
    {tasks : List Task} (contents : s.tasks strand = task :: tasks)
    (ran : runTask cfg { s with tasks := Function.update s.tasks strand tasks } task = some s') :
    Files cfg s s' := by
  have posted : ∀ k other, other ∈ Function.update s.tasks strand tasks k → other ∈ s.tasks k := by
    intro k other queued
    by_cases here : k = strand
    · subst here
      rw [Function.update_self] at queued
      exact contents ▸ List.mem_cons_of_mem _ queued
    · rwa [Function.update_of_ne here] at queued
  -- what is not at the head stays
  have kept : ∀ k other, other ∈ s.tasks k → other ≠ task →
      other ∈ Function.update s.tasks strand tasks k := by
    intro k other queued different
    by_cases here : k = strand
    · subst here
      rw [contents] at queued
      simpa [different] using queued
    · rwa [Function.update_of_ne here]
  cases task with
  | notify cb =>
      have popped : Files cfg s { s with tasks := Function.update s.tasks strand tasks } :=
        ⟨fun k other queued => .inl (posted k other queued), fun _ set => .inl set,
          fun p _ ended => .inl ⟨ended, fun queued => kept _ _ queued (by simp)⟩⟩
      simp only [runTask] at ran
      split at ran
      · split at ran
        · rename_i timer
          cases ran
          refine popped.trans (.of_party cb.party (fun q other => setPeer_other _ _ other) ?_ ?_ ?_ ?_)
          · simp
          · exact (Files.pushTask _ (.handler cb.party) (by simp [Task.party, timer])).posted
          · exact fun q _ queued => mem_pushTask queued
          · exact fun ec _ => ⟨by simp [timer], fun _ => by simp [Net.pushTask]⟩
        · cases ran
          exact .runHandler s { s with tasks := Function.update s.tasks strand tasks } rfl posted
            (fun _ _ queued => kept _ _ queued (by simp)) true
        · cases ran
      · cases ran
        exact popped
  | handler p =>
      simp only [runTask] at ran
      split at ran
      · rename_i ec _
        cases ran
        exact .runHandler s { s with tasks := Function.update s.tasks strand tasks } rfl posted
          (fun q other queued => kept _ _ queued (by simpa using other)) ec
      · cases ran
  | complete p =>
      simp only [runTask] at ran
      split at ran
      · cases ran
        refine Files.trans ?_ (.setPeer _ _ _ rfl (by simp))
        exact ⟨fun k other queued => .inl (posted k other queued), fun _ set => .inl set,
          fun p _ ended => .inl ⟨ended, fun queued => kept _ _ queued (by simp)⟩⟩
      · cases ran

theorem step_files [Movable T] {cfg : Config} {s s' : Net T} {a : Action T}
    (stepped : step cfg s a = some s') : Files cfg s s' := by
  cases a with
  | sync p t =>
      simp only [step] at stepped
      split at stepped
      · cases stepped
        exact .settle rfl rfl (fun _ _ queued => queued) fun _ _ queued => queued
      · cases stepped
  | async p timeout t =>
      simp only [step] at stepped
      split at stepped
      · rename_i enabled
        split at stepped
        · cases stepped
          exact .settle rfl rfl (fun _ _ queued => queued) fun _ _ queued => queued
        · cases stepped
          refine .of_party p (fun q other => ?_) (by simp [Net.setPeer]) (fun _ _ queued => .inl queued)
            (fun _ _ queued => queued) (by simp)
          rw [setPeer_other _ _ other]
          exact setPeer_other s _ other
      · cases stepped
  | call p =>
      simp only [step] at stepped
      split at stepped
      · rename_i next status cb _
        cases stepped
        have settles := settle_settles (Net.notifyOne cfg s cb) p next status none
        refine (Files.notifyOne s cb).trans (.of_party p settles.others (settles.flag ▸ id)
          (fun _ _ queued => .inl (settles.tasks ▸ queued)) (fun _ _ queued => settles.tasks ▸ queued)
          fun ec woken => absurd woken (settles.ended.2 ec))
      · cases stepped
  | post p =>
      simp only [step] at stepped
      split at stepped
      · rename_i status _
        have posted : Files cfg s (s.setPeer p { s.peer p with phase := .posted status }) :=
          .setPeer s p _ rfl (by simp)
        split at stepped
        · cases stepped
          exact .setPeer _ _ _ rfl (by simp)
        · rename_i timer
          cases stepped
          exact posted.trans (.pushTask _ (.complete p) (by simp [Task.party, timer]))
        · rename_i strand
          cases stepped
          exact posted.trans (.pushTask _ (.complete p) (by simp [Task.party, strand]))
      · cases stepped
  | wait p =>
      simp only [step] at stepped
      split at stepped
      · cases stepped
        exact .setPeer _ _ _ rfl (by simp)
      · cases stepped
  | wake p =>
      simp only [step] at stepped
      split at stepped
      · rename_i enabled
        cases stepped
        exact .of_party p (fun _ other => setPeer_other _ _ other) (by simp)
          (fun _ _ queued => .inl queued) (fun _ _ queued => queued) (by simp [enabled.1])
      · cases stepped
  | expire p =>
      simp only [step] at stepped
      split at stepped
      · split at stepped
        · rename_i cvar
          split at stepped
          · cases stepped
            exact .of_party p (fun _ other => setPeer_other _ _ other) (by simp)
              (fun _ _ queued => .inl queued) (fun _ _ queued => queued) (by simp [cvar])
          · cases stepped
        · rename_i timer
          cases stepped
          refine .of_party p (fun q other => setPeer_other _ _ other) (by simp) ?_ ?_ ?_
          · exact (Files.pushTask _ (.handler p) (by simp [Task.party, timer])).posted
          · exact fun q _ queued => mem_pushTask queued
          · exact fun ec _ => ⟨by simp [timer], fun _ => by simp [Net.pushTask]⟩
        · cases stepped
      · cases stepped
  | retry p =>
      simp only [step] at stepped
      split at stepped
      · cases stepped
        exact .runHandler s s rfl (fun _ _ queued => queued) (fun _ _ queued => queued) _
      · cases stepped
  | task strand =>
      simp only [step] at stepped
      split at stepped
      · cases stepped
      · rename_i contents
        split at stepped
        · exact runTask_files contents stepped
        · cases stepped
  | close =>
      cases stepped
      exact .of_keeps rfl (fun _ => .refl _) fun _ set => .inl set
  | callClosing cb =>
      simp only [step] at stepped
      split at stepped
      · cases stepped
        have files : Files cfg _ _ := .notifyOne { s with closing := s.closing.erase cb } cb
        exact ⟨files.posted, files.flagged, files.woken⟩
      · cases stepped

/-- Handlers are posted to the strand of their party, and flags are set on a
`cvar_wobj` only. -/
structure Filed (cfg : Config) (s : Net T) : Prop where
  strand : ∀ strand task, task ∈ s.tasks strand → cfg.strand task.party = strand
  posted : ∀ strand task, task ∈ s.tasks strand → cfg.wobj task.party ≠ .cvar
  flagged : ∀ p, (s.peer p).flag ≠ [] → cfg.wobj p = .cvar

theorem filed_start [Inhabited T] (cfg : Config) : Filed cfg (start cfg : Net T) :=
  ⟨by simp [start], by simp [start], by simp [start]⟩

theorem step_filed [Movable T] {cfg : Config} {s s' : Net T} {a : Action T} (held : Filed cfg s)
    (stepped : step cfg s a = some s') : Filed cfg s' := by
  have files := step_files stepped
  refine ⟨?_, ?_, ?_⟩
  · intro strand task queued
    rcases files.posted strand task queued with before | ⟨home, -⟩
    · exact held.strand strand task before
    · exact home
  · intro strand task queued
    rcases files.posted strand task queued with before | ⟨-, wobj⟩
    · exact held.posted strand task before
    · exact wobj
  · intro p set
    rcases files.flagged p set with before | cvar
    · exact held.flagged p before
    · exact cvar

end Net

end AlpacaCore.Io
