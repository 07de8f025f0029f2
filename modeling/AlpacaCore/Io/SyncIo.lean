import AlpacaCore.Io.Channel
import Mathlib.Data.List.Perm.Basic
import Mathlib.Logic.Function.Basic

/-!
`sync_io_ctx` and `sync_io`: one thread that runs the tasks of the other side itself, inside of
`run_tasks`.

What a task does is not fixed: in the midst of one, as between the calls of the main program,
anything may be posted, and any channel written, read or closed. The context picks the task that it
executes next, so that the order within a strand is one of the orders here. A task is known by its
number, in the order of posting, and a callback of a channel by how many tasks it posts when it is
invoked.

Of asio it is assumed that the context is stopped once a poll finds no outstanding work, which is
tasks that wait or are executed, waits for a timer and guards, and that a stopped context executes
nothing. Whether releasing the last guard outside of a poll stops the context too is left open. A
task that calls `run_tasks` itself is left out: it cannot be over when that call returns.
-/

namespace AlpacaCore.Io

open AlpacaCore.System (run Reachable Meets)

/-- What follows in the function that has called `run_tasks`. -/
inductive Then (T : Type) where
  | nothing
  /-- the read of `get` -/
  | read (io : Nat) (val : T)

inductive PollPhase (T : Type) where
  /-- The main program runs. -/
  | idle
  /-- `poll` is about to look for a task. -/
  | polling (next : Then T)
  | running (task : Nat) (next : Then T)
  /-- `run_tasks` has just returned. -/
  | returned (next : Then T)

namespace PollPhase

variable {T : Type}

/-- The task that is executed. -/
def task : PollPhase T → List Nat
  | .running task _ => [task]
  | _ => []

/-- Some code runs, of the main program or of a task. -/
def active : PollPhase T → Bool
  | .idle => true
  | .running _ _ => true
  | _ => false

end PollPhase

/-- `stream_endpoint`: the channels of its streams, where it has them. -/
structure Endpoint where
  readStream : Option Nat
  writeStream : Option Nat

/-- A context, with the channels and the `sync_io`s. -/
structure SyncIoCtx (T : Type) where
  channels : Nat → BufferedChannel T Nat
  /-- `m_ep` of each `sync_io` -/
  endpoints : Nat → Endpoint
  /-- how many tasks were posted so far -/
  posted : Nat
  queue : List Nat
  executed : List Nat
  /-- the waits that are not over -/
  waits : Nat
  guards : Nat
  stopped : Bool
  phase : PollPhase T

/-- How far a function comes without the context: it returns, or it calls `run_tasks`. -/
inductive Body (T : Type) where
  | returns (s : SyncIoCtx T)
  | calls (s : SyncIoCtx T) (next : Then T)

/-- The state that it comes to. -/
def Body.state {T : Type} : Body T → SyncIoCtx T
  | .returns s => s
  | .calls s _ => s

/-- The functions that run tasks; `throws` is the `E` of `put`. -/
inductive Member (T : Type) where
  | runTasks
  | get (io : Nat) (val : T)
  | put (throws : Bool) (io : Nat) (val : T)
  | close (io : Nat)

namespace SyncIoCtx

variable {T : Type}

section Functions

variable [Movable T]

def start (sizes : Nat → Nat) (endpoints : Nat → Endpoint) : SyncIoCtx T :=
  ⟨fun channel => .create (sizes channel), endpoints, 0, [], [], 0, 0, false, .idle⟩

/-- `post`, to the context or to a strand. -/
def post (s : SyncIoCtx T) : SyncIoCtx T :=
  { s with posted := s.posted + 1, queue := s.queue ++ [s.posted] }

def posts (s : SyncIoCtx T) : Nat → SyncIoCtx T
  | 0 => s
  | count + 1 => (s.posts count).post

/-- The callback that `unlock_notify` invokes. -/
def notify (s : SyncIoCtx T) (callback : Option Nat) : SyncIoCtx T := s.posts (callback.getD 0)

def streamOp (s : SyncIoCtx T) (dir : Dir) (channel : Nat) (t : T) (onBlocked : Option Nat) :
    SyncIoCtx T × Status :=
  let out := Io.streamOp dir (s.channels channel) t onBlocked
  ({ s with channels := Function.update s.channels channel out.channel }.notify out.notified,
    out.result.status)

def closeChannel (s : SyncIoCtx T) (channel : Nat) : SyncIoCtx T :=
  let (callback, ch) := (s.channels channel).close
  { s with channels := Function.update s.channels channel ch }.notify callback

def closeStream (s : SyncIoCtx T) : Option Nat → SyncIoCtx T
  | some channel => s.closeChannel channel
  | none => s

/-- The outstanding work. -/
def work (s : SyncIoCtx T) : Nat := s.queue.length + s.phase.task.length + s.waits + s.guards

/-- `run_tasks`, up to the loop of `poll`. -/
def runTasks (s : SyncIoCtx T) (next : Then T) : SyncIoCtx T :=
  if s.stopped then { s with phase := .returned next }
  else if s.work = 0 then { s with stopped := true, phase := .returned next }
  else { s with phase := .polling next }

/-- `run_tasks`, `get`, `put` and `close`, as far as the call of `run_tasks`. -/
def body (s : SyncIoCtx T) : Member T → Option (Body T)
  | .runTasks => some (.calls s .nothing)
  | .get io val => some (.calls s (.read io val))
  | .put throws io val =>
      match (s.endpoints io).writeStream with
      | some channel =>
          let (s', status) := s.streamOp .write channel val none
          -- `throw_if_closed`
          some (if throws && status.closed then .returns s' else .calls s' .nothing)
      | none => none
  | .close io =>
      let ep := s.endpoints io
      some (if ep.readStream.isSome || ep.writeStream.isSome then
        .calls ((s.closeStream ep.readStream).closeStream ep.writeStream) .nothing
      else .returns s)

def resume (s : SyncIoCtx T) : Then T → Option (SyncIoCtx T)
  | .nothing => some { s with phase := .idle }
  | .read io val =>
      match (s.endpoints io).readStream with
      | some channel => some ({ s with phase := .idle }.streamOp .read channel val none).1
      | none => none

inductive Action (T : Type) where
  | call (member : Member T)
  /-- what the main program and the tasks can do -/
  | post
  | streamOp (dir : Dir) (channel : Nat) (t : T) (onBlocked : Option Nat)
  | closeChannel (channel : Nat)
  | attach (io : Nat) (ep : Endpoint)
  | makeGuard
  | releaseGuard
  /-- A task begins to wait. -/
  | wait
  /-- A wait is over, by a notification or by time: what was waiting is posted. -/
  | wake
  /-- `poll` takes the task out of the queue. -/
  | take (index : Nat)
  /-- The task returns. -/
  | done
  /-- `poll` finds nothing to execute. -/
  | leave
  /-- What follows the call of `run_tasks`. -/
  | resume

/-- One step; `eager` tells whether the context stops when the last guard is released. -/
def step (eager : Bool) (s : SyncIoCtx T) : Action T → Option (SyncIoCtx T)
  | .call member =>
      match s.phase with
      | .idle =>
          match s.body member with
          | some (.returns s') => some s'
          | some (.calls s' next) => some (s'.runTasks next)
          | none => none
      | _ => none
  | .post => if s.phase.active then some s.post else none
  | .streamOp dir channel t onBlocked =>
      if s.phase.active then some (s.streamOp dir channel t onBlocked).1 else none
  | .closeChannel channel => if s.phase.active then some (s.closeChannel channel) else none
  | .attach io ep =>
      if s.phase.active then some { s with endpoints := Function.update s.endpoints io ep } else none
  | .makeGuard => if s.phase.active then some { s with guards := s.guards + 1 } else none
  | .releaseGuard =>
      if s.phase.active && s.guards != 0 then
        let s' := { s with guards := s.guards - 1 }
        some { s' with stopped := s'.stopped || eager && s'.work == 0 }
      else none
  | .wait =>
      match s.phase with
      | .running _ _ => some { s with waits := s.waits + 1 }
      | _ => none
  | .wake =>
      match s.phase with
      | .returned _ => none
      | _ => if s.waits = 0 then none else some { s with waits := s.waits - 1 }.post
  | .take index =>
      match s.phase with
      | .polling next =>
          if s.stopped then none
          else match s.queue[index]? with
            | some task => some { s with queue := s.queue.eraseIdx index, phase := .running task next }
            | none => none
      | _ => none
  | .done =>
      match s.phase with
      | .running task next =>
          let s' := { s with executed := s.executed ++ [task], phase := .polling next }
          some { s' with stopped := s'.stopped || s'.work == 0 }
      | _ => none
  | .leave =>
      match s.phase with
      | .polling next =>
          if s.stopped || s.queue.isEmpty then some { s with phase := .returned next } else none
      | _ => none
  | .resume =>
      match s.phase with
      | .returned next => s.resume next
      | _ => none

end Functions

/-! ### What the code that runs does to the context -/

/-- Each task that was posted is in one place. -/
def Placed (s : SyncIoCtx T) : Prop :=
  ∀ task, (s.queue ++ s.phase.task ++ s.executed).count task = if task < s.posted then 1 else 0

/-- When `run_tasks` returns, every task that was posted before has been executed. -/
def Executed (s : SyncIoCtx T) : Prop :=
  ∀ next, s.phase = .returned next → ∀ task < s.posted, task ∈ s.executed

structure Inv (s : SyncIoCtx T) : Prop where
  placed : s.Placed
  /-- A context stops where no task can begin a wait again. -/
  resting : s.stopped = true → s.waits = 0 ∧ s.phase.task = []
  drained : s.stopped = true → ∀ next, s.phase = .polling next → s.queue = []

/-- Tasks were posted; none has begun or ended, and no guard was released. -/
structure Posts (s s' : SyncIoCtx T) : Prop where
  phase : s'.phase = s.phase
  waits : s'.waits = s.waits
  guards : s.guards ≤ s'.guards
  stopped : s'.stopped = s.stopped
  placed : s.Placed → s'.Placed

theorem Posts.refl (s : SyncIoCtx T) : Posts s s :=
  ⟨rfl, rfl, Nat.le_refl _, rfl, id⟩

theorem Posts.trans {s mid s' : SyncIoCtx T} (first : Posts s mid) (second : Posts mid s') : Posts s s' :=
  ⟨second.phase.trans first.phase, second.waits.trans first.waits,
    Nat.le_trans first.guards second.guards, second.stopped.trans first.stopped, second.placed ∘ first.placed⟩

theorem posts_channels (s : SyncIoCtx T) (channels : Nat → BufferedChannel T Nat) :
    Posts s { s with channels } :=
  ⟨rfl, rfl, Nat.le_refl _, rfl, id⟩

theorem posts_post (s : SyncIoCtx T) : Posts s s.post := by
  refine ⟨rfl, rfl, Nat.le_refl _, rfl, fun placed task => ?_⟩
  have before := placed task
  simp only [post, List.count_append, List.count_singleton, beq_iff_eq] at before ⊢
  by_cases same : s.posted = task
  · subst same
    simp only [Nat.lt_irrefl, if_false] at before
    simp only [if_true, Nat.lt_succ_self]
    omega
  · have older : task < s.posted + 1 ↔ task < s.posted := by omega
    simpa only [if_neg same, Nat.add_zero, older] using before

theorem posts_posts (s : SyncIoCtx T) (count : Nat) : Posts s (s.posts count) := by
  induction count with
  | zero => exact .refl s
  | succ count ih => exact ih.trans (posts_post _)

theorem posts_closeChannel (s : SyncIoCtx T) (channel : Nat) : Posts s (s.closeChannel channel) :=
  (posts_channels s _).trans (posts_posts _ _)

theorem posts_closeStream (s : SyncIoCtx T) (stream : Option Nat) : Posts s (s.closeStream stream) := by
  cases stream with
  | none => exact .refl s
  | some channel => exact posts_closeChannel s channel

theorem inv_start (sizes : Nat → Nat) (endpoints : Nat → Endpoint) :
    (start sizes endpoints : SyncIoCtx T).Inv :=
  ⟨fun task => by simp [start, PollPhase.task], by simp [start], by simp [start]⟩

theorem Inv.posts {s s' : SyncIoCtx T} (inv : s.Inv) (posts : Posts s s')
    (busy : ∀ next, s.phase ≠ .polling next) : s'.Inv := by
  refine ⟨posts.placed inv.placed, ?_, ?_⟩
  · rw [posts.stopped, posts.waits, posts.phase]
    exact inv.resting
  · intro _ next polls
    rw [posts.phase] at polls
    exact absurd polls (busy next)

theorem ne_of_active {s : SyncIoCtx T} (active : s.phase.active = true) (next : Then T) :
    s.phase ≠ .polling next ∧ s.phase ≠ .returned next := by
  constructor
  all_goals
    intro same
    rw [same] at active
    cases active

theorem executed_of_phase {s s' : SyncIoCtx T} (phase : s'.phase = s.phase)
    (busy : ∀ next, s.phase ≠ .returned next) : s'.Executed :=
  fun next same => absurd (phase.symm.trans same) (busy next)

theorem Placed.phase {s : SyncIoCtx T} {phase : PollPhase T} (placed : s.Placed)
    (same : phase.task = s.phase.task) : { s with phase }.Placed := by
  unfold Placed
  rw [same]
  exact placed

/-- Where nothing waits and nothing is executed, all was. -/
theorem Placed.executed_iff {s : SyncIoCtx T} (placed : s.Placed) (rests : s.phase.task = []) :
    (∀ task < s.posted, task ∈ s.executed) ↔ s.queue = [] := by
  constructor
  · intro all
    rcases List.eq_nil_or_concat s.queue with empty | ⟨rest, task, contents⟩
    · exact empty
    · exfalso
      have queued : 0 < s.queue.count task := List.count_pos_iff.mpr (by simp [contents])
      have place := placed task
      rw [List.count_append, List.count_append] at place
      by_cases old : task < s.posted
      · have executed := List.count_pos_iff.mpr (all task old)
        rw [if_pos old] at place
        omega
      · rw [if_neg old] at place
        omega
  · intro empty task old
    have place := placed task
    rw [if_pos old, rests, empty, List.nil_append, List.nil_append] at place
    exact List.count_pos_iff.mp (by omega)

theorem Placed.returned_iff {s : SyncIoCtx T} {next : Then T} (placed : s.Placed)
    (returned : s.phase = .returned next) : s.Executed ↔ s.queue = [] := by
  rw [← placed.executed_iff (by rw [returned]; rfl)]
  constructor
  · exact fun holds => holds next returned
  · exact fun all _ _ => all

theorem Inv.runTasks {s : SyncIoCtx T} (inv : s.Inv) (idle : s.phase = .idle) (next : Then T) :
    (s.runTasks next).Inv ∧ ((s.runTasks next).Executed ↔ (s.stopped = true → s.queue = [])) := by
  have placed (phase) (rests : phase.task = []) : { s with phase }.Placed :=
    inv.placed.phase (by rw [rests, idle]; rfl)
  unfold SyncIoCtx.runTasks
  split
  · rename_i stopped
    have placed := placed (.returned next) rfl
    constructor
    · exact ⟨placed, fun _ => ⟨(inv.resting stopped).1, rfl⟩, fun _ _ same => by cases same⟩
    · rw [placed.returned_iff rfl]
      simp [stopped]
  · rename_i running
    split
    · rename_i none
      simp only [work, Nat.add_eq_zero_iff, List.length_eq_zero_iff] at none
      have placed : { s with stopped := true, phase := .returned next }.Placed := placed _ rfl
      constructor
      · exact ⟨placed, fun _ => ⟨none.1.2, rfl⟩, fun _ _ same => by cases same⟩
      · rw [placed.returned_iff rfl]
        simp [none.1.1.1]
    · constructor
      · exact ⟨placed _ rfl, fun stopped => absurd stopped running, fun stopped => absurd stopped running⟩
      · exact iff_of_true (fun _ same => by cases same) fun stopped => absurd stopped running

theorem Inv.releaseGuard {s : SyncIoCtx T} (inv : s.Inv) (active : s.phase.active = true) (eager : Bool) :
    let s' := { s with guards := s.guards - 1 }
    { s' with stopped := s'.stopped || eager && s'.work == 0 }.Inv := by
  refine ⟨inv.placed, fun stopped => ?_, fun _ next same => absurd same (ne_of_active active next).1⟩
  simp only [Bool.or_eq_true, Bool.and_eq_true, beq_iff_eq, work, Nat.add_eq_zero_iff,
    List.length_eq_zero_iff] at stopped
  rcases stopped with before | ⟨-, none⟩
  · exact inv.resting before
  · exact ⟨none.1.2, none.1.1.2⟩

theorem Inv.take {s : SyncIoCtx T} (inv : s.Inv) {next : Then T} (polls : s.phase = .polling next)
    (running : ¬ s.stopped = true) {index task : Nat} (chosen : s.queue[index]? = some task) :
    { s with queue := s.queue.eraseIdx index, phase := .running task next }.Inv := by
  refine ⟨fun other => ?_, fun stopped => absurd stopped running, fun stopped => absurd stopped running⟩
  obtain ⟨inside, same⟩ := List.getElem?_eq_some_iff.mp chosen
  have moved := (List.getElem_cons_eraseIdx_perm inside).count_eq other
  have before := inv.placed other
  rw [same, List.count_cons] at moved
  simp only [polls, PollPhase.task, List.append_nil, List.count_append, List.count_singleton] at before ⊢
  omega

theorem Inv.done {s : SyncIoCtx T} (inv : s.Inv) {task : Nat} {next : Then T}
    (runs : s.phase = .running task next) :
    let s' := { s with executed := s.executed ++ [task], phase := .polling next }
    { s' with stopped := s'.stopped || s'.work == 0 }.Inv := by
  have running : s.stopped = false := by
    cases stopped : s.stopped with
    | false => rfl
    | true =>
        have rests := (inv.resting stopped).2
        rw [runs] at rests
        cases rests
  refine ⟨fun other => ?_, fun stopped => ?_, fun stopped _ _ => ?_⟩
  · have before := inv.placed other
    simp only [runs, PollPhase.task, List.append_nil, List.count_append] at before ⊢
    omega
  all_goals
    simp only [running, Bool.false_or, beq_iff_eq, work, Nat.add_eq_zero_iff,
      List.length_eq_zero_iff] at stopped
  · exact ⟨stopped.1.2, rfl⟩
  · exact stopped.1.1.1

/-! ### Steps -/

section Steps

variable [Movable T]

/-- The action does not call `run_tasks` where tasks wait in a context that is stopped. -/
def Alive (s : SyncIoCtx T) : Action T → Prop
  | .call member =>
      s.phase = .idle → ∀ s' next, s.body member = some (.calls s' next) →
        s'.stopped = true → s'.queue = []
  | _ => True

theorem posts_streamOp (s : SyncIoCtx T) (dir : Dir) (channel : Nat) (t : T) (onBlocked : Option Nat) :
    Posts s (s.streamOp dir channel t onBlocked).1 := (posts_channels s _).trans (posts_posts _ _)

theorem posts_body {s : SyncIoCtx T} {member : Member T} {body : Body T}
    (same : s.body member = some body) : Posts s body.state := by
  cases member with
  | runTasks =>
      cases same
      exact .refl s
  | get io val =>
      cases same
      exact .refl s
  | put throws io val =>
      simp only [SyncIoCtx.body] at same
      split at same
      · rename_i channel _
        have posts := posts_streamOp s .write channel val none
        cases same
        split
        · exact posts
        · exact posts
      · cases same
  | close io =>
      cases same
      split
      · exact (posts_closeStream s _).trans (posts_closeStream _ _)
      · exact .refl s

/-- What a step can do. -/
inductive Stepped (eager : Bool) (s : SyncIoCtx T) : Action T → SyncIoCtx T → Prop
  /-- `run_tasks` is called. -/
  | calls {member mid next} (idle : s.phase = .idle) (same : s.body member = some (.calls mid next)) :
      Stepped eager s (.call member) (mid.runTasks next)
  /-- The code that runs does not call `run_tasks`. -/
  | acts {action s'} (active : s.phase.active = true) (posts : Posts s s') (alive : s.Alive action) :
      Stepped eager s action s'
  | releaseGuard (active : s.phase.active = true) :
      Stepped eager s .releaseGuard
        (let s' := { s with guards := s.guards - 1 }
        { s' with stopped := s'.stopped || eager && s'.work == 0 })
  | wait {task next} (runs : s.phase = .running task next) :
      Stepped eager s .wait { s with waits := s.waits + 1 }
  | wake (busy : ∀ next, s.phase ≠ .returned next) (waits : s.waits ≠ 0) :
      Stepped eager s .wake { s with waits := s.waits - 1 }.post
  | take {index task next} (polls : s.phase = .polling next) (running : ¬ s.stopped = true)
      (chosen : s.queue[index]? = some task) :
      Stepped eager s (.take index)
        { s with queue := s.queue.eraseIdx index, phase := .running task next }
  | done {task next} (runs : s.phase = .running task next) :
      Stepped eager s .done
        (let s' := { s with executed := s.executed ++ [task], phase := .polling next }
        { s' with stopped := s'.stopped || s'.work == 0 })
  | leave {next} (polls : s.phase = .polling next) (nothing : s.stopped = true ∨ s.queue = []) :
      Stepped eager s .leave { s with phase := .returned next }
  | resume {next s'} (returned : s.phase = .returned next) (posts : Posts { s with phase := .idle } s') :
      Stepped eager s .resume s'

theorem posts_resume {s s' : SyncIoCtx T} {next : Then T} (same : s.resume next = some s') :
    Posts { s with phase := .idle } s' := by
  cases next with
  | nothing =>
      cases same
      exact .refl _
  | read io val =>
      simp only [SyncIoCtx.resume] at same
      split at same
      · cases same
        exact posts_streamOp _ _ _ _ _
      · cases same

theorem stepped_of_active {eager : Bool} {s s' mid : SyncIoCtx T} {action : Action T}
    (stepped : (if s.phase.active then some mid else none) = some s') (posts : Posts s mid)
    (alive : s.Alive action) : Stepped eager s action s' := by
  split at stepped
  · rename_i active
    cases stepped
    exact .acts active posts alive
  · cases stepped

theorem stepped_of_call {eager : Bool} {s s' : SyncIoCtx T} {member : Member T}
    (stepped : s.step eager (.call member) = some s') : Stepped eager s (.call member) s' := by
  simp only [step] at stepped
  split at stepped
  · rename_i idle
    split at stepped
    · rename_i mid same
      cases stepped
      refine .acts (by rw [idle]; rfl) (posts_body same) fun _ mid next calls => ?_
      cases same.symm.trans calls
    · rename_i mid next same
      cases stepped
      exact .calls idle same
    · cases stepped
  · cases stepped

theorem stepped_of_step {eager : Bool} {s s' : SyncIoCtx T} {action : Action T}
    (stepped : s.step eager action = some s') : Stepped eager s action s' := by
  cases action with
  | call member => exact stepped_of_call stepped
  | post => exact stepped_of_active stepped (posts_post s) trivial
  | streamOp dir channel t onBlocked =>
      exact stepped_of_active stepped (posts_streamOp s dir channel t onBlocked) trivial
  | closeChannel channel => exact stepped_of_active stepped (posts_closeChannel s channel) trivial
  | attach io ep => exact stepped_of_active stepped ⟨rfl, rfl, Nat.le_refl _, rfl, id⟩ trivial
  | makeGuard => exact stepped_of_active stepped ⟨rfl, rfl, Nat.le_succ _, rfl, id⟩ trivial
  | releaseGuard =>
      simp only [step] at stepped
      split at stepped
      · rename_i held
        cases stepped
        exact .releaseGuard (Bool.and_eq_true _ _ ▸ held).1
      · cases stepped
  | wait =>
      simp only [step] at stepped
      split at stepped
      · rename_i runs
        cases stepped
        exact .wait runs
      · cases stepped
  | wake =>
      simp only [step] at stepped
      split at stepped
      · cases stepped
      · rename_i busy
        split at stepped
        · cases stepped
        · rename_i some
          cases stepped
          exact .wake busy some
  | take index =>
      simp only [step] at stepped
      split at stepped
      · rename_i polls
        split at stepped
        · cases stepped
        · rename_i running
          split at stepped
          · rename_i chosen
            cases stepped
            exact .take polls running chosen
          · cases stepped
      · cases stepped
  | done =>
      simp only [step] at stepped
      split at stepped
      · rename_i runs
        cases stepped
        exact .done runs
      · cases stepped
  | leave =>
      simp only [step] at stepped
      split at stepped
      · rename_i polls
        split at stepped
        · rename_i nothing
          cases stepped
          exact .leave polls (by simpa using nothing)
        · cases stepped
      · cases stepped
  | resume =>
      simp only [step] at stepped
      split at stepped
      · rename_i returned
        exact .resume returned (posts_resume stepped)
      · cases stepped

/-- A step keeps the invariant; and `run_tasks` returns as it should exactly if it was not called
where tasks wait in a context that is stopped. -/
theorem step_inv (eager : Bool) (s : SyncIoCtx T) (action : Action T) (s' : SyncIoCtx T) (inv : s.Inv)
    (stepped : s.step eager action = some s') : s'.Inv ∧ (s'.Executed ↔ s.Alive action) := by
  cases stepped_of_step stepped with
  | @calls member mid next idle same =>
      have posts : Posts s mid := posts_body same
      have inv' : mid.Inv := inv.posts posts fun next => by rw [idle]; exact fun same => by cases same
      obtain ⟨inv', executed⟩ := inv'.runTasks (posts.phase.trans idle) next
      refine ⟨inv', executed.trans ⟨?_, ?_⟩⟩
      · intro drained _ mid' next' calls
        cases same.symm.trans calls
        exact drained
      · exact fun alive => alive idle mid next same
  | acts active posts alive =>
      constructor
      · exact inv.posts posts fun next => (ne_of_active active next).1
      · exact iff_of_true (executed_of_phase posts.phase fun next => (ne_of_active active next).2) alive
  | releaseGuard active =>
      exact ⟨inv.releaseGuard active eager,
        iff_true_intro (executed_of_phase rfl fun next => (ne_of_active active next).2)⟩
  | wait runs =>
      have resting : ¬ s.stopped = true := by
        intro stopped
        have rests := (inv.resting stopped).2
        rw [runs] at rests
        cases rests
      constructor
      · exact ⟨inv.placed, fun stopped => absurd stopped resting, inv.drained⟩
      · exact iff_true_intro fun next returned => by cases runs.symm.trans returned
  | wake busy waits =>
      have resting : ¬ s.stopped = true := fun stopped => waits (inv.resting stopped).1
      constructor
      · exact ⟨(posts_post _).placed inv.placed, fun stopped => absurd stopped resting,
          fun stopped => absurd stopped resting⟩
      · exact iff_true_intro (executed_of_phase rfl busy)
  | take polls running chosen =>
      exact ⟨inv.take polls running chosen, iff_true_intro fun _ same => by cases same⟩
  | done runs => exact ⟨inv.done runs, iff_true_intro fun _ same => by cases same⟩
  | @leave next polls nothing =>
      have empty : s.queue = [] := by
        rcases nothing with stopped | empty
        · exact inv.drained stopped next polls
        · exact empty
      have placed : { s with phase := .returned next }.Placed := inv.placed.phase (by rw [polls]; rfl)
      constructor
      · exact ⟨placed, fun stopped => ⟨(inv.resting stopped).1, rfl⟩, fun _ _ same => by cases same⟩
      · exact iff_true_intro ((placed.returned_iff rfl).mpr empty)
  | @resume next _ returned posts =>
      have placed : { s with phase := .idle }.Placed := inv.placed.phase (by rw [returned]; rfl)
      have inv' : { s with phase := .idle }.Inv :=
        ⟨placed, fun stopped => ⟨(inv.resting stopped).1, rfl⟩, fun _ _ same => by cases same⟩
      constructor
      · exact inv'.posts posts fun _ same => by cases same
      · exact iff_true_intro (executed_of_phase posts.phase fun _ same => by cases same)

theorem enabled (eager : Bool) (s : SyncIoCtx T) (action : Action T) (broken : ¬ s.Alive action) :
    ∃ s', s.step eager action = some s' := by
  cases action with
  | call member =>
      simp only [Alive, not_forall] at broken
      obtain ⟨idle, mid, next, calls, -, -⟩ := broken
      exact ⟨mid.runTasks next, by simp only [step, idle, calls]⟩
  | _ => exact absurd trivial broken

/-- **What `run_tasks` executes.** In every run, whenever it returns, every task that was posted
before has been executed, exactly if it is never called where tasks wait in a context that is
stopped. -/
theorem executed_iff_alive (eager : Bool) (sizes : Nat → Nat) (endpoints : Nat → Endpoint)
    (actions : List (Action T)) :
    (∀ before after s, before ++ after = actions →
      run (step eager) (start sizes endpoints) before = some s → s.Executed) ↔
        Meets (step eager) Alive (start sizes endpoints) actions :=
  System.holds_iff_meets (inv_start sizes endpoints) (fun _ same => by cases same)
    (fun s action s' inv _ stepped => (step_inv eager s action s' inv stepped).1)
    (fun s action s' inv _ stepped => (step_inv eager s action s' inv stepped).2)
    (fun s action _ broken => enabled eager s action broken) actions

/-- A task that is posted after a first `run_tasks`, which has found no work. -/
theorem not_executed :
    ¬ ∀ (actions : List (Action String)) s,
      run (step false) (start (fun _ => 1) fun _ => ⟨none, none⟩) actions = some s → s.Executed := by
  intro always
  have executed := always [.call .runTasks, .resume, .post, .call .runTasks] _ rfl .nothing rfl 0
    (by decide)
  cases executed

/-! ### With a guard -/

/-- Some guard is held, and the context has not stopped. -/
def Guarded (s : SyncIoCtx T) : Prop := 0 < s.guards ∧ s.stopped = false

omit [Movable T] in
theorem Guarded.posts {s s' : SyncIoCtx T} (guarded : s.Guarded) (posts : Posts s s') : s'.Guarded :=
  ⟨Nat.lt_of_lt_of_le guarded.1 posts.guards, posts.stopped.trans guarded.2⟩

omit [Movable T] in
theorem Guarded.runTasks {s : SyncIoCtx T} (guarded : s.Guarded) (next : Then T) :
    (s.runTasks next).Guarded := by
  have some : s.work ≠ 0 := by
    have held := guarded.1
    unfold work
    omega
  unfold SyncIoCtx.runTasks
  rw [if_neg (by rw [guarded.2]; decide), if_neg some]
  exact guarded

theorem Guarded.step {eager : Bool} {s s' : SyncIoCtx T} {action : Action T} (guarded : s.Guarded)
    (keeps : action = .releaseGuard → 1 < s.guards) (stepped : s.step eager action = some s') :
    s'.Guarded := by
  cases stepped_of_step stepped with
  | calls idle same => exact (guarded.posts (posts_body same)).runTasks _
  | acts active posts alive => exact guarded.posts posts
  | releaseGuard active =>
      have more := keeps rfl
      have some : s.queue.length + s.phase.task.length + s.waits + (s.guards - 1) ≠ 0 := by omega
      constructor
      · exact Nat.sub_pos_of_lt more
      · simp [guarded.2, work, beq_eq_false_iff_ne.mpr some]
  | wait runs => exact guarded
  | wake busy waits => exact guarded
  | take polls running chosen => exact guarded
  | @done task next runs =>
      have held := guarded.1
      have some : s.queue.length + (PollPhase.polling next : PollPhase T).task.length + s.waits + s.guards ≠ 0 := by
        omega
      constructor
      · exact held
      · simp [guarded.2, work, beq_eq_false_iff_ne.mpr some]
  | leave polls nothing => exact guarded
  | resume returned posts =>
      have idle : { s with phase := .idle }.Guarded := guarded
      exact idle.posts posts

/-- As long as a guard is held, as `SyncBackend` holds one, `run_tasks` executes all. -/
theorem executed_of_guarded {eager : Bool} {s : SyncIoCtx T} {sizes : Nat → Nat}
    {endpoints : Nat → Endpoint}
    (reached : Reachable (step eager) (fun s action => action = .releaseGuard → 1 < s.guards)
      { start sizes endpoints with guards := 1 } s) : s.Executed := by
  refine (@Reachable.invariant _ _ _ _ _ _ (fun s => s.Inv ∧ s.Guarded ∧ s.Executed) ?_ ?_ reached).2.2
  · have inv : (start sizes endpoints : SyncIoCtx T).Inv := inv_start sizes endpoints
    exact ⟨⟨inv.placed, inv.resting, inv.drained⟩, ⟨Nat.one_pos, rfl⟩, fun _ same => by cases same⟩
  · intro s action s' ⟨inv, guarded, _⟩ keeps stepped
    obtain ⟨inv', executed⟩ := step_inv eager s action s' inv stepped
    refine ⟨inv', guarded.step keeps stepped, executed.mpr ?_⟩
    cases action with
    | call member =>
        intro _ mid next calls stopped
        have running := (guarded.posts (posts_body calls)).2
        cases running.symm.trans stopped
    | _ => trivial

end Steps

end SyncIoCtx

end AlpacaCore.Io
