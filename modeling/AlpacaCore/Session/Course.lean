import AlpacaCore.Session.Conduct
import AlpacaCore.Session.Net

/-!
The course of a session among its peers.

`Course` ties how far the session is with a frame to what the asset manager has still to
say to it. Every step keeps it; what else a step changes is one of few things, which
`Course.session_step` lists once for all that is proved about runs.
-/

namespace AlpacaCore.Session

open AlpacaCore.Schema
open AlpacaCore.System (Coro)

/-- Where the connection to the asset manager is when the session is at this stage. -/
inductive Linked (env : Env) : Stage → List Frame → List Frame → Program Wait → Prop where
  | apart {stage : Stage} {toManager fromManager : List Frame} {manager : Program Wait}
      (alone : stage ≠ .connected ∧ stage ≠ .greeted ∧ ∀ request, stage ≠ .requested request) :
      Linked env stage toManager fromManager manager
  | opening : Linked env .connected [] [] Service.assetMgr.createSession
  | greeting {f : Frame} : Linked env .connected [] [f] (.ret .assetMgr)
  | greeted : Linked env .greeted [] [] (.ret .assetMgr)
  | sent {request res : Frame} (answer : AssetMgr.answer env request = .ok (res, .assetMgr)) :
      Linked env (.requested request) [request] [] (.ret .assetMgr)
  | working {request res : Frame} {reports : List Frame} {manager : Program Wait}
      (answer : AssetMgr.answer env request = .ok (res, .assetMgr))
      (progress : ∀ f ∈ reports, Progress.frameIs f = true)
      (conduct : Conduct env (res, .assetMgr) False (.providing, true) manager) :
      Linked env (.requested request) [] reports manager
  | done {request res : Frame} {reports : List Frame}
      (answer : AssetMgr.answer env request = .ok (res, .assetMgr))
      (progress : ∀ f ∈ reports, Progress.frameIs f = true) :
      Linked env (.requested request) [] (reports ++ [res]) (.ret .assetMgr)

structure Course (cfg : Config) (goal : Frame × Wait) (escapes : Prop) (p : Progressed) (n : Net) :
    Prop where
  conduct : Conduct cfg.env goal escapes p n.session
  linked : Linked cfg.env p.1 n.toManager n.fromManager n.manager

/-- What goes to the client as the session gets further. -/
inductive Sends : Progressed → List Frame → Progressed → Prop where
  | nothing {p p' : Progressed} (before : ∀ f, p.1 ≠ .answered f)
      (unanswered : ∀ f, p'.1 ≠ .answered f) : Sends p [] p'
  | interim {p : Progressed} {f : Frame} (interim : f.terminal = false)
      (unanswered : ∀ f, p.1 ≠ .answered f) : Sends p [f] p
  | answer {stage : Stage} {calm : Bool} {f : Frame} (terminal : f.terminal = true)
      (unanswered : ∀ f, stage ≠ .answered f) : Sends (stage, calm) [f] (.answered f, calm)

theorem not_answered {stage : Stage} (working : stage.working = true) (f : Frame) :
    stage ≠ .answered f := by
  rintro rfl
  cases working

theorem working_of_looking {stage : Stage} (looking : stage.looking = true) :
    stage.working = true := by
  cases stage <;> first | rfl | exact looking

theorem working_of_loading {stage : Stage} (loading : stage.loading = true) :
    stage.working = true := by
  cases stage <;> first | rfl | exact loading

theorem interim_of_progress {f : Frame} (progress : Progress.frameIs f = true) :
    f.terminal = false := by
  have op : f.op = "$progress" := by simpa [Kind.frameIs, Progress] using progress
  simp [Frame.terminal, Kind.frameIs, op, Error, StateChange, OpRun.Return, OpStream.Return,
    OpMakeAssetsAvailable.Return]

theorem interim_of_token {f : Frame} (token : OpStream.StreamToken.frameIs f = true) :
    f.terminal = false := by
  have op : f.op = "token" := by simpa [Kind.frameIs, OpStream.StreamToken] using token
  simp [Frame.terminal, Kind.frameIs, op, Error, StateChange, OpRun.Return, OpStream.Return,
    OpMakeAssetsAvailable.Return]

/-- The session took a frame of the client. -/
structure Takes (cfg : Config) (n n' : Net) (wait : Wait) (f : Frame) : Prop where
  waits : n.session = .ret wait
  forClient : wait.forClient = true
  next : n.toService = f :: n'.toService
  same : n' = { n with
    toService := n'.toService
    session := serve cfg.env wait f
    served := n.served ++ [n.taken + 1] }

/-- How many stages there may be until the answer. -/
def Stage.rank : Stage → Nat
  | .answered _ => 0
  | .settled => 1
  | .requested _ => 2
  | .greeted => 3
  | .connected => 4
  | .busy => 5
  | .providing => 5

theorem Stage.rank_pos {stage : Stage} (working : stage.working = true) : 0 < stage.rank := by
  cases stage <;> first | exact Nat.succ_pos _ | cases working

/-- There is less between the session and its answer. -/
inductive Nearer (p : Progressed) (n : Net) (p' : Progressed) (n' : Net) : Prop where
  | further (rank : p'.1.rank < p.1.rank)
  | reads (rank : p'.1.rank = p.1.rank) (toManager : n'.toManager = n.toManager)
      (manager : n'.manager = n.manager) (fewer : n'.fromManager.length < n.fromManager.length)
  | goesOn (rank : p'.1.rank = p.1.rank) (toManager : n'.toManager = n.toManager)
      (manager : n'.manager = n.manager) (fromManager : n'.fromManager = n.fromManager)
      (next : Coro.Next n'.session n.session)

/-- The session got further with the frame it had taken. -/
structure Proceeds (cfg : Config) (goal : Frame × Wait) (escapes : Prop) (p : Progressed) (n : Net)
    (p' : Progressed) (new : List Frame) (n' : Net) : Prop where
  course : Course cfg goal escapes p' n'
  sends : Sends p new p'
  toClient : n'.toClient = n.toClient ++ new.map (Sent.mk n.serving)
  received : n'.received = n.received
  asked : n'.asked = n.asked
  served : n'.served = n.served
  /-- A frame is taken by an `Abort_check` only, which is disturbed then. -/
  toService : n'.toService = n.toService ∧ p'.2 = p.2 ∨
    p'.2 = false ∧ (∃ f, n.toService = f :: n'.toService) ∧ ∃ next, n.session = .call (.io .get) next
  nearer : Nearer p n p' n'

theorem Linked.of_greeted {env : Env} {toManager fromManager : List Frame} {manager : Program Wait}
    (linked : Linked env .greeted toManager fromManager manager) :
    toManager = [] ∧ fromManager = [] ∧ manager = .ret .assetMgr := by
  cases linked with
  | apart alone => exact absurd rfl alone.2.1
  | greeted => exact ⟨rfl, rfl, rfl⟩

theorem Linked.of_connected {env : Env} {toManager fromManager : List Frame}
    {manager : Program Wait} (linked : Linked env .connected toManager fromManager manager) :
    (toManager = [] ∧ fromManager = [] ∧ manager = Service.assetMgr.createSession) ∨
      ∃ f, toManager = [] ∧ fromManager = [f] ∧ manager = .ret .assetMgr := by
  cases linked with
  | apart alone => exact absurd rfl alone.1
  | opening => exact .inl ⟨rfl, rfl, rfl⟩
  | greeting => exact .inr ⟨_, rfl, rfl, rfl⟩

/-- Less can go wrong. -/
theorem Conduct.weaken {env : Env} {goal : Frame × Wait} {escapes : Prop} {p : Progressed}
    {c : Program Wait} (conduct : Conduct env goal False p c) : Conduct env goal escapes p c :=
  conduct.mono (fun _ _ ends => ends) fun _ _ ⟨_, _, _, absurd⟩ => absurd.elim

/-- What waits for the asset manager's answer has asked for it. -/
theorem ends_fetch {env : Env} {goal : Frame × Wait} {p : Progressed} {splice : String}
    (ends : Ends env goal p (.fetch splice)) :
    ∃ request, p = (.requested request, true) ∧ Pending env request splice goal := by
  obtain ⟨stage, calm⟩ := p
  cases stage with
  | requested request =>
      obtain ⟨rfl, pending⟩ := ends
      exact ⟨request, rfl, pending⟩
  | answered f => exact absurd ends.1 Bool.false_ne_true
  | providing => exact ends.elim
  | busy => exact ends.elim
  | connected => exact ends.elim
  | greeted => exact ends.elim
  | settled => exact ends.elim

theorem recover_ok {wait : Wait} {x : Except Exception (Frame × Wait)} {g : Frame × Wait}
    (recovered : recover wait x = .ok g) :
    x = .ok g ∨ ∃ what, x = .error (.runtime what) ∧ g = (⟨Error.id, .string what⟩, wait) := by
  cases x with
  | ok g' => exact .inl recovered
  | error e =>
      cases e with
      | runtime what => exact .inr ⟨what, rfl, (Except.ok.inj recovered).symm⟩
      | json what => cases recovered

/-- The asset manager answers with an error or with the assets. -/
theorem answer_final {env : Env} {request res : Frame}
    (answer : AssetMgr.answer env request = .ok (res, .assetMgr)) :
    Error.frameIs res = true ∨ OpMakeAssetsAvailable.Return.frameIs res = true := by
  rcases recover_ok answer with computed | ⟨what, -, same⟩
  · obtain ⟨params, -, made⟩ := bind_ok.mp computed
    cases params with
    | none =>
        cases made
        exact .inl rfl
    | some assets =>
        obtain ⟨paths, -, made⟩ := bind_ok.mp made
        obtain ⟨f, made, same⟩ := bind_ok.mp made
        cases same
        right
        simp only [Kind.frameIs, frameFrom_op made, OpMakeAssetsAvailable.Return, beq_self_eq_true]
  · cases same
    exact .inl rfl

/-- The session polls what the asset manager sent. -/
theorem Course.fetch_step {cfg : Config} {goal : Frame × Wait} {escapes : Prop} {p : Progressed}
    {n : Net} {splice : String} {res : Frame} {rest : List Frame}
    (course : Course cfg goal escapes p n) (waits : n.session = .ret (.fetch splice))
    (next : n.fromManager = res :: rest) :
    ∃ p' new, Proceeds cfg goal escapes p n p' new
      { n with fromManager := rest, session := serve cfg.env (.fetch splice) res } := by
  obtain ⟨conduct, linked⟩ := course
  rw [waits] at conduct
  obtain ⟨request, rfl, pending⟩ := ends_fetch conduct
  rw [next] at linked
  -- a report keeps it waiting, the answer does not
  have reported : Progress.frameIs res = true →
      Linked cfg.env (.requested request) n.toManager rest n.manager →
      ∃ p' new, Proceeds cfg goal escapes (.requested request, true) n p' new
        { n with fromManager := rest, session := serve cfg.env (.fetch splice) res } := by
    intro progress still
    exact ⟨(.requested request, true), [], ⟨(fetch_progress pending progress).weaken, still⟩,
      .nothing nofun nofun, by simp, rfl, rfl, rfl, .inl ⟨rfl, rfl⟩,
      .reads rfl rfl rfl (by simp [next])⟩
  have settled : AssetMgr.answer cfg.env request = .ok (res, .assetMgr) →
      ∃ p' new, Proceeds cfg goal escapes (.requested request, true) n p' new
        { n with fromManager := rest, session := serve cfg.env (.fetch splice) res } := by
    intro answer
    obtain ⟨res', answer', settled⟩ := pending
    rw [answer] at answer'
    cases answer'
    exact ⟨(.settled, true), [], ⟨(fetch_settled (answer_final answer) settled).weaken,
      .apart ⟨nofun, nofun, nofun⟩⟩, .nothing nofun nofun, by simp, rfl, rfl, rfl, .inl ⟨rfl, rfl⟩,
      .further (Nat.lt_add_one 1)⟩
  generalize same : res :: rest = queue at linked
  generalize n.toManager = requests at linked reported settled
  generalize n.manager = manager at linked reported settled
  cases linked with
  | apart alone => exact absurd rfl (alone.2.2 request)
  | sent => cases same
  | working answer progress conduct =>
      subst same
      rw [List.forall_mem_cons] at progress
      exact reported progress.1 (.working answer progress.2 conduct)
  | @done _ final reports answer progress =>
      cases reports with
      | nil =>
          obtain ⟨rfl, rfl⟩ := List.cons.inj same
          exact settled answer
      | cons report reports =>
          obtain ⟨rfl, rfl⟩ := List.cons.inj same
          rw [List.forall_mem_cons] at progress
          exact reported progress.1 (.done answer progress.2)

/-- The session does something at its own endpoint. -/
theorem Course.io_step {cfg : Config} {goal : Frame × Wait} {escapes : Prop} {p : Progressed}
    {n : Net} {op : Io} {next : op.Res → Program Wait} {r : op.Res} {toService : List Frame}
    {toClient : List Sent} (course : Course cfg goal escapes p n)
    (calls : n.session = .call (.io op) next)
    (acted : op.act cfg.sizes.localToRemote (Sent.mk n.serving) n.toService n.toClient =
      some (r, toService, toClient)) :
    ∃ p' new, Proceeds cfg goal escapes p n p' new
      { n with toService, toClient, session := next r } := by
  obtain ⟨conduct, linked⟩ := course
  rw [calls] at conduct
  obtain ⟨p', moved, later⟩ := conduct r trivial
  have goesOn : Coro.Next (next r) n.session := by
    rw [calls]
    exact @Coro.Next.next Op Op.Res _ _ (.io op) next r
  cases op with
  | push f =>
      simp only [Io.act] at acted
      split at acted
      · cases acted
        cases moved with
        | token token =>
            exact ⟨_, [f], ⟨later, linked⟩, .interim (interim_of_token token) nofun, rfl, rfl, rfl,
              rfl, .inl ⟨rfl, rfl⟩, .goesOn rfl rfl rfl rfl goesOn⟩
        | answer working terminal =>
            exact ⟨_, [f], ⟨later, .apart ⟨nofun, nofun, nofun⟩⟩,
              .answer terminal (not_answered working), rfl, rfl, rfl, rfl, .inl ⟨rfl, rfl⟩,
              .further (Stage.rank_pos working)⟩
      · cases acted
  | put f =>
      simp only [Io.act] at acted
      cases moved with
      | report working progress =>
          split at acted
          · cases acted
            exact ⟨_, [f], ⟨later, linked⟩, .interim (interim_of_progress progress)
              (not_answered working), rfl, rfl, rfl, rfl, .inl ⟨rfl, rfl⟩,
              .goesOn rfl rfl rfl rfl goesOn⟩
          · cases acted
            exact ⟨_, [], ⟨later, linked⟩, .nothing (not_answered working) (not_answered working),
              by simp, rfl, rfl, rfl, .inl ⟨rfl, rfl⟩, .goesOn rfl rfl rfl rfl goesOn⟩
  | poll => cases moved
  | get =>
      simp only [Io.act] at acted
      split at acted
      · rename_i empty
        cases acted
        cases moved with
        | look looking =>
            exact ⟨_, [], ⟨later, linked⟩, .nothing (not_answered (working_of_looking looking))
              (not_answered (working_of_looking looking)),
              by simp, rfl, rfl, rfl, .inl ⟨empty.symm, rfl⟩, .goesOn rfl rfl rfl rfl goesOn⟩
      · rename_i f rest waiting
        cases acted
        cases moved with
        | grab looking =>
            exact ⟨_, [], ⟨later, linked⟩, .nothing (not_answered (working_of_looking looking))
              (not_answered (working_of_looking looking)),
              by simp, rfl, rfl, rfl, .inr ⟨rfl, ⟨f, waiting⟩, next, calls⟩, .goesOn rfl rfl rfl rfl goesOn⟩

/-- The session does something at its end of the connection to the asset manager. -/
theorem Course.amgrio_step {cfg : Config} {goal : Frame × Wait} {escapes : Prop} {p : Progressed}
    {n : Net} {op : Io} {next : op.Res → Program Wait} {r : op.Res}
    {fromManager toManager : List Frame} (course : Course cfg goal escapes p n)
    (calls : n.session = .call (.amgrio op) next) {limit : Nat}
    (acted : op.act limit id n.fromManager n.toManager = some (r, fromManager, toManager)) :
    ∃ p' new, Proceeds cfg goal escapes p n p' new
      { n with fromManager, toManager, session := next r } := by
  obtain ⟨conduct, linked⟩ := course
  rw [calls] at conduct
  obtain ⟨p', moved, later⟩ := conduct r trivial
  cases op with
  | push f =>
      cases moved with
      | request answer =>
          obtain ⟨noRequest, nothing, waits⟩ := linked.of_greeted
          simp only [Io.act, noRequest, nothing, List.nil_append] at acted
          split at acted
          · cases acted
            exact ⟨_, [], ⟨later, by rw [waits]; exact .sent answer⟩, .nothing nofun nofun,
              by simp, rfl, rfl, rfl, .inl ⟨rfl, rfl⟩, .further (Nat.lt_add_one 2)⟩
          · cases acted
  | poll =>
      cases moved with
      | greet =>
          rcases linked.of_connected with ⟨-, nothing, -⟩ | ⟨greeting, noRequest, one, waits⟩
          · simp only [Io.act, nothing] at acted
            cases acted
          · simp only [Io.act, noRequest, one] at acted
            cases acted
            exact ⟨_, [], ⟨later, by rw [waits]; exact .greeted⟩, .nothing nofun nofun,
              by simp, rfl, rfl, rfl, .inl ⟨rfl, rfl⟩, .further (Nat.lt_add_one 3)⟩
  | put f => cases moved
  | get => cases moved

/-- **The steps of a session.** It takes a frame of the client, or gets further with the one
it has. -/
theorem Course.session_step {cfg : Config} {goal : Frame × Wait} {escapes : Prop} {p : Progressed}
    {n n' : Net} {found : Bool} (course : Course cfg goal escapes p n)
    (stepped : n.stepSession cfg found = some n') :
    (∃ wait f, Takes cfg n n' wait f) ∨ ∃ p' new, Proceeds cfg goal escapes p n p' new n' := by
  unfold Net.stepSession at stepped
  split at stepped
  · cases stepped
  · rename_i splice waits
    split at stepped
    · cases stepped
    · rename_i res rest next
      cases stepped
      exact .inr (course.fetch_step waits next)
  · rename_i wait notFetch waits
    split at stepped
    · cases stepped
    · rename_i f rest next
      cases stepped
      refine .inl ⟨wait, f, waits, ?_, next, rfl⟩
      cases wait with
      | fetch splice => exact absurd rfl (notFetch splice)
      | _ => rfl
  · rename_i op next calls
    obtain ⟨⟨r, toService, toClient⟩, acted, same⟩ := Option.map_eq_some_iff.mp stepped
    cases same
    exact .inr (course.io_step calls acted)
  · rename_i op next calls
    obtain ⟨⟨r, fromManager, toManager⟩, acted, same⟩ := Option.map_eq_some_iff.mp stepped
    cases same
    exact .inr (course.amgrio_step calls acted)
  · rename_i next calls
    cases stepped
    obtain ⟨conduct, linked⟩ := course
    rw [calls] at conduct
    obtain ⟨p', moved, later⟩ := conduct () trivial
    cases moved with
    | connect =>
        exact .inr ⟨_, [], ⟨later, .opening⟩, .nothing nofun nofun, by simp, rfl, rfl, rfl,
          .inl ⟨rfl, rfl⟩, .further (Nat.lt_add_one 4)⟩
  · rename_i params next calls
    obtain ⟨conduct, linked⟩ := course
    rw [calls] at conduct
    -- what is found was made by the constructor
    have proceeds : ∀ model, (∀ m, model = some m → Model.load cfg.env params = .ok m) →
        ∃ p' new, Proceeds cfg goal escapes p n p' new { n with session := next model } := by
      intro model valid
      obtain ⟨p', moved, later⟩ := conduct model valid
      cases moved with
      | find loading =>
          exact ⟨_, [], ⟨later, linked⟩, .nothing (not_answered (working_of_loading loading))
            (not_answered (working_of_loading loading)), by simp, rfl, rfl, rfl, .inl ⟨rfl, rfl⟩,
            .goesOn rfl rfl rfl rfl (calls ▸ .next (Op.find params) next model)⟩
    right
    split at stepped
    · split at stepped
      · rename_i model loaded
        cases stepped
        exact proceeds (some model) fun m same => Option.some.inj same ▸ loaded
      · cases stepped
    · cases stepped
      exact proceeds none nofun

/-- What only the asset manager does. -/
structure Serves (n n' : Net) : Prop where
  session : n'.session = n.session
  toService : n'.toService = n.toService
  toClient : n'.toClient = n.toClient
  asked : n'.asked = n.asked
  received : n'.received = n.received
  served : n'.served = n.served

theorem stepManager_serves {cfg : Config} {n n' : Net} (stepped : n.stepManager cfg = some n') :
    Serves n n' := by
  unfold Net.stepManager at stepped
  split at stepped
  · split at stepped
    · cases stepped
    · cases stepped
      exact ⟨rfl, rfl, rfl, rfl, rfl, rfl⟩
  · obtain ⟨⟨r, toManager, fromManager⟩, -, same⟩ := Option.map_eq_some_iff.mp stepped
    cases same
    exact ⟨rfl, rfl, rfl, rfl, rfl, rfl⟩
  · cases stepped

/-- Each operation has some result, so what a coroutine asks for is a move. -/
theorem Conduct.moves {env : Env} {goal : Frame × Wait} {escapes : Prop} {p : Progressed} {op : Op}
    {next : op.Res → Program Wait} (conduct : Conduct env goal escapes p (.call op next)) :
    ∃ r p', Moves env p op r p' := by
  have some : ∃ r, Answers env op r := by
    cases op with
    | io op =>
        cases op with
        | push f => exact ⟨(), trivial⟩
        | put f => exact ⟨(), trivial⟩
        | poll => exact ⟨⟨"", .null⟩, trivial⟩
        | get => exact ⟨none, trivial⟩
    | amgrio op =>
        cases op with
        | push f => exact ⟨(), trivial⟩
        | put f => exact ⟨(), trivial⟩
        | poll => exact ⟨⟨"", .null⟩, trivial⟩
        | get => exact ⟨none, trivial⟩
    | connect => exact ⟨(), trivial⟩
    | find params => exact ⟨none, nofun⟩
  obtain ⟨r, answered⟩ := some
  obtain ⟨p', moved, -⟩ := conduct r answered
  exact ⟨r, p', moved⟩

/-- A coroutine that has answered only waits again. -/
theorem Conduct.of_answered {env : Env} {goal : Frame × Wait} {escapes : Prop} {f : Frame}
    {calm : Bool} {c : Program Wait} (conduct : Conduct env goal escapes (.answered f, calm) c) :
    ∃ wait, c = .ret wait ∧ wait.forClient = true ∧ (calm = true → (f, wait) = goal) := by
  cases c with
  | ret wait => exact ⟨wait, rfl, conduct⟩
  | throw x => cases conduct.1
  | call op next =>
      obtain ⟨r, p', moved⟩ := Conduct.moves conduct
      cases moved with
      | report working => cases working
      | answer working => cases working
      | look looking => cases looking
      | grab looking => cases looking
      | find loading => cases loading

/-- The asset manager goes on with a request. -/
theorem Linked.working_step {env : Env} {request res : Frame} {reports toManager fromManager : List Frame}
    {op : Io} {next : op.Res → Program Wait} {r : op.Res} {limit : Nat}
    (answer : AssetMgr.answer env request = .ok (res, .assetMgr))
    (progress : ∀ f ∈ reports, Progress.frameIs f = true)
    (conduct : Conduct env (res, .assetMgr) False (.providing, true) (.call (.io op) next))
    (acted : op.act limit id [] reports = some (r, toManager, fromManager)) :
    Linked env (.requested request) toManager fromManager (next r) := by
  obtain ⟨p', moved, later⟩ := conduct r trivial
  cases op with
  | push f =>
      simp only [Io.act] at acted
      split at acted
      · cases acted
        cases moved with
        | answer working terminal =>
            obtain ⟨wait, same, -, settled⟩ := Conduct.of_answered later
            cases settled rfl
            rw [same]
            exact .done answer progress
      · cases acted
  | put f =>
      simp only [Io.act] at acted
      cases moved with
      | report working reported =>
          split at acted
          · cases acted
            apply Linked.working answer _ later
            intro f' member
            rcases List.mem_append.mp member with before | last
            · exact progress f' before
            · obtain rfl := List.mem_singleton.mp last
              exact reported
          · cases acted
            exact .working answer progress later
  | poll => cases moved
  | get =>
      cases moved with
      | look looking => cases looking
      | grab looking => cases looking

/-- A frame that has an answer is served without an exception. -/
theorem conduct_of_answer {env : Env} {wait : Wait} {f : Frame} {goal : Frame × Wait}
    (forClient : wait.forClient = true) (answered : answer env wait f = .ok goal) :
    Conduct env goal False (wait.stage, true) (serve env wait f) := by
  have conduct := serve_conducts wait f forClient goal fun g same =>
    Except.ok.inj (same.symm.trans answered)
  apply conduct.mono (fun _ _ ends => ends)
  rintro p x ⟨working, what, rfl, what', escaped⟩
  rw [answered] at escaped
  cases escaped

theorem Course.manager_step {cfg : Config} {goal : Frame × Wait} {escapes : Prop} {p : Progressed}
    {n n' : Net} (course : Course cfg goal escapes p n) (stepped : n.stepManager cfg = some n') :
    Course cfg goal escapes p n' := by
  obtain ⟨conduct, linked⟩ := course
  refine ⟨by rw [(stepManager_serves stepped).session]; exact conduct, ?_⟩
  generalize p.1 = stage at linked
  generalize toManager : n.toManager = requests at linked
  generalize fromManager : n.fromManager = replies at linked
  generalize manager : n.manager = m at linked
  unfold Net.stepManager at stepped
  cases linked with
  | apart alone => exact .apart alone
  | opening =>
      have opens : Service.assetMgr.createSession =
        .call (.io (.push ⟨StateChange.id, .string assetMgrState⟩)) fun _ => .ret .assetMgr := rfl
      rw [manager, opens] at stepped
      simp only [Io.act, fromManager, toManager, List.length_nil, List.nil_append] at stepped
      cases stepped
      exact .greeting
  | greeting =>
      rw [manager, toManager] at stepped
      cases stepped
  | greeted =>
      rw [manager, toManager] at stepped
      cases stepped
  | sent answered =>
      rw [manager, toManager] at stepped
      cases stepped
      rw [fromManager]
      have taken : answer cfg.env .assetMgr _ = .ok _ := answered
      exact .working answered nofun (conduct_of_answer rfl taken)
  | @working request res reports m answer progress conduct =>
      cases m with
      | ret wait =>
          cases wait with
          | fetch splice => exact conduct.elim
          | _ => exact conduct.elim
      | throw x => exact conduct.2.elim fun _ absurd => absurd.2.elim
      | call op next =>
          rw [manager] at stepped
          cases op with
          | io op =>
              obtain ⟨⟨r, toManager', fromManager'⟩, acted, same⟩ :=
                Option.map_eq_some_iff.mp stepped
              cases same
              rw [toManager, fromManager] at acted
              exact .working_step answer progress conduct acted
          | amgrio op => cases stepped
          | connect => cases stepped
          | find params => cases stepped
  | done answer progress =>
      rw [manager, toManager] at stepped
      cases stepped

theorem pushed {cfg : Config} {n n' : Net} {f : Frame} (stepped : n.step cfg (.push f) = some n') :
    n.toService.length < cfg.sizes.remoteToLocal ∧
      n' = { n with toService := n.toService ++ [f], asked := n.asked ++ [f] } := by
  simp only [Net.step] at stepped
  split at stepped
  · rename_i room
    exact ⟨room, (Option.some.inj stepped).symm⟩
  · cases stepped

theorem polled {cfg : Config} {n n' : Net} (stepped : n.step cfg .poll = some n') :
    ∃ sent rest, n.toClient = sent :: rest ∧
      n' = { n with toClient := rest, received := n.received ++ [sent] } := by
  simp only [Net.step] at stepped
  split at stepped
  · cases stepped
  · rename_i sent rest next
    exact ⟨sent, rest, next, (Option.some.inj stepped).symm⟩

theorem Course.push {cfg : Config} {goal : Frame × Wait} {escapes : Prop} {p : Progressed}
    {n n' : Net} {f : Frame} (course : Course cfg goal escapes p n)
    (stepped : n.step cfg (.push f) = some n') : Course cfg goal escapes p n' := by
  obtain ⟨conduct, linked⟩ := course
  rw [(pushed stepped).2]
  exact ⟨conduct, linked⟩

theorem Course.poll {cfg : Config} {goal : Frame × Wait} {escapes : Prop} {p : Progressed}
    {n n' : Net} (course : Course cfg goal escapes p n) (stepped : n.step cfg .poll = some n') :
    Course cfg goal escapes p n' := by
  obtain ⟨conduct, linked⟩ := course
  obtain ⟨sent, rest, next, same⟩ := polled stepped
  rw [same]
  exact ⟨conduct, linked⟩

/-- A session that waits for the client has answered. -/
theorem ends_forClient {env : Env} {goal : Frame × Wait} {p : Progressed} {wait : Wait}
    (ends : Ends env goal p wait) (forClient : wait.forClient = true) :
    ∃ f, p.1 = .answered f ∧ (p.2 = true → (f, wait) = goal) := by
  obtain ⟨stage, calm⟩ := p
  cases stage with
  | answered f => exact ⟨f, rfl, ends.2⟩
  | requested request =>
      cases wait with
      | fetch splice => cases forClient
      | _ => exact ends.elim
  | providing => exact ends.elim
  | busy => exact ends.elim
  | connected => exact ends.elim
  | greeted => exact ends.elim
  | settled => exact ends.elim

/-- A frame that was taken is on its way to its answer. -/
theorem Takes.course {cfg : Config} {n n' : Net} {wait : Wait} {f : Frame}
    (takes : Takes cfg n n' wait f) {goal : Frame × Wait}
    (meant : ∀ g, answer cfg.env wait f = .ok g → g = goal) :
    Course cfg goal (∃ what, answer cfg.env wait f = .error (.json what)) (wait.stage, true) n' := by
  have session : n'.session = serve cfg.env wait f := by rw [takes.same]
  constructor
  · rw [session]
    exact serve_conducts wait f takes.forClient goal meant
  · apply Linked.apart
    cases wait <;> exact ⟨nofun, nofun, nofun⟩

/-- What an op means, if it has an answer. -/
theorem exists_goal (env : Env) (wait : Wait) (f : Frame) :
    ∃ goal, ∀ g, answer env wait f = .ok g → g = goal := by
  cases answer env wait f with
  | ok goal => exact ⟨goal, fun g same => (Except.ok.inj same).symm⟩
  | error x => exact ⟨(f, wait), nofun⟩

/-- With fewer exceptions ruled out. -/
theorem Course.mono {cfg : Config} {goal : Frame × Wait} {escapes escapes' : Prop} {p : Progressed}
    {n : Net} (course : Course cfg goal escapes p n) (weaker : escapes → escapes') :
    Course cfg goal escapes' p n :=
  ⟨course.conduct.mono (fun _ _ ends => ends) fun _ _ ⟨working, what, json, escaped⟩ =>
    ⟨working, what, json, weaker escaped⟩, course.linked⟩

/-- A session that has answered does nothing but wait for the client. -/
theorem Sends.unanswered {p p' : Progressed} {new : List Frame} (sends : Sends p new p') (f : Frame) :
    p.1 ≠ .answered f := by
  cases sends with
  | nothing before unanswered => exact before f
  | interim interim unanswered => exact unanswered f
  | answer terminal unanswered => exact unanswered f

end AlpacaCore.Session
