import AlpacaCore.Session.Assets

/-!
How a session answers a frame.

Whatever the client and the asset manager do, a session that took a frame sends tokens
and reports, then one terminal frame, and waits again. In between it may connect to the
asset manager, and wait there with its answer still to be given. `Stage` is how far it
has come. As long as it finds no other frame of the client when it looks for one, the
answer is the one the op means.
-/

namespace AlpacaCore.Session

open AlpacaCore.Schema
open AlpacaCore.System (Coro)

inductive Stage where
  /-- of the asset manager, which only reports before it answers -/
  | providing
  | busy
  | connected
  /-- the asset manager has told its state -/
  | greeted
  | requested (request : Frame)
  /-- the asset manager has answered -/
  | settled
  | answered (f : Frame)

/-- Frames may be sent, and the answer. -/
def Stage.working : Stage → Bool
  | .providing => true
  | .busy => true
  | .requested _ => true
  | .settled => true
  | _ => false

/-- The client may be looked at for an `Abort`. -/
def Stage.looking : Stage → Bool
  | .busy => true
  | .requested _ => true
  | _ => false

/-- The cache may be asked for a model. -/
def Stage.loading : Stage → Bool
  | .busy => true
  | .settled => true
  | _ => false

/-- Where a loop starts with a frame. -/
def Wait.stage : Wait → Stage
  | .assetMgr => .providing
  | _ => .busy

/-- How far a session is with a frame, and whether it has found no other frame of the client
since. -/
abbrev Progressed : Type := Stage × Bool

inductive Moves (env : Env) : Progressed → (op : Op) → op.Res → Progressed → Prop where
  | token {calm : Bool} {f : Frame} (token : OpStream.StreamToken.frameIs f = true) :
      Moves env (.busy, calm) (.io (.push f)) () (.busy, calm)
  | report {stage : Stage} {calm : Bool} {f : Frame} (working : stage.working = true)
      (progress : Progress.frameIs f = true) :
      Moves env (stage, calm) (.io (.put f)) () (stage, calm)
  | answer {stage : Stage} {calm : Bool} {f : Frame} (working : stage.working = true)
      (terminal : f.terminal = true) :
      Moves env (stage, calm) (.io (.push f)) () (.answered f, calm)
  | look {stage : Stage} {calm : Bool} (looking : stage.looking = true) :
      Moves env (stage, calm) (.io .get) none (stage, calm)
  | grab {stage : Stage} {calm : Bool} {f : Frame} (looking : stage.looking = true) :
      Moves env (stage, calm) (.io .get) (some f) (stage, false)
  | connect {calm : Bool} : Moves env (.busy, calm) .connect () (.connected, calm)
  | greet {calm : Bool} {f : Frame} : Moves env (.connected, calm) (.amgrio .poll) f (.greeted, calm)
  | request {calm : Bool} {f res : Frame} (answer : AssetMgr.answer env f = .ok (res, .assetMgr)) :
      Moves env (.greeted, calm) (.amgrio (.push f)) () (.requested f, calm)
  | find {stage : Stage} {calm : Bool} {params : Model.Params} {found : Option Model}
      (loading : stage.loading = true) : Moves env (stage, calm) (.find params) found (stage, calm)

/-- A model in the cache was made by the constructor. -/
def Answers (env : Env) : (op : Op) → op.Res → Prop
  | .find params, found => ∀ model, found = some model → Model.load env params = .ok model
  | _, _ => True

/-- The asset manager's answer to the request leads to this answer. -/
def Pending (env : Env) (request : Frame) (splice : String) (goal : Frame × Wait) : Prop :=
  ∃ res, AssetMgr.answer env request = .ok (res, .assetMgr) ∧
    Dummy.fetched env splice res = .ok goal

/-- How a body ends: with the answer given, or waiting for the asset manager's. -/
def Ends (env : Env) (goal : Frame × Wait) : Progressed → Wait → Prop
  | (.answered f, calm), wait => wait.forClient = true ∧ (calm = true → (f, wait) = goal)
  | (.requested request, calm), .fetch splice => calm = true ∧ Pending env request splice goal
  | _, _ => False

/-- No exception leaves a loop, except under a condition, and then it is one of the JSON
library. -/
def Fails (escapes : Prop) : Progressed → Exception → Prop := fun p x =>
  p.1.working = true ∧ ∃ what, x = .json what ∧ escapes

/-- From here on the session conducts itself so. -/
abbrev Conduct (env : Env) (goal : Frame × Wait) (escapes : Prop) (p : Progressed)
    (c : Program Wait) : Prop :=
  c.Follows (Moves env) (Answers env) (Ends env goal) (Fails escapes) p

/-! ### Blocks and what they mean -/

def BlockEnds (env : Env) (goal : Frame × Wait) (wait : Wait) : Progressed → Outcome → Prop
  | p, .reply f => p.1.working = true ∧ f.terminal = true ∧ (p.2 = true → (f, wait) = goal)
  | p, .enter inner => Ends env goal p inner

def BlockFails (goal : Frame × Wait) (wait : Wait) (escapes : Prop) : Progressed → Exception → Prop
  | p, .runtime what =>
      p.1.working = true ∧ (p.2 = true → (⟨Error.id, .string what⟩, wait) = goal)
  | p, .json _ => p.1.working = true ∧ escapes

/-- The block, in the loop `wait`, answers what the computation gives. -/
def Answering (env : Env) (wait : Wait) (p : Progressed) (block : Program Outcome)
    (meaning : Except Exception (Frame × Wait)) : Prop :=
  ∀ goal escapes, (∀ g, recover wait meaning = .ok g → g = goal) →
    (∀ what, meaning = .error (.json what) → escapes) →
      block.Follows (Moves env) (Answers env) (BlockEnds env goal wait) (BlockFails goal wait escapes) p

/-- So the loop does what the computation means. -/
theorem Answering.attempt {env : Env} {wait : Wait} {p : Progressed} {block : Program Outcome}
    {meaning : Except Exception (Frame × Wait)} (forClient : wait.forClient = true)
    (answering : Answering env wait p block meaning) {goal : Frame × Wait} {escapes : Prop}
    (meant : ∀ g, recover wait meaning = .ok g → g = goal)
    (escaped : ∀ what, recover wait meaning = .error (.json what) → escapes) :
    Conduct env goal escapes p (attempt wait block) := by
  refine Coro.Follows.bind (?_ : Coro.Follows _ _ (BlockEnds env goal wait) (Fails escapes) p _) ?_
  · apply (answering goal escapes meant fun what same => escaped what (by rw [same]; rfl)).tryCatch
    intro p x failed
    cases x with
    | runtime what => exact ⟨failed.1, rfl, failed.2⟩
    | json what => exact ⟨failed.1, what, rfl, failed.2⟩
  · intro p outcome ended
    cases outcome with
    | reply f =>
        obtain ⟨working, terminal, same⟩ := ended
        intro r _
        exact ⟨_, .answer working terminal, forClient, same⟩
    | enter inner => exact ended

namespace Answering

variable {env : Env} {wait : Wait} {stage : Stage} {calm : Bool} {block : Program Outcome}
  {meaning : Except Exception (Frame × Wait)}

/-- A computation that both make. -/
theorem ofExcept_bind {A : Type} {p : Progressed} {x : Except Exception A} {f : A → Program Outcome}
    {g : A → Except Exception (Frame × Wait)} (working : p.1.working = true)
    (rest : ∀ a, x = .ok a → Answering env wait p (f a) (g a)) :
    Answering env wait p (Coro.ofExcept x >>= f) (x >>= g) := by
  intro goal escapes meant escaped
  cases x with
  | ok a => exact rest a rfl goal escapes meant escaped
  | error e =>
      cases e with
      | runtime what => exact ⟨working, fun _ => meant _ rfl⟩
      | json what => exact ⟨working, escaped what rfl⟩

/-- A computation that only the coroutine makes. -/
theorem ofExcept_ok {A : Type} {p : Progressed} {x : Except Exception A} {a : A}
    {f : A → Program Outcome} (computed : x = .ok a) (rest : Answering env wait p (f a) meaning) :
    Answering env wait p (Coro.ofExcept x >>= f) meaning := by
  subst computed
  exact rest

theorem throwEx {p : Progressed} (working : p.1.working = true) (what : String) :
    Answering env wait p (throwEx what) (throw (.runtime what)) :=
  fun _ _ meant _ => ⟨working, fun _ => meant _ rfl⟩

theorem reply {p : Progressed} {f : Frame} (working : p.1.working = true)
    (terminal : f.terminal = true) : Answering env wait p (pure (.reply f)) (pure (f, wait)) :=
  fun _ _ meant _ => ⟨working, terminal, fun _ => meant _ rfl⟩

/-- The answer is given by the loop that is entered. -/
theorem enter {inner : Wait} {f : Frame} (working : stage.working = true) (terminal : f.terminal = true)
    (forClient : inner.forClient = true) :
    Answering env wait (stage, calm) (push f >>= fun _ => pure (.enter inner)) (pure (f, inner)) :=
  fun _ _ meant _ _ _ => ⟨_, .answer working terminal, forClient, fun _ => meant _ rfl⟩

theorem put {f : Frame} (working : stage.working = true) (progress : Progress.frameIs f = true)
    (rest : Answering env wait (stage, calm) block meaning) :
    Answering env wait (stage, calm) (put f >>= fun _ => block) meaning :=
  fun goal escapes meant escaped _ _ => ⟨_, .report working progress, rest goal escapes meant escaped⟩

theorem token {f : Frame} (token : OpStream.StreamToken.frameIs f = true)
    (rest : Answering env wait (.busy, calm) block meaning) :
    Answering env wait (.busy, calm) (push f >>= fun _ => block) meaning :=
  fun goal escapes meant escaped _ _ => ⟨_, .token token, rest goal escapes meant escaped⟩

/-- The asset manager's answer is awaited. -/
theorem await {request : Frame} {splice : String} {g : Frame × Wait}
    (pending : Pending env request splice g) :
    Answering env wait (.requested request, true) (pure (.enter (.fetch splice))) (.ok g) :=
  fun _ _ meant _ => ⟨rfl, meant g rfl ▸ pending⟩

theorem find {params : Model.Params} {f : Option Model → Program Outcome}
    (loading : stage.loading = true)
    (rest : ∀ found, (∀ model, found = some model → Model.load env params = .ok model) →
      Answering env wait (stage, calm) (f found) meaning) :
    Answering env wait (stage, calm) ((.perform (Op.find params) : Program _) >>= f) meaning :=
  fun goal escapes meant escaped found valid =>
    ⟨_, .find loading, rest found valid goal escapes meant escaped⟩

/-- After `Abort_check` has taken a frame any answer will do. -/
theorem abortCheck {f : Bool → Program Outcome} (looking : stage.looking = true)
    (working : stage.working = true)
    (rest : Answering env wait (stage, calm) (f false) meaning)
    (aborted : ∀ goal escapes, (f true).Follows (Moves env) (Answers env) (BlockEnds env goal wait)
      (BlockFails goal wait escapes) (stage, false)) :
    Answering env wait (stage, calm) (abortCheck >>= f) meaning := by
  intro goal escapes meant escaped found _
  cases found with
  | none => exact ⟨_, .look looking, rest goal escapes meant escaped⟩
  | some frame =>
      refine ⟨_, .grab looking, ?_⟩
      change ((if Abort.frameIs frame = true then .ret true
        else Session.throwEx ("Unexpected frame: " ++ frame.op) : Program Bool) >>= f).Follows _ _ _ _ _
      split
      · exact aborted goal escapes
      · exact ⟨working, nofun⟩

end Answering

/-! ### Loops -/

section Loops

variable (env : Env)

theorem frameFrom_op {kind : Kind} {value : kind.Value} {f : Frame}
    (made : kind.frameFrom value = .ok f) : f.op = kind.id := by
  obtain ⟨data, -, same⟩ := bind_ok.mp made
  cases same
  rfl

/-- The kinds of frames that end an answer. -/
theorem terminal_of_made (kind : Kind) {value : kind.Value} {f : Frame}
    (made : kind.frameFrom value = .ok f)
    (member : kind.id ∈ ["$err", "$state-change", "run", "stream", "make-assets-available"]) :
    f.terminal = true := by
  simp only [List.mem_cons, List.not_mem_nil, or_false] at member
  simp only [Frame.terminal, Kind.frameIs, frameFrom_op made, Bool.or_eq_true, beq_iff_eq]
  rcases member with id | id | id | id | id <;> rw [id] <;> decide

/-- The coroutine that serves the frame gives the answer the frame means. -/
def Conducts (wait : Wait) (f : Frame) (c : Program Wait) : Prop :=
  ∀ goal, (∀ g, answer env wait f = .ok g → g = goal) →
    Conduct env goal (∃ what, answer env wait f = .error (.json what)) (wait.stage, true) c

variable {env}

theorem unknownOp_answering {wait : Wait} (f : Frame) :
    Answering env wait (.busy, true) (do return .reply (← Dummy.unknownOpError f))
      (do return (← Dummy.unknownOpError f, wait)) := by
  apply Answering.ofExcept_bind rfl
  intro error made
  exact .reply rfl (terminal_of_made Error made (by decide))

theorem runModel_conducts (model : Model) (f : Frame) :
    Conducts env (.runModel model) f (Dummy.runModel model f) := by
  intro goal meant
  apply Answering.attempt rfl _ meant fun what same => ⟨what, same⟩
  apply Answering.ofExcept_bind rfl
  intro params decoded
  cases params with
  | none => exact unknownOp_answering f
  | some params =>
      obtain ⟨cutoff, -⟩ := params
      apply Answering.ofExcept_bind rfl
      intro data _
      apply Answering.ofExcept_bind rfl
      intro changed made
      exact .enter rfl (terminal_of_made StateChange made (by decide)) rfl

/-- The stream sends its tokens and then what it returns, unless a token throws. -/
theorem runStream_answering {wait : Wait} (words : List String) (thrown : Option String) :
    Answering env wait (.busy, true) (do return .reply (← Dummy.runStream words thrown))
      (match thrown with
        | some what => throw (.runtime what)
        | none => do return (← OpStream.Return.frameFrom (), wait)) := by
  induction words with
  | nil =>
      cases thrown with
      | some what => exact .throwEx rfl what
      | none => exact .reply rfl rfl
  | cons w words ih =>
      unfold Dummy.runStream
      rw [bind_assoc]
      apply Answering.abortCheck rfl rfl
      · exact .token rfl ih
      · exact fun _ _ => ⟨rfl, rfl, nofun⟩

theorem run_terminal {s : Tokens} {f : Frame} (ran : Dummy.run s = .ok f) : f.terminal = true := by
  unfold Dummy.run at ran
  split at ran
  · cases ran
  · exact terminal_of_made OpRun.Return ran (by decide)

theorem runInstance_conducts (data : List String) (f : Frame) :
    Conducts env (.runInstance data) f (Dummy.runInstance data f) := by
  intro goal meant
  apply Answering.attempt rfl _ meant fun what same => ⟨what, same⟩
  apply Answering.ofExcept_bind rfl
  intro params decoded
  cases params with
  | some params =>
      apply Answering.ofExcept_bind rfl
      intro result made
      exact .reply rfl (run_terminal made)
  | none =>
      apply Answering.ofExcept_bind rfl
      intro params decoded
      cases params with
      | some params => exact runStream_answering _ _
      | none => exact unknownOp_answering f

/-- The rest of `runModel` loads the model, whether or not it is in the cache. -/
theorem loadModel_answering {wait : Wait} {stage : Stage} (working : stage.working = true)
    (loading : stage.loading = true) (params : Model.Params) :
    Answering env wait (stage, true) (Dummy.loadModel env params) (Dummy.loaded env params) := by
  apply Answering.put working rfl
  apply Answering.find loading
  intro found valid
  cases found with
  | some model =>
      simp only [Dummy.loaded, valid model rfl]
      exact .enter working rfl rfl
  | none =>
      apply Answering.put working rfl
      apply Answering.ofExcept_bind working
      intro model _
      exact .enter working rfl rfl

/-- The asset manager reports as it goes, and provides what it should. -/
theorem makeAssetsAvailable_answering {wait : Wait} (assets : List AssetInfo)
    {f : List AssetInfo → Program Outcome} {g : List AssetInfo → Except Exception (Frame × Wait)}
    (rest : ∀ assets, Answering env wait (.providing, true) (f assets) (g assets)) :
    Answering env wait (.providing, true) (AssetMgr.makeAssetsAvailable env assets >>= f)
      (AssetMgr.provided env assets >>= g) := by
  induction assets generalizing f g with
  | nil => exact rest []
  | cons asset assets ih =>
      obtain ⟨tag, uri, last⟩ := asset
      unfold AssetMgr.makeAssetsAvailable AssetMgr.provided
      simp only [bind_assoc]
      apply Answering.ofExcept_ok rfl
      apply Answering.put rfl rfl
      by_cases scheme : env.scheme (uri.materialize "") = "file"
      · rw [if_pos scheme, if_pos scheme]
        cases env.toPath (uri.materialize "") with
        | error what => exact .throwEx rfl what
        | ok path =>
            simp only
            by_cases isFile : env.isFile path = true
            · rw [if_pos isFile, if_pos isFile]
              simp only [bind_assoc]
              apply Answering.ofExcept_ok rfl
              apply Answering.put rfl rfl
              exact ih fun assets => rest _
            · rw [if_neg isFile, if_neg isFile]
              exact .throwEx rfl _
      · rw [if_neg scheme, if_neg scheme]
        exact .throwEx rfl _

theorem assetMgr_conducts (f : Frame) : Conducts env .assetMgr f (AssetMgr.runSession env f) := by
  intro goal meant
  apply Answering.attempt rfl _ meant fun what same => ⟨what, same⟩
  apply Answering.ofExcept_bind rfl
  intro params decoded
  cases params with
  | some assets =>
      apply makeAssetsAvailable_answering
      intro assets
      apply Answering.ofExcept_bind rfl
      intro result made
      exact .reply rfl (terminal_of_made OpMakeAssetsAvailable.Return made (by decide))
  | none =>
      apply Answering.ofExcept_bind rfl
      intro error made
      exact .reply rfl (terminal_of_made Error made (by decide))

/-- With assets, the session waits for the asset manager's answer. -/
theorem request_answering {wait : Wait} {assets : List AssetInfo} {request : Frame} {splice : String}
    (given : ∀ asset ∈ assets, asset.Given)
    (made : OpMakeAssetsAvailable.Params.frameFrom assets = .ok request) :
    Answering env wait (.busy, true)
      (do
        .perform Op.connect
        let _ ← (.perform (Op.amgrio .poll) : Program Frame)
        .perform (Op.amgrio (.push (← OpMakeAssetsAvailable.Params.frameFrom assets)))
        return .enter (.fetch splice))
      (do
        let request ← OpMakeAssetsAvailable.Params.frameFrom assets
        let (res, _) ← AssetMgr.answer env request
        Dummy.fetched env splice res) := by
  intro goal escapes meant _
  obtain ⟨res, g, answered, settled⟩ := request_answered env splice given made
  have same : g = goal := by
    apply meant
    rw [made]
    simp only [bind, Except.bind, answered, settled, recover]
  rw [made]
  intro _ _
  refine ⟨_, .connect, fun greeting _ => ⟨_, .greet, fun _ _ => ⟨_, .request answered, rfl, res, answered, ?_⟩⟩⟩
  rw [settled, same]

theorem runSession_conducts (f : Frame) : Conducts env .runSession f (Dummy.runSession env f) := by
  intro goal meant
  apply Answering.attempt rfl _ meant fun what same => ⟨what, same⟩
  apply Answering.ofExcept_bind rfl
  intro params decoded
  cases params with
  | none => exact unknownOp_answering f
  | some params =>
      obtain ⟨assets, spliceString, last⟩ := params
      simp only
      cases present : assets.value with
      | none => exact loadModel_answering rfl rfl _
      | some assets =>
          cases assets with
          | nil => exact loadModel_answering rfl rfl _
          | cons asset rest =>
              have given := loadModel_given decoded present
              obtain ⟨request, made⟩ := request_made given
              exact request_answering given made

/-- A frame taken in a loop for the client is answered with what it means. -/
theorem serve_conducts (wait : Wait) (f : Frame) (forClient : wait.forClient = true) :
    Conducts env wait f (serve env wait f) := by
  cases wait with
  | assetMgr => exact assetMgr_conducts f
  | runSession => exact runSession_conducts f
  | runModel model => exact runModel_conducts model f
  | runInstance data => exact runInstance_conducts data f
  | fetch splice => cases forClient

/-- A report of the asset manager is passed on, and its answer still awaited. -/
theorem fetch_progress {request : Frame} {splice : String} {goal : Frame × Wait}
    (pending : Pending env request splice goal) {res : Frame} (progress : Progress.frameIs res = true) :
    Conduct env goal False (.requested request, true) (Dummy.fetch env splice res) := by
  have other : Error.frameOptTo res = .ok none := by
    have op : res.op = "$progress" := by simpa [Kind.frameIs, Progress] using progress
    simp [Kind.frameOptTo, Kind.frameIs, op, Error]
  have meant : ∀ g, recover .runSession (.ok goal) = .ok g → g = goal := fun g same =>
    Except.ok.inj same.symm
  apply Answering.attempt rfl _ meant fun what absurd => by cases absurd
  apply Answering.ofExcept_ok other
  simp only [if_pos progress]
  apply Answering.put rfl progress
  apply Answering.abortCheck rfl rfl
  · exact .await pending
  · exact fun _ _ => ⟨rfl, fun disturbed => by cases disturbed⟩

/-- The asset manager's answer settles the session's. -/
theorem fetch_settled {splice : String} {goal : Frame × Wait} {res : Frame}
    (final : Error.frameIs res = true ∨ OpMakeAssetsAvailable.Return.frameIs res = true)
    (settled : Dummy.fetched env splice res = .ok goal) :
    Conduct env goal False (.settled, true) (Dummy.fetch env splice res) := by
  apply Answering.attempt rfl _ (fun g same => Except.ok.inj (same.symm.trans settled))
    fun what same => nomatch same.symm.trans settled
  apply Answering.ofExcept_bind rfl
  intro error decoded
  cases error with
  | some what => exact .throwEx rfl what
  | none =>
      have returned : OpMakeAssetsAvailable.Return.frameIs res = true := by
        rcases final with error | returned
        · simp only [Kind.frameOptTo, error, if_true] at decoded
          cases map_ok.mp decoded with
          | intro what read => cases read.2
        · exact returned
      have progress : Progress.frameIs res = false := by
        have op : res.op = "make-assets-available" := by
          simpa [Kind.frameIs, OpMakeAssetsAvailable.Return] using returned
        simp [Kind.frameIs, op, Progress]
      simp only [progress, Bool.false_eq_true, if_false]
      apply Answering.ofExcept_bind rfl
      intro assets decoded
      cases assets with
      | some assets => exact loadModel_answering rfl rfl _
      | none =>
          simp only [Kind.frameOptTo, returned, if_true] at decoded
          cases map_ok.mp decoded with
          | intro what read => cases read.2

end Loops

end AlpacaCore.Session
