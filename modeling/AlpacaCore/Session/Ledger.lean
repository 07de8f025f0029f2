import Mathlib.Data.List.Nodup
import Mathlib.Order.RelClasses
import AlpacaCore.Session.Course
import AlpacaCore.Session.Escape

/-!
The terminal frames a session sends, and for which frames of the client.

`Course.step` extends what is known of the session's steps to all steps of the net: a frame
of the client is taken, or the net goes on with what the session has taken, and there is
less left to do. `Ledger` says that each frame the session has taken in a loop has one
terminal frame, in their order, but that the last one may still owe it.
-/

namespace AlpacaCore.Session

open AlpacaCore.Schema
open AlpacaCore.System (Coro)

/-- The terminal frames the session has sent so far. -/
def Net.terminals (n : Net) : List Sent := n.sent.filter fun sent => sent.frame.terminal

/-- The session waits for the next frame of the client. -/
def Net.Waiting (n : Net) : Prop := ∃ wait, n.session = .ret wait ∧ wait.forClient = true

def Stage.Answered (stage : Stage) : Prop := ∃ f, stage = .answered f

/-! ### Steps of the net -/

/-- What is left to do before the answer, by what weighs most. -/
abbrev Remaining : Type := Nat × Nat × Program Wait × Nat × Program Wait × Nat × Nat

def remaining (cfg : Config) (p : Progressed) (n : Net) : Remaining :=
  (p.1.rank, n.toManager.length, n.manager, n.fromManager.length, n.session,
    cfg.sizes.remoteToLocal - n.toService.length, n.toClient.length)

def Less : Remaining → Remaining → Prop :=
  Prod.Lex (· < ·) (Prod.Lex (· < ·) (Prod.Lex Coro.Next
    (Prod.Lex (· < ·) (Prod.Lex Coro.Next (Prod.Lex (· < ·) (· < ·))))))

theorem less_wf : WellFounded Less :=
  Nat.lt_wfRel.wf.prod_lex (Nat.lt_wfRel.wf.prod_lex (Coro.next_wf.prod_lex
    (Nat.lt_wfRel.wf.prod_lex (Coro.next_wf.prod_lex
      (Nat.lt_wfRel.wf.prod_lex Nat.lt_wfRel.wf)))))

/-- The terminal frames grow by the answer, numbered by the frame that was taken. -/
inductive Replies (k : Nat) : Progressed → List Sent → Progressed → List Sent → Prop where
  | same {p p' : Progressed} {terminals : List Sent} (still : p'.1.Answered ↔ p.1.Answered) :
      Replies k p terminals p' terminals
  | answer {stage : Stage} {calm : Bool} {terminals : List Sent} {f : Frame}
      (owed : ¬ stage.Answered) :
      Replies k (stage, calm) terminals (.answered f, calm) (terminals ++ [⟨k, f⟩])

/-- The frames of the client that wait, after some that were taken. -/
inductive Queues (p : Progressed) (n : Net) (p' : Progressed) (n' : Net) : Action → Prop where
  | grows {action : Action} (new : List Frame) (asked : n'.asked = n.asked ++ new)
      (toService : n'.toService = n.toService ++ new) (pushed : new ≠ [] → ∃ f, action = .push f)
      (calm : p'.2 = p.2) : Queues p n p' n' action
  /-- An `Abort_check` takes one. -/
  | grabbed {found : Bool} (f : Frame) (asked : n'.asked = n.asked)
      (toService : n.toService = f :: n'.toService) (calm : p'.2 = false)
      (looks : ∃ next, n.session = .call (.io .get) next) : Queues p n p' n' (.session found)

/-- The net goes on with what the session has taken. -/
structure Continues (cfg : Config) (goal : Frame × Wait) (escapes : Prop) (action : Action)
    (p : Progressed) (n : Net) (p' : Progressed) (n' : Net) : Prop where
  course : Course cfg goal escapes p' n'
  served : n'.served = n.served
  replies : Replies n.serving p n.terminals p' n'.terminals
  queues : Queues p n p' n' action
  less : Less (remaining cfg p' n') (remaining cfg p n)

section Steps

variable {cfg : Config} {goal : Frame × Wait} {escapes : Prop} {p p' : Progressed} {n n' : Net}

theorem terminals_append {new : List Frame} {k : Nat}
    (toClient : n'.toClient = n.toClient ++ new.map (Sent.mk k)) (received : n'.received = n.received) :
    n'.terminals = n.terminals ++ (new.filter Frame.terminal).map (Sent.mk k) := by
  simp only [Net.terminals, Net.sent, toClient, received, ← List.append_assoc, List.filter_append,
    List.filter_map]
  rfl

theorem Sends.replies {new : List Frame} (sends : Sends p new p') (k : Nat) (terminals : List Sent) :
    Replies k p terminals p' (terminals ++ (new.filter Frame.terminal).map (Sent.mk k)) := by
  cases sends with
  | nothing before unanswered =>
      simp only [List.filter_nil, List.map_nil, List.append_nil]
      exact .same ⟨fun ⟨f, same⟩ => absurd same (unanswered f), fun ⟨f, same⟩ => absurd same (before f)⟩
  | interim interim unanswered =>
      simp only [List.filter_cons, interim, Bool.false_eq_true, if_false, List.filter_nil,
        List.map_nil, List.append_nil]
      exact .same Iff.rfl
  | answer terminal unanswered =>
      simp only [List.filter_cons, terminal, if_true, List.filter_nil, List.map_cons, List.map_nil]
      exact .answer fun ⟨f, same⟩ => unanswered f same

theorem Nearer.less (nearer : Nearer p n p' n') : Less (remaining cfg p' n') (remaining cfg p n) := by
  simp only [Less, remaining, Prod.lex_def]
  cases nearer with
  | further rank => exact .inl rank
  | reads rank toManager manager fewer =>
      exact .inr ⟨rank, .inr ⟨by rw [toManager], .inr ⟨manager, .inl fewer⟩⟩⟩
  | goesOn rank toManager manager fromManager next =>
      exact .inr ⟨rank, .inr ⟨by rw [toManager], .inr ⟨manager, .inr ⟨by rw [fromManager], .inl next⟩⟩⟩⟩

theorem Proceeds.continues {new : List Frame} (proceeds : Proceeds cfg goal escapes p n p' new n')
    (found : Bool) : Continues cfg goal escapes (.session found) p n p' n' := by
  refine ⟨proceeds.course, proceeds.served, ?_, ?_, proceeds.nearer.less⟩
  · rw [terminals_append proceeds.toClient proceeds.received]
    exact proceeds.sends.replies n.serving n.terminals
  · rcases proceeds.toService with ⟨same, calm⟩ | ⟨disturbed, ⟨f, next⟩, looks⟩
    · apply Queues.grows [] _ _ (fun absurd => absurd.elim rfl) calm
      · rw [proceeds.asked, List.append_nil]
      · rw [same, List.append_nil]
    · exact .grabbed f proceeds.asked next disturbed looks

/-- What only the client does. -/
theorem unread_less {rank requests replies : Nat} {manager session : Program Wait} {a b : Nat × Nat}
    (fewer : Prod.Lex (· < ·) (· < ·) a b) :
    Less (rank, requests, manager, replies, session, a) (rank, requests, manager, replies, session, b) :=
  .right _ (.right _ (.right _ (.right _ (.right _ fewer))))

/-- What the asset manager does leaves less of its coroutine, or of what it has to read. -/
theorem stepManager_less (stepped : n.stepManager cfg = some n') :
    Less (remaining cfg p n') (remaining cfg p n) := by
  apply Prod.Lex.right
  simp only [Prod.lex_def]
  unfold Net.stepManager at stepped
  split at stepped
  · split at stepped
    · cases stepped
    · rename_i f rest next
      cases stepped
      left
      simp [next]
  · rename_i op next calls
    obtain ⟨⟨r, toManager, fromManager⟩, acted, same⟩ := Option.map_eq_some_iff.mp stepped
    cases same
    have goesOn : Coro.Next (next r) n.manager := by
      rw [calls]
      exact @Coro.Next.next Op Op.Res _ _ (.io op) next r
    have fewer : toManager.length < n.toManager.length ∨ toManager.length = n.toManager.length := by
      cases op <;> simp only [Io.act] at acted <;> split at acted <;> cases acted <;> simp [*]
    rcases fewer with fewer | same
    · exact .inl fewer
    · exact .inr ⟨same, .inl goesOn⟩
  · cases stepped

/-- **The steps of the net.** A frame of the client is taken, or there is less left to do. -/
theorem Course.step {action : Action} (course : Course cfg goal escapes p n)
    (stepped : n.step cfg action = some n') :
    (∃ found wait f, action = .session found ∧ Takes cfg n n' wait f) ∨
      ∃ p', Continues cfg goal escapes action p n p' n' := by
  cases action with
  | push f =>
      right
      obtain ⟨room, same⟩ := pushed stepped
      refine ⟨p, course.push stepped, by rw [same], ?_, ?_, ?_⟩
      · rw [same]
        exact .same Iff.rfl
      · rw [same]
        exact .grows [f] rfl rfl (fun _ => ⟨f, rfl⟩) rfl
      · rw [same]
        have fewer : cfg.sizes.remoteToLocal - (n.toService ++ [f]).length <
            cfg.sizes.remoteToLocal - n.toService.length := by
          rw [List.length_append, List.length_singleton]
          omega
        exact unread_less (.left _ _ fewer)
  | poll =>
      right
      obtain ⟨sent, rest, next, same⟩ := polled stepped
      refine ⟨p, course.poll stepped, by rw [same], ?_, ?_, ?_⟩
      · have terminals : n'.terminals = n.terminals := by
          rw [same]
          simp [Net.terminals, Net.sent, next]
        rw [terminals]
        exact .same Iff.rfl
      · rw [same]
        exact .grows [] (List.append_nil _).symm (List.append_nil _).symm (fun absurd => absurd.elim rfl) rfl
      · rw [same]
        have fewer : rest.length < n.toClient.length := by
          rw [next]
          exact Nat.lt_add_one _
        exact unread_less (.right _ fewer)
  | session found =>
      rcases course.session_step stepped with ⟨wait, f, takes⟩ | ⟨p', new, proceeds⟩
      · exact .inl ⟨found, wait, f, rfl, takes⟩
      · exact .inr ⟨p', proceeds.continues found⟩
  | manager =>
      right
      have serves := stepManager_serves stepped
      refine ⟨p, course.manager_step stepped, serves.served, ?_, ?_, stepManager_less stepped⟩
      · have terminals : n'.terminals = n.terminals := by
          simp only [Net.terminals, Net.sent, serves.received, serves.toClient]
        rw [terminals]
        exact .same Iff.rfl
      · apply Queues.grows []
        · rw [serves.asked, List.append_nil]
        · rw [serves.toService, List.append_nil]
        · exact fun absurd => absurd.elim rfl
        · rfl

end Steps

/-! ### The ledger -/

/-- Each frame the session has taken in a loop has one terminal frame, the last one if it is
answered. -/
structure Ledger (p : Progressed) (n : Net) : Prop where
  answered : p.1.Answered → n.terminals.map Sent.op = n.served
  owed : ¬ p.1.Answered → n.terminals.map Sent.op ++ [n.serving] = n.served
  rising : n.served.Pairwise (· < ·)
  taken : ∀ k ∈ n.served, k ≤ n.taken
  asked : n.toService.length ≤ n.asked.length

section Ledger

variable {cfg : Config} {goal : Frame × Wait} {escapes : Prop} {action : Action}
  {p p' : Progressed} {n n' : Net}

theorem Queues.asked (queues : Queues p n p' n' action) (asked : n.toService.length ≤ n.asked.length) :
    n'.toService.length ≤ n'.asked.length := by
  cases queues with
  | grows new asked' toService' pushed => simpa [asked', toService'] using asked
  | grabbed f asked' toService' =>
      rw [asked']
      rw [toService', List.length_cons] at asked
      omega

/-- A frame is taken out of the channel for good. -/
theorem Queues.taken (queues : Queues p n p' n' action) (asked : n.toService.length ≤ n.asked.length) :
    n.taken ≤ n'.taken := by
  cases queues with
  | grows new asked' toService' pushed =>
      simp only [Net.taken, asked', toService', List.length_append]
      omega
  | grabbed f asked' toService' =>
      simp only [Net.taken, asked', toService', List.length_cons]
      omega

theorem Ledger.continues (ledger : Ledger p n) (continues : Continues cfg goal escapes action p n p' n') :
    Ledger p' n' := by
  have taken : ∀ k ∈ n'.served, k ≤ n'.taken := by
    rw [continues.served]
    exact fun k member => Nat.le_trans (ledger.taken k member) (continues.queues.taken ledger.asked)
  have rising : n'.served.Pairwise (· < ·) := by
    rw [continues.served]
    exact ledger.rising
  have serving : n'.serving = n.serving := by rw [Net.serving, continues.served]; rfl
  have asked := continues.queues.asked ledger.asked
  have replies := continues.replies
  generalize terminals : n.terminals = before at replies
  generalize terminals' : n'.terminals = after at replies
  cases replies with
  | same still =>
      apply Ledger.mk _ _ rising taken asked
      · intro answered
        rw [terminals', continues.served, ← terminals]
        exact ledger.answered (still.mp answered)
      · intro owed
        rw [terminals', continues.served, serving, ← terminals]
        exact ledger.owed fun answered => owed (still.mpr answered)
  | answer unanswered =>
      apply Ledger.mk _ _ rising taken asked
      · intro _
        rw [terminals', continues.served, ← ledger.owed unanswered, terminals, List.map_append]
        rfl
      · exact fun owed => absurd ⟨_, rfl⟩ owed

theorem Course.answered (course : Course cfg goal escapes p n) (waiting : n.Waiting) :
    p.1.Answered := by
  obtain ⟨wait, waits, forClient⟩ := waiting
  have conduct := course.conduct
  rw [waits] at conduct
  obtain ⟨f, answered, -⟩ := ends_forClient conduct forClient
  exact ⟨f, answered⟩

/-- A session that has answered waits for the client. -/
theorem Course.waiting (course : Course cfg goal escapes p n) (answered : p.1.Answered) :
    n.Waiting := by
  obtain ⟨stage, calm⟩ := p
  obtain ⟨f, rfl⟩ := answered
  obtain ⟨wait, waits, forClient, -⟩ := Conduct.of_answered course.conduct
  exact ⟨wait, waits, forClient⟩

/-- The session waited for the client. -/
theorem Takes.answered {wait : Wait} {f : Frame} (takes : Takes cfg n n' wait f)
    (course : Course cfg goal escapes p n) : p.1.Answered :=
  course.answered ⟨wait, takes.waits, takes.forClient⟩

theorem Wait.stage_owed (wait : Wait) : ¬ wait.stage.Answered := by
  rintro ⟨f, same⟩
  cases wait <;> cases same

theorem Takes.taken {wait : Wait} {f : Frame} (takes : Takes cfg n n' wait f)
    (asked : n.toService.length ≤ n.asked.length) : n'.taken = n.taken + 1 := by
  have same : n'.asked = n.asked := by rw [takes.same]
  rw [takes.next, List.length_cons] at asked
  simp only [Net.taken, same, takes.next, List.length_cons]
  omega

theorem Takes.served {wait : Wait} {f : Frame} (takes : Takes cfg n n' wait f) :
    n'.served = n.served ++ [n.taken + 1] := by
  rw [takes.same]

theorem Takes.serving {wait : Wait} {f : Frame} (takes : Takes cfg n n' wait f) :
    n'.serving = n.taken + 1 := by
  simp [Net.serving, takes.served]

theorem Takes.terminals {wait : Wait} {f : Frame} (takes : Takes cfg n n' wait f) :
    n'.terminals = n.terminals := by
  rw [takes.same]
  rfl

theorem Ledger.takes {wait : Wait} {f : Frame} (ledger : Ledger p n)
    (takes : Takes cfg n n' wait f) (answered : p.1.Answered) : Ledger (wait.stage, true) n' := by
  have taken := takes.taken ledger.asked
  apply Ledger.mk
  · exact fun absurd => (wait.stage_owed absurd).elim
  · intro _
    rw [takes.terminals, ledger.answered answered, takes.served, takes.serving]
  · rw [takes.served, List.pairwise_append]
    refine ⟨ledger.rising, List.pairwise_singleton _ _, ?_⟩
    intro k member last same
    obtain rfl := List.mem_singleton.mp same
    exact Nat.lt_succ_of_le (ledger.taken k member)
  · intro k member
    rw [takes.served] at member
    rw [taken]
    rcases List.mem_append.mp member with before | last
    · exact Nat.le_succ_of_le (ledger.taken k before)
    · exact Nat.le_of_eq (List.mem_singleton.mp last)
  · have same : n'.asked = n.asked := by rw [takes.same]
    have asked := ledger.asked
    rw [takes.next, List.length_cons] at asked
    rw [same]
    omega

end Ledger

/-! ### Runs -/

/-- The loop a new session waits in. -/
def Service.wait : Service → Wait
  | .assetMgr => .assetMgr
  | .dummy => .runSession

/-- What it sends before. -/
def Service.greeting : Service → Frame
  | .assetMgr => ⟨StateChange.id, .string assetMgrState⟩
  | .dummy => ⟨StateChange.id, .string stateDummy⟩

theorem createSession_eq (service : Service) :
    service.createSession = .call (.io (.push service.greeting)) fun _ => .ret service.wait := by
  cases service <;> rfl

theorem start_course (cfg : Config) (service : Service) :
    Course cfg (service.greeting, service.wait) False (.busy, true) (.start service) := by
  constructor
  · change Conduct _ _ _ _ service.createSession
    rw [createSession_eq]
    intro r _
    refine ⟨_, .answer rfl ?_, ?_, fun _ => rfl⟩
    · cases service <;> rfl
    · cases service <;> rfl
  · exact .apart ⟨nofun, nofun, nofun⟩

theorem start_ledger (service : Service) : Ledger (.busy, true) (.start service) := by
  apply Ledger.mk
  · rintro ⟨f, absurd⟩
    cases absurd
  · exact fun _ => rfl
  · exact List.pairwise_singleton _ _
  · intro k member
    obtain rfl := List.mem_singleton.mp member
    exact Nat.le_refl 0
  · exact Nat.le_refl 0

theorem Kind.Mistyped.frameOptTo {kind : Kind} {f : Frame} (mistyped : kind.Mistyped f) :
    ∃ what, kind.frameOptTo f = .error (.json what) :=
  Fit.of_eq_mistyped.mp ((of_frameOptTo kind f).mpr mistyped)

/-- The session is gone at once. -/
theorem serve_mistyped (env : Env) {wait : Wait} {f : Frame} (mistyped : wait.Mistyped f)
    (forClient : wait.forClient = true) : ∃ what, serve env wait f = .throw (.json what) := by
  obtain ⟨kind, member, mistyped⟩ := mistyped
  obtain ⟨what, decoded⟩ := mistyped.frameOptTo
  refine ⟨what, ?_⟩
  cases wait with
  | assetMgr =>
      obtain rfl := List.mem_singleton.mp member
      simp only [serve, AssetMgr.runSession, decoded]
      rfl
  | runSession =>
      obtain rfl := List.mem_singleton.mp member
      simp only [serve, Dummy.runSession, decoded]
      rfl
  | runModel model =>
      obtain rfl := List.mem_singleton.mp member
      simp only [serve, Dummy.runModel, decoded]
      rfl
  | runInstance data =>
      simp only [Wait.kinds, List.mem_cons, List.not_mem_nil, or_false] at member
      rcases member with rfl | rfl
      · simp only [serve, Dummy.runInstance, decoded]
        rfl
      · have op : f.op = "stream" := by simpa [Kind.frameIs, OpStream.Params] using mistyped.1
        have other : OpRun.Params.frameOptTo f = .ok none := by
          simp [Kind.frameOptTo, Kind.frameIs, OpRun.Params, op]
        simp only [serve, Dummy.runInstance, other, decoded]
        rfl
  | fetch splice => cases forClient

end AlpacaCore.Session
