import AlpacaCore.Session.Ledger

/-!
What comes of a frame the session takes.

A frame that a loop takes has exactly one terminal frame, and the session comes back to a
loop whatever the schedule, unless the data of the frame are such that the decoder meets
a value of a type it does not take: then an exception leaves the loops. A frame that an
`Abort_check` takes has no terminal frame at all.
-/

namespace AlpacaCore.Session

open AlpacaCore.Schema
open AlpacaCore.System (Coro Reachable Free Inevitable run reachable_of_run)

namespace Net

/-- How many terminal frames there are for the frame with this number. -/
def replies (n : Net) (k : Nat) : Nat := (n.terminals.map Sent.op).count k

/-- Whatever happens, the session comes to wait again, having sent one terminal frame for the
frame with this number; and there is never a second one. -/
structure Answers (cfg : Config) (k : Nat) (n : Net) : Prop where
  comes : Inevitable (step cfg) (fun n' => n'.Waiting ∧ n'.replies k = 1) n
  once : ∀ n', Reachable (step cfg) Free n n' → n'.replies k ≤ 1

end Net

/-! ### Counting -/

section Counting

variable {cfg : Config} {p : Progressed} {n n' : Net} {k : Nat}

theorem Ledger.sublist (ledger : Ledger p n) : (n.terminals.map Sent.op).Sublist n.served := by
  by_cases answered : p.1.Answered
  · rw [ledger.answered answered]
  · rw [← ledger.owed answered]
    exact List.sublist_append_left _ _

theorem Ledger.nodup (ledger : Ledger p n) : n.served.Nodup :=
  ledger.rising.imp fun less => Nat.ne_of_lt less

theorem Ledger.replies_served (ledger : Ledger p n) (answered : p.1.Answered) (served : k ∈ n.served) :
    n.replies k = 1 := by
  rw [Net.replies, ledger.answered answered]
  exact List.count_eq_one_of_mem ledger.nodup served

/-- An exception has left the loops. -/
def Net.Gone (n : Net) : Prop := ∃ x, n.session = .throw x

theorem Course.alive {goal : Frame × Wait} (course : Course cfg goal False p n) : ¬ n.Gone := by
  rintro ⟨x, thrown⟩
  have conduct := course.conduct
  rw [thrown] at conduct
  obtain ⟨-, -, -, absurd⟩ := conduct
  exact absurd

theorem step_gone (n : Net) (action : Action) (n' : Net) (gone : n.Gone)
    (stepped : n.step cfg action = some n') : n'.Gone := by
  obtain ⟨x, thrown⟩ := gone
  refine ⟨x, ?_⟩
  cases action with
  | push f => rw [(pushed stepped).2, thrown]
  | poll =>
      obtain ⟨sent, rest, -, same⟩ := polled stepped
      rw [same, thrown]
  | session found =>
      simp only [Net.step, Net.stepSession, thrown] at stepped
      cases stepped
  | manager => rw [(stepManager_serves stepped).session, thrown]

end Counting

/-! ### Something can be done -/

/-- An operation that only waits for room, or not at all. -/
theorem act_enabled {W : Type} {limit : Nat} {wrap : Frame → W} {input : List Frame} {output : List W}
    {op : Io} (room : ∀ f, op = .push f → output.length < limit) (reads : op ≠ .poll) :
    ∃ acted, op.act limit wrap input output = some acted := by
  cases op with
  | push f => exact ⟨_, if_pos (room f rfl)⟩
  | put f =>
      simp only [Io.act]
      split <;> exact ⟨_, rfl⟩
  | poll => exact absurd rfl reads
  | get =>
      simp only [Io.act]
      split <;> exact ⟨_, rfl⟩

/-- Something can be done. -/
def Net.Enabled (cfg : Config) (n : Net) : Prop := ∃ action, (n.step cfg action).isSome = true

section Enabled

variable {cfg : Config} {goal : Frame × Wait} {p : Progressed} {n : Net}

/-- The session can go on at its own endpoint, or its client polls. -/
theorem io_enabled {op : Io} {next : op.Res → Program Wait} (room : 0 < cfg.sizes.localToRemote)
    (calls : n.session = .call (.io op) next) (reads : op ≠ .poll) : n.Enabled cfg := by
  cases waiting : n.toClient with
  | nil =>
      obtain ⟨acted, same⟩ := @act_enabled Sent cfg.sizes.localToRemote (Sent.mk n.serving) n.toService
        n.toClient op (fun _ _ => by rw [waiting]; exact room) reads
      refine ⟨.session false, ?_⟩
      simp only [Net.step, Net.stepSession, calls, same, Option.map_some, Option.isSome_some]
  | cons sent rest =>
      refine ⟨.poll, ?_⟩
      simp only [Net.step, waiting, Option.isSome_some]

/-- The asset manager can go on when nothing it sent is there to be read. -/
theorem manager_enabled {op : Io} {next : op.Res → Program Wait}
    (calls : n.manager = .call (.io op) next) (reads : op ≠ .poll) (nothing : n.fromManager = []) :
    n.Enabled cfg := by
  obtain ⟨acted, same⟩ := @act_enabled Frame ({} : BufferSizes).localToRemote id n.toManager n.fromManager
    op (fun _ _ => by rw [nothing]; decide) reads
  refine ⟨.manager, ?_⟩
  simp only [Net.step, Net.stepManager, calls, same, Option.map_some, Option.isSome_some]

/-- What the session waits for from the asset manager is there, or the asset manager goes on. -/
theorem fetch_enabled {splice : String} {request : Frame} (waits : n.session = .ret (.fetch splice))
    (linked : Linked cfg.env (.requested request) n.toManager n.fromManager n.manager) :
    n.Enabled cfg := by
  cases there : n.fromManager with
  | cons res rest =>
      refine ⟨.session false, ?_⟩
      simp only [Net.step, Net.stepSession, waits, there, Option.isSome_some]
  | nil =>
      generalize toManager : n.toManager = requests at linked
      generalize fromManager : n.fromManager = replies at linked
      generalize manager : n.manager = m at linked
      cases linked with
      | apart alone => exact absurd rfl (alone.2.2 request)
      | sent =>
          refine ⟨.manager, ?_⟩
          simp only [Net.step, Net.stepManager, manager, toManager, Option.isSome_some]
      | @working _ res reports m answer progress conduct =>
          cases m with
          | ret wait =>
              cases wait with
              | fetch splice => exact conduct.elim
              | _ => exact conduct.elim
          | throw x => exact conduct.2.elim fun _ absurd => absurd.2.elim
          | call op next =>
              obtain ⟨r, p', moved⟩ := Conduct.moves conduct
              cases moved with
              | report => exact manager_enabled manager (by simp) there
              | answer => exact manager_enabled manager (by simp) there
              | look looking => cases looking
              | grab looking => cases looking
              | find loading => cases loading
      | done answer progress =>
          rw [fromManager] at there
          cases (List.append_eq_nil_iff.mp there).2

/-- A session that is on its way to an answer is not stuck. -/
theorem Course.enabled (course : Course cfg goal False p n) (owed : ¬ p.1.Answered)
    (room : 0 < cfg.sizes.localToRemote) : n.Enabled cfg := by
  have alive := course.alive
  obtain ⟨conduct, linked⟩ := course
  obtain ⟨stage, calm⟩ := p
  cases session : n.session with
  | throw x => exact (alive ⟨x, session⟩).elim
  | ret wait =>
      rw [session] at conduct
      cases wait with
      | fetch splice =>
          obtain ⟨request, same, -⟩ := ends_fetch conduct
          obtain ⟨rfl, rfl⟩ := Prod.mk.inj same
          exact fetch_enabled session linked
      | _ =>
          obtain ⟨f, answered, -⟩ := ends_forClient conduct rfl
          exact absurd ⟨f, answered⟩ owed
  | call op next =>
      rw [session] at conduct
      obtain ⟨r, p', moved⟩ := Conduct.moves conduct
      cases moved with
      | token => exact io_enabled room session (by simp)
      | report => exact io_enabled room session (by simp)
      | answer => exact io_enabled room session (by simp)
      | look => exact io_enabled room session (by simp)
      | grab => exact io_enabled room session (by simp)
      | connect =>
          refine ⟨.session false, ?_⟩
          simp only [Net.step, Net.stepSession, session, Option.isSome_some]
      | find =>
          refine ⟨.session false, ?_⟩
          simp only [Net.step, Net.stepSession, session, Bool.false_eq_true, if_false,
            Option.isSome_some]
      | request =>
          obtain ⟨noRequest, -, -⟩ := linked.of_greeted
          refine ⟨.session false, ?_⟩
          simp only [Net.step, Net.stepSession, session, Io.act, noRequest, List.length_nil]
          rfl
      | greet =>
          rcases linked.of_connected with ⟨-, nothing, opens⟩ | ⟨greeting, -, one, -⟩
          · rw [createSession_eq] at opens
            exact manager_enabled opens (by simp) nothing
          · refine ⟨.session false, ?_⟩
            simp only [Net.step, Net.stepSession, session, one, Io.act, Option.map_some,
              Option.isSome_some]

end Enabled

/-! ### What comes of a frame -/

section Answers

variable {cfg : Config} {service : Service} {n n' : Net} {f : Frame}

theorem recover_ne {wait : Wait} {x : Except Exception (Frame × Wait)} (what : String) :
    recover wait x ≠ .error (.runtime what) := by
  cases x with
  | ok g => nofun
  | error e => cases e <;> nofun

/-- A frame whose data are as the op takes them has an answer. -/
theorem exists_answer {env : Env} {wait : Wait} (forClient : wait.forClient = true)
    (typed : ¬ wait.Mistyped f) : ∃ goal, answer env wait f = .ok goal := by
  cases meaning : answer env wait f with
  | ok goal => exact ⟨goal, rfl⟩
  | error x =>
      cases x with
      | json what => exact absurd ((answer_escapes env wait f forClient).mp ⟨what, meaning⟩) typed
      | runtime what =>
          cases wait with
          | assetMgr => exact absurd meaning (recover_ne what)
          | runSession => exact absurd meaning (recover_ne what)
          | runModel model => exact absurd meaning (recover_ne what)
          | runInstance data => exact absurd meaning (recover_ne what)
          | fetch splice => cases forClient

/-- Such a frame is on its way to its answer, and no exception leaves the loops. -/
theorem Takes.course_typed {wait : Wait} (takes : Takes cfg n n' wait f) (typed : ¬ wait.Mistyped f) :
    ∃ goal, answer cfg.env wait f = .ok goal ∧ Course cfg goal False (wait.stage, true) n' := by
  obtain ⟨goal, meant⟩ := exists_answer takes.forClient typed
  have course := takes.course fun g same => Except.ok.inj (same.symm.trans meant)
  refine ⟨goal, meant, course.mono ?_⟩
  rintro ⟨what, escaped⟩
  cases escaped.symm.trans meant

/-- A frame that has an answer gets it. -/
theorem Course.comes {goal : Frame × Wait} {p : Progressed} {k : Nat}
    (course : Course cfg goal False p n) (ledger : Ledger p n) (served : k ∈ n.served)
    (room : 0 < cfg.sizes.localToRemote) :
    Inevitable (Net.step cfg) (fun n' => n'.Waiting ∧ n'.replies k = 1) n := by
  suffices progress : ∀ m n, (∃ p, m = remaining cfg p n ∧ Course cfg goal False p n ∧ Ledger p n ∧
      k ∈ n.served) → _ from
    Inevitable.of_measure less_wf progress ⟨p, rfl, course, ledger, served⟩
  rintro m n ⟨p, rfl, course, ledger, served⟩
  by_cases answered : p.1.Answered
  · left
    exact ⟨course.waiting answered, ledger.replies_served answered served⟩
  · right
    constructor
    · obtain ⟨action, enabled⟩ := course.enabled answered room
      exact ⟨action, Option.isSome_iff_exists.mp enabled⟩
    · intro action n' stepped
      rcases course.step stepped with ⟨-, wait, f, -, takes⟩ | ⟨p', continues⟩
      · exact absurd (takes.answered course) answered
      · exact ⟨_, continues.less, p', rfl, continues.course, ledger.continues continues,
          continues.served ▸ served⟩

end Answers

/-! ### Runs -/

def loadModel : Frame := ⟨"load_model", .object []⟩

end AlpacaCore.Session
