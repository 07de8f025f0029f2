import AlpacaCore.Session.Course

/-!
`BlockingIoHelper`, and which frames its operations consume.

`call` and `stream` push an op and poll what comes. They rely on the channel being empty
when they start, and not every operation leaves it so: a stream that does not complete
normally pushes an `Abort` and takes nothing of what the session still sends, and a call
polls one frame, be it the answer or not. As long as no operation follows such a one, or is
issued while a generator is suspended, each consumes its own frames only.
-/

namespace AlpacaCore.Session

open AlpacaCore.Schema
open AlpacaCore.System (Reachable Free run reachable_of_meets reachable_of_run)

/-- An op as the templates of the helper see it: `OpParams<Op>` and `OpReturn<Op>`. -/
structure Operation where
  Params : Kind
  Return : Kind

/-- A `stream` that has started; the number is that of the frame it has pushed, which the code
does not keep. -/
structure Generator where
  op : Operation
  out : Kind
  number : Nat

/-- What the helper is in the middle of. -/
inductive Helper where
  | idle
  /-- `call` polls; the number is that of the frame it has pushed -/
  | calling (op : Operation) (number : Nat)
  /-- `stream` polls -/
  | streaming (g : Generator)
  /-- `abortSentry` pushes -/
  | aborting

/-- What the loop of `stream` makes of a frame. -/
inductive Streamed (op : Operation) (out : Kind) where
  | item (value : out.Value)
  | completed (value : op.Return.Value)

def frameErrorCheck (f : Frame) : Except Exception Unit := do
  let err : Option String ← Error.frameOptTo f
  match err with
  | some what => throw (.runtime ("error: " ++ what))
  | none => return ()

/-- What `call` returns for the frame that it polls. -/
def Operation.called (op : Operation) (f : Frame) : Except Exception op.Return.Value := do
  frameErrorCheck f
  op.Return.frameTo f

/-- The body of the loop of `stream`. -/
def Operation.streamed (op : Operation) (out : Kind) (f : Frame) :
    Except Exception (Streamed op out) := do
  frameErrorCheck f
  match ← out.frameOptTo f with
  | some value => return .item value
  | none =>
      match ← op.Return.frameOptTo f with
      | some value => return .completed value
      | none => throw (.runtime ("unexpected frame: " ++ f.op))

/-- What the helper does with a frame it has polled, and the generator that is suspended. A
call is over then, whether it returns or throws; a stream that throws comes to the sentry. -/
def Helper.polled : Helper → Frame → Option (Helper × List Generator)
  | .calling op _, f =>
      match op.called f with
      | .ok _ => some (.idle, [])
      | .error _ => some (.idle, [])
  | .streaming g, f =>
      match g.op.streamed g.out f with
      | .ok (.item _) => some (.idle, [g])
      | .ok (.completed _) => some (.idle, [])
      | .error _ => some (.aborting, [])
  | _, _ => none

/-- The number of the frame the operation that polls has pushed. -/
def Helper.number : Helper → Nat
  | .calling _ number => number
  | .streaming g => g.number
  | _ => 0

/-- The operation is over, and its answer has not ended. -/
def leaves : Helper × List Generator → Frame → Bool
  | (.idle, []), f => !f.terminal
  | _, _ => false

structure Talk where
  net : Net
  helper : Helper
  /-- the generators that have yielded -/
  suspended : List Generator
  /-- The frames polled so far, each with the number of the operation that polled it. The code
  does not keep them. -/
  consumed : List (Nat × Sent)
  /-- An operation was over before its answer ended, or pushed an `Abort`. -/
  left : Bool

inductive TalkAction where
  | call (op : Operation) (params : op.Params.Value)
  /-- a generator is made and resumed for the first time -/
  | stream (op : Operation) (out : Kind) (params : op.Params.Value)
  /-- the frame that is there is polled -/
  | poll
  /-- the generator is resumed -/
  | next (i : Nat)
  /-- the generator is destroyed -/
  | destroy (i : Nat)
  /-- the sentry's push gets through -/
  | abort
  | session (found : Bool)
  | manager

namespace Talk

/-- A session that waits in this loop, its client having polled all it has sent. -/
def start (wait : Wait) : Talk :=
  ⟨⟨[], [], [], [], .ret wait, .ret .assetMgr, [], [], [0]⟩, .idle, [], [], false⟩

/-- `initiate`; an exception of the encoder leaves everything as it was. -/
def initiate (cfg : Config) (t : Talk) (op : Operation) (params : op.Params.Value)
    (helper : Nat → Helper) : Option Talk :=
  match op.Params.frameFrom params with
  | .error _ => some t
  | .ok f => (t.net.step cfg (.push f)).map fun net =>
      { t with net, helper := helper net.asked.length }

/-- The frame that is there is consumed. -/
def consume (cfg : Config) (t : Talk) (sent : Sent) (after : Helper × List Generator) : Option Talk :=
  (t.net.step cfg .poll).map fun net => { t with
    net
    helper := after.1
    suspended := t.suspended ++ after.2
    consumed := t.consumed ++ [(t.helper.number, sent)]
    left := t.left || leaves after sent.frame }

def step (cfg : Config) (t : Talk) : TalkAction → Option Talk
  | .call op params =>
      match t.helper with
      | .idle => t.initiate cfg op params (.calling op)
      | _ => none
  | .stream op out params =>
      match t.helper with
      | .idle => t.initiate cfg op params fun number => .streaming ⟨op, out, number⟩
      | _ => none
  | .poll =>
      match t.net.toClient with
      | [] => none
      | sent :: _ => (t.helper.polled sent.frame).bind (t.consume cfg sent)
  | .next i =>
      match t.helper, t.suspended[i]? with
      | .idle, some g => some { t with helper := .streaming g, suspended := t.suspended.eraseIdx i }
      | _, _ => none
  | .destroy i =>
      match t.helper, t.suspended[i]? with
      | .idle, some _ => some { t with helper := .aborting, suspended := t.suspended.eraseIdx i }
      | _, _ => none
  | .abort =>
      match t.helper with
      | .aborting => (t.net.step cfg (.push ⟨Abort.id, .null⟩)).map fun net =>
          { t with net, helper := .idle, left := true }
      | _ => none
  | .session found => (t.net.step cfg (.session found)).map fun net => { t with net }
  | .manager => (t.net.step cfg .manager).map fun net => { t with net }

example : Abort.frameFrom () = .ok ⟨Abort.id, .null⟩ := rfl

/-- No operation is issued while a generator is suspended, or after an operation that left
something behind. -/
def Settled (t : Talk) : TalkAction → Prop
  | .call _ _ => t.left = false ∧ t.suspended.length = 0
  | .stream _ _ _ => t.left = false ∧ t.suspended.length = 0
  | _ => True

instance (t : Talk) : (action : TalkAction) → Decidable (t.Settled action)
  | .call _ _ => inferInstanceAs (Decidable (_ ∧ _))
  | .stream _ _ _ => inferInstanceAs (Decidable (_ ∧ _))
  | .poll | .next _ | .destroy _ | .abort | .session _ | .manager => .isTrue trivial

/-- Each operation consumes what the session sent for it. -/
def OwnFrames (t : Talk) : Prop := ∀ k sent, (k, sent) ∈ t.consumed → sent.op = k

/-! ### What is in flight -/

/-- What is in flight for the operation with this number while its answer is awaited. -/
inductive Flight (op : Nat) (p : Progressed) (n : Net) : Prop where
  /-- The session has yet to take the op. -/
  | asked {f : Frame} (answered : ∃ f, p.1 = .answered f) (next : n.toService = [f])
      (nothing : n.toClient = []) (number : n.taken + 1 = op)
  /-- Nothing comes after what ends the answer. -/
  | underway (taken : n.toService = []) (serving : n.serving = op)
      (own : ∀ sent ∈ n.toClient, sent.op = op)
      (interim : ∀ sent ∈ n.toClient.dropLast, sent.frame.terminal = false)
      (owed : (∀ f, p.1 ≠ .answered f) → ∀ sent ∈ n.toClient, sent.frame.terminal = false) :
      Flight op p n

/-- The operation with this number waits for more of its answer. -/
inductive Active (number : Nat) : Helper → List Generator → Prop where
  | calling {op : Operation} : Active number (.calling op number) []
  | streaming {g : Generator} (own : g.number = number) : Active number (.streaming g) []
  | yielded {g : Generator} (own : g.number = number) : Active number .idle [g]

/-- Nothing is in flight between two operations, unless one left something. -/
inductive Phase (cfg : Config) : Helper → List Generator → Bool → Net → Prop where
  | quiet {p : Progressed} {goal : Frame × Wait} {n : Net} (course : Course cfg goal True p n)
      (answered : ∃ f, p.1 = .answered f) (taken : n.toService = []) (nothing : n.toClient = []) :
      Phase cfg .idle [] false n
  | waiting {helper : Helper} {suspended : List Generator} {number : Nat} {p : Progressed}
      {goal : Frame × Wait} {n : Net} (active : Active number helper suspended)
      (course : Course cfg goal True p n) (flight : Flight number p n) :
      Phase cfg helper suspended false n
  | aborting {left : Bool} {n : Net} : Phase cfg .aborting [] left n
  | finished {n : Net} : Phase cfg .idle [] true n

/-- The invariant of the talk. -/
structure Orderly (cfg : Config) (t : Talk) : Prop where
  own : OwnFrames t
  phase : Phase cfg t.helper t.suspended t.left t.net

section Steps

variable {cfg : Config} {helper : Helper} {suspended : List Generator} {left : Bool} {op : Nat}
  {n n' : Net}

theorem Flight.session {p : Progressed} {goal : Frame × Wait} {found : Bool}
    (course : Course cfg goal True p n) (flight : Flight op p n)
    (stepped : n.stepSession cfg found = some n') :
    ∃ p' goal', Course cfg goal' True p' n' ∧ Flight op p' n' := by
  rcases course.session_step stepped with ⟨wait, f, takes⟩ | ⟨p', new, proceeds⟩
  · cases flight with
    | asked answered next nothing number =>
        obtain ⟨goal', meant⟩ := exists_goal cfg.env wait f
        have taken : n'.toService = [] := by
          rw [takes.next] at next
          exact (List.cons.inj next).2
        have toClient : n'.toClient = [] := by rw [takes.same]; exact nothing
        refine ⟨_, goal', (takes.course meant).mono fun _ => trivial, .underway taken ?_ ?_ ?_ ?_⟩
        · rw [takes.same]
          simpa [Net.serving] using number
        · rw [toClient]; nofun
        · rw [toClient]; nofun
        · rw [toClient]; nofun
    | underway taken =>
        cases taken.symm.trans takes.next
  · refine ⟨p', goal, proceeds.course, ?_⟩
    cases flight with
    | asked answered =>
        obtain ⟨f, answered⟩ := answered
        exact absurd answered (proceeds.sends.unanswered f)
    | underway taken serving own interim owed =>
        have taken' : n'.toService = [] := by
          rcases proceeds.toService with ⟨same, -⟩ | ⟨-, ⟨f, next⟩, -⟩
          · rw [same, taken]
          · cases taken.symm.trans next
        have interim' : ∀ sent ∈ n.toClient, sent.frame.terminal = false :=
          owed proceeds.sends.unanswered
        have own' : ∀ sent ∈ n'.toClient, sent.op = op := by
          rw [proceeds.toClient]
          intro sent member
          rcases List.mem_append.mp member with before | last
          · exact own sent before
          · obtain ⟨f, -, rfl⟩ := List.mem_map.mp last
            exact serving
        have serving' : n'.serving = op := by rw [Net.serving, proceeds.served]; exact serving
        have toClient := proceeds.toClient
        cases proceeds.sends with
        | nothing before unanswered =>
            rw [List.map_nil, List.append_nil] at toClient
            apply Flight.underway taken' serving' own'
            · rw [toClient]; exact interim
            · rw [toClient]; exact fun _ => interim'
        | interim nonterminal unanswered =>
            have all : ∀ sent ∈ n'.toClient, sent.frame.terminal = false := by
              rw [toClient]
              intro sent member
              rcases List.mem_append.mp member with before | last
              · exact interim' sent before
              · obtain rfl := List.mem_singleton.mp last
                exact nonterminal
            exact .underway taken' serving' own' (fun sent member =>
              all sent (List.dropLast_subset _ member)) fun _ => all
        | answer terminal unanswered =>
            apply Flight.underway taken' serving' own'
            · rw [toClient, List.map_singleton, List.dropLast_concat]
              exact interim'
            · exact fun absurd => (absurd _ rfl).elim

theorem Phase.session {found : Bool} (phase : Phase cfg helper suspended left n)
    (stepped : n.stepSession cfg found = some n') : Phase cfg helper suspended left n' := by
  cases phase with
  | quiet course answered taken nothing =>
      obtain ⟨f, answered⟩ := answered
      rcases course.session_step stepped with ⟨wait, f, takes⟩ | ⟨p', new, proceeds⟩
      · cases taken.symm.trans takes.next
      · exact absurd answered (proceeds.sends.unanswered f)
  | waiting active course flight =>
      obtain ⟨p', goal', course', flight'⟩ := flight.session course stepped
      exact .waiting active course' flight'
  | aborting => exact .aborting
  | finished => exact .finished

theorem Phase.manager (phase : Phase cfg helper suspended left n)
    (stepped : n.stepManager cfg = some n') : Phase cfg helper suspended left n' := by
  have serves := stepManager_serves stepped
  cases phase with
  | quiet course answered taken nothing =>
      exact .quiet (course.manager_step stepped) answered (by rw [serves.toService, taken])
        (by rw [serves.toClient, nothing])
  | waiting active course flight =>
      apply Phase.waiting active (course.manager_step stepped)
      cases flight with
      | asked answered next nothing number =>
          apply Flight.asked answered (by rw [serves.toService, next])
            (by rw [serves.toClient, nothing])
          rw [Net.taken, serves.asked, serves.toService]
          exact number
      | underway taken serving own interim owed =>
          apply Flight.underway (by rw [serves.toService, taken])
          · rw [Net.serving, serves.served]; exact serving
          · rw [serves.toClient]; exact own
          · rw [serves.toClient]; exact interim
          · rw [serves.toClient]; exact owed
  | aborting => exact .aborting
  | finished => exact .finished

/-- An operation that starts when nothing is in flight. -/
theorem Phase.issue (phase : Phase cfg .idle [] false n) {f : Frame}
    (stepped : n.step cfg (.push f) = some n') (active : Active n'.asked.length helper []) :
    Phase cfg helper [] false n' := by
  cases phase with
  | quiet course answered taken nothing =>
      apply Phase.waiting active (course.push stepped)
      rw [(pushed stepped).2]
      apply Flight.asked answered
      · rw [taken, List.nil_append]
      · exact nothing
      · simp [Net.taken, taken]
  | waiting active => cases active

/-- The rest of what is on the way to the client. -/
theorem Flight.poll {p : Progressed} {sent : Sent} {rest : List Sent} (flight : Flight op p n)
    (next : n.toClient = sent :: rest) :
    sent.op = op ∧ Flight op p { n with toClient := rest, received := n.received ++ [sent] } := by
  cases flight with
  | asked answered unserved nothing => cases nothing.symm.trans next
  | underway taken serving own interim owed =>
      rw [next] at own interim owed
      constructor
      · exact own sent List.mem_cons_self
      · apply Flight.underway
        · exact taken
        · exact serving
        · exact fun sent' member => own sent' (List.mem_cons_of_mem _ member)
        · intro sent' member
          apply interim
          cases rest with
          | nil => cases member
          | cons second rest => exact List.mem_cons_of_mem _ member
        · exact fun unanswered sent' member => owed unanswered sent' (List.mem_cons_of_mem _ member)

/-- Nothing is in flight after what ends the answer. -/
theorem Flight.last {p : Progressed} {sent : Sent} {rest : List Sent} (flight : Flight op p n)
    (next : n.toClient = sent :: rest) (terminal : sent.frame.terminal = true) :
    n.toService = [] ∧ rest = [] ∧ ∃ f, p.1 = .answered f := by
  cases flight with
  | asked answered unserved nothing => cases nothing.symm.trans next
  | underway taken serving own interim owed =>
      rw [next] at interim owed
      refine ⟨taken, ?_, ?_⟩
      · cases rest with
        | nil => rfl
        | cons second rest => cases terminal.symm.trans (interim sent List.mem_cons_self)
      · by_contra unanswered
        rw [not_exists] at unanswered
        cases terminal.symm.trans (owed unanswered sent List.mem_cons_self)

/-- What is polled is for the operation that polls. -/
theorem Phase.poll {sent : Sent} {rest : List Sent} {after : Helper × List Generator}
    (phase : Phase cfg helper suspended left n) (next : n.toClient = sent :: rest)
    (polled : helper.polled sent.frame = some after) (stepped : n.step cfg .poll = some n') :
    sent.op = helper.number ∧
      Phase cfg after.1 (suspended ++ after.2) (left || leaves after sent.frame) n' := by
  have same : n' = { n with toClient := rest, received := n.received ++ [sent] } := by
    simp only [Net.step, next, Option.some.injEq] at stepped
    exact stepped.symm
  cases phase with
  | quiet => cases polled
  | aborting => cases polled
  | finished => cases polled
  | @waiting _ _ number p goal _ active course flight =>
      obtain ⟨own, flight'⟩ := flight.poll next
      rw [← same] at flight'
      -- the operation is over, with its answer or before it
      have ended : Phase cfg .idle [] (!sent.frame.terminal) n' := by
        cases terminal : sent.frame.terminal with
        | false => exact .finished
        | true =>
            obtain ⟨taken, nothing, answered⟩ := flight.last next terminal
            exact .quiet (course.poll stepped) answered (by rw [same, taken]) (by rw [same, nothing])
      cases active with
      | calling =>
          simp only [Helper.polled] at polled
          split at polled
          · cases polled
            exact ⟨own, ended⟩
          · cases polled
            exact ⟨own, ended⟩
      | yielded => cases polled
      | @streaming g number =>
          constructor
          · exact own.trans number.symm
          · simp only [Helper.polled] at polled
            split at polled
            · cases polled
              exact .waiting (.yielded number) (course.poll stepped) flight'
            · cases polled
              exact ended
            · cases polled
              exact .aborting

/-- A generator is suspended only when no other operation is in progress. -/
theorem Phase.generator {i : Nat} {g : Generator} (phase : Phase cfg .idle suspended left n)
    (there : suspended[i]? = some g) :
    suspended.eraseIdx i = [] ∧ Phase cfg (.streaming g) [] left n := by
  cases phase with
  | quiet => cases there
  | finished => cases there
  | waiting active course flight =>
      cases active with
      | @yielded g' number =>
          cases i with
          | zero =>
              cases there
              exact ⟨rfl, .waiting (.streaming number) course flight⟩
          | succ i => cases there

theorem Phase.aborts (phase : Phase cfg .aborting suspended left n) : suspended = [] := by
  cases phase with
  | waiting active => cases active
  | aborting => rfl

end Steps

theorem start_orderly (cfg : Config) {wait : Wait} (forClient : wait.forClient = true) :
    Orderly cfg (start wait) := by
  have course : Course cfg (⟨"", .null⟩, wait) True (.answered ⟨"", .null⟩, false) (start wait).net :=
    ⟨⟨forClient, nofun⟩, .apart ⟨nofun, nofun, nofun⟩⟩
  exact ⟨nofun, .quiet course ⟨_, rfl⟩ rfl rfl⟩

theorem initiate_orderly {cfg : Config} {t t' : Talk} {op : Operation} {params : op.Params.Value}
    {helper : Nat → Helper} (orderly : Orderly cfg t) (idle : t.helper = .idle)
    (settled : t.left = false ∧ t.suspended.length = 0)
    (active : ∀ number, Active number (helper number) [])
    (stepped : t.initiate cfg op params helper = some t') : Orderly cfg t' := by
  unfold initiate at stepped
  split at stepped
  · exact Option.some.inj stepped ▸ orderly
  · obtain ⟨net, pushed, rfl⟩ := Option.map_eq_some_iff.mp stepped
    have none := List.length_eq_zero_iff.mp settled.2
    have phase := orderly.phase
    rw [idle, settled.1, none] at phase
    constructor
    · exact orderly.own
    · simp only [settled.1, none]
      exact phase.issue pushed (active _)

theorem step_orderly {cfg : Config} (t : Talk) (action : TalkAction) (t' : Talk)
    (orderly : Orderly cfg t) (settled : Settled t action) (stepped : step cfg t action = some t') :
    Orderly cfg t' := by
  have phase := orderly.phase
  cases action with
  | call op params =>
      simp only [step] at stepped
      split at stepped
      · rename_i idle
        exact initiate_orderly orderly idle settled (fun _ => .calling) stepped
      · cases stepped
  | stream op out params =>
      simp only [step] at stepped
      split at stepped
      · rename_i idle
        exact initiate_orderly orderly idle settled (fun _ => .streaming rfl) stepped
      · cases stepped
  | poll =>
      simp only [step] at stepped
      split at stepped
      · cases stepped
      · rename_i sent rest next
        obtain ⟨after, polled, stepped⟩ := Option.bind_eq_some_iff.mp stepped
        obtain ⟨net, advanced, rfl⟩ := Option.map_eq_some_iff.mp stepped
        obtain ⟨own, phase⟩ := phase.poll next polled advanced
        constructor
        · intro k sent' member
          rcases List.mem_append.mp member with before | last
          · exact orderly.own k sent' before
          · cases List.mem_singleton.mp last
            exact own
        · exact phase
  | next i =>
      simp only [step] at stepped
      split at stepped
      · rename_i g idle there
        cases stepped
        rw [idle] at phase
        obtain ⟨none, phase⟩ := phase.generator there
        constructor
        · exact orderly.own
        · simp only [none]
          exact phase
      · cases stepped
  | destroy i =>
      simp only [step] at stepped
      split at stepped
      · rename_i g idle there
        cases stepped
        rw [idle] at phase
        constructor
        · exact orderly.own
        · simp only [(phase.generator there).1]
          exact .aborting
      · cases stepped
  | abort =>
      simp only [step] at stepped
      split at stepped
      · rename_i aborting
        obtain ⟨net, -, rfl⟩ := Option.map_eq_some_iff.mp stepped
        rw [aborting] at phase
        constructor
        · exact orderly.own
        · simp only [phase.aborts]
          exact .finished
      · cases stepped
  | session found =>
      obtain ⟨net, advanced, rfl⟩ := Option.map_eq_some_iff.mp stepped
      exact ⟨orderly.own, phase.session advanced⟩
  | manager =>
      obtain ⟨net, advanced, rfl⟩ := Option.map_eq_some_iff.mp stepped
      exact ⟨orderly.own, phase.manager advanced⟩

/-- **Own frames.** In a run in which no operation is issued while a generator is suspended, or
after an operation that left something behind, each operation consumes only what the session
sent for it. -/
theorem ownFrames_of_settled {cfg : Config} {wait : Wait} {t : Talk}
    (forClient : wait.forClient = true)
    (reached : Reachable (step cfg) Settled (start wait) t) : OwnFrames t :=
  (reached.invariant (start_orderly cfg forClient) step_orderly).own

/-! ### Runs -/

def streamOp : Operation := ⟨OpStream.Params, OpStream.Return⟩

def runOp : Operation := ⟨OpRun.Params, OpRun.Return⟩

def echo : InferenceParams := (.ofValue ["a", "b"], .ofValue false, .ofValue (-1), ())

/-- A stream of two tokens, of which the helper polls one after the other; the session has
sent them all by then. -/
def streamed (polls : Nat) : List TalkAction :=
  [.stream streamOp OpStream.StreamToken echo] ++ List.replicate 6 (.session false) ++
    (List.replicate polls [.poll, .next 0]).flatten

/-- A call, and the frame it polls first. -/
def called : List TalkAction :=
  [.call runOp echo, .session false, .session false, .poll]

/-- Which operations have polled, and for which the session had sent what they got. -/
def polls (t : Talk) : List (Nat × Nat) := t.consumed.map fun (k, sent) => (k, sent.op)

/-- A stream that is exhausted leaves nothing to the call after it. -/
theorem ownFrames_of_settled_exhausted :
    (run (step .noFiles) (start (.runInstance [])) (streamed 2 ++ [.poll] ++ called)).map polls =
        some [(1, 1), (1, 1), (1, 1), (2, 2)] ∧
      ∀ t, run (step .noFiles) (start (.runInstance [])) (streamed 2 ++ [.poll] ++ called) = some t →
        OwnFrames t :=
  ⟨by decide, fun _ computed =>
    @ownFrames_of_settled .noFiles (.runInstance []) _ rfl
      (reachable_of_meets _ (by decide) computed)⟩

/-- After a stream whose generator is destroyed, the call gets what was sent for the stream. -/
theorem destroyed_stream_answers_call :
    ¬ ∀ (cfg : Config) (wait : Wait), wait.forClient = true → ∀ t,
      Reachable (step cfg) Free (start wait) t → OwnFrames t := by
  intro claimed
  let actions := streamed 0 ++ [.poll, .destroy 0, .abort] ++ called
  have polled : (run (step .noFiles) (start (.runInstance [])) actions).map polls =
      some [(1, 1), (3, 1)] := by decide
  obtain ⟨t, computed, own⟩ := Option.map_eq_some_iff.mp polled
  have owned := claimed .noFiles (.runInstance []) rfl t (reachable_of_run actions computed)
  have foreign : (3, 1) ∈ t.polls := by rw [own]; decide
  obtain ⟨⟨k, sent⟩, member, same⟩ := List.mem_map.mp foreign
  obtain ⟨rfl, op⟩ := Prod.mk.inj same
  cases (owned 3 sent member).symm.trans op

end Talk

end AlpacaCore.Session
