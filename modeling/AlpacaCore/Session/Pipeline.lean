import Mathlib.Data.List.Perm.Subperm
import AlpacaCore.Session.Replies

/-!
Pushing ops before the replies to earlier ones have come.

The client that waits for each terminal reply sees the machine that `answer` is. So does
any other client, as long as no `Abort_check` is made while a frame waits in the channel:
an `Abort_check` takes the frame, whose op is never answered then, and ends the op that is
being served.
-/

namespace AlpacaCore.Session

open AlpacaCore.Schema
open AlpacaCore.System (Reachable Free run run_snoc run_append reachable_of_run reachable_of_meets)

/-- The machine that `answer` is: the loop, and the replies so far. -/
def respond (env : Env) (s : Wait × List Frame) (f : Frame) : Option (Wait × List Frame) :=
  match answer env s.1 f with
  | .ok (reply, wait) => some (wait, s.2 ++ [reply])
  | .error _ => none

def Service.initial (service : Service) : Wait × List Frame := (service.wait, [service.greeting])

namespace Net

/-- The terminal replies so far. -/
def told (n : Net) : List Frame := n.terminals.map Sent.frame

/-- All that the client has pushed has been served. -/
def Finished (n : Net) : Prop := n.toService = [] ∧ n.Waiting

/-- The session is at an `Abort_check`. -/
def looks (n : Net) : Bool :=
  match n.session with
  | .call (.io .get) _ => true
  | _ => false

/-- The loop the session is in, and the frame it takes there next. -/
def next (n : Net) : Option (Wait × Frame) :=
  match n.session, n.toService with
  | .ret wait, f :: _ => if wait.forClient then some (wait, f) else none
  | _, _ => none

/-- No `Abort_check` is made while a frame waits. -/
def Undisturbed (n : Net) : Action → Prop
  | .session _ => n.looks = true → n.toService = []
  | _ => True

/-- No frame is taken whose data are mistyped. -/
def Typed (n : Net) : Action → Prop
  | .session _ => ∀ taken ∈ n.next, ¬ taken.1.Mistyped taken.2
  | _ => True

/-- The client waits for each terminal reply before it pushes the next op. -/
def Lockstep (n : Net) : Action → Prop
  | .push _ => (n.received.filter fun sent => sent.frame.terminal).length = n.asked.length + 1
  | _ => True

instance (n : Net) : (action : Action) → Decidable (n.Undisturbed action)
  | .session _ => inferInstanceAs (Decidable (n.looks = true → n.toService = []))
  | .push _ | .poll | .manager => .isTrue trivial

instance (n : Net) : (action : Action) → Decidable (n.Typed action)
  | .session _ => inferInstanceAs (Decidable (∀ taken ∈ n.next, ¬ taken.1.Mistyped taken.2))
  | .push _ | .poll | .manager => .isTrue trivial

instance (n : Net) : (action : Action) → Decidable (n.Lockstep action)
  | .push _ => inferInstanceAs (Decidable (List.length _ = _))
  | .poll | .session _ | .manager => .isTrue trivial

/-- What the client has been told is what it would have been told one op at a time, and each
op that was consumed has its one reply, or is being served. -/
structure Unchanged (cfg : Config) (service : Service) (n : Net) : Prop where
  same : ∀ m, Reachable (step cfg) Lockstep (start service) m → m.asked = n.asked → m.Finished →
    n.Finished → n.told = m.told
  begins : ∀ m, Reachable (step cfg) Lockstep (start service) m → m.asked = n.asked → m.Finished →
    n.told <+: m.told
  answered : ∀ k, 1 ≤ k → k ≤ n.taken →
    n.replies k = 1 ∨ k = n.taken ∧ ¬ n.Waiting ∧ ¬ n.Gone

end Net

/-! ### Refinement -/

/-- The session has told what the machine has, but for the reply it is on the way to. -/
structure Refines (cfg : Config) (service : Service) (p : Progressed) (goal : Frame × Wait)
    (n : Net) : Prop where
  course : Course cfg goal False p n
  calm : p.2 = true
  ledger : Ledger p n
  served : n.served = List.range (n.taken + 1)
  history : ∃ done, n.asked = done ++ n.toService ∧
    ∃ told, run (respond cfg.env) service.initial done = some (goal.2, told) ∧
      (p.1.Answered → n.told = told) ∧ (¬ p.1.Answered → n.told ++ [goal.1] = told)

section Refinement

variable {cfg : Config} {service : Service} {p : Progressed} {goal : Frame × Wait} {n n' : Net}

theorem start_refines (cfg : Config) (service : Service) :
    Refines cfg service (.busy, true) (service.greeting, service.wait) (.start service) := by
  refine ⟨start_course cfg service, rfl, start_ledger service, rfl, [], rfl, _, rfl, ?_, fun _ => rfl⟩
  rintro ⟨f, absurd⟩
  cases absurd

/-- A session that waits for the client has answered, and is in the loop the machine is in. -/
theorem Refines.waits {wait : Wait} (refines : Refines cfg service p goal n)
    (waits : n.session = .ret wait) (forClient : wait.forClient = true) :
    p.1.Answered ∧ goal.2 = wait := by
  have conduct := refines.course.conduct
  rw [waits] at conduct
  obtain ⟨f, answered, same⟩ := ends_forClient conduct forClient
  exact ⟨⟨f, answered⟩, by rw [← same refines.calm]⟩

theorem Refines.takes {wait : Wait} {f : Frame} (refines : Refines cfg service p goal n)
    (takes : Takes cfg n n' wait f) (typed : ¬ wait.Mistyped f) :
    ∃ goal', Refines cfg service (wait.stage, true) goal' n' := by
  obtain ⟨answered, loop⟩ := refines.waits takes.waits takes.forClient
  obtain ⟨course, calm, ledger, served, done, asked, told, ran, settled, -⟩ := refines
  obtain ⟨goal', meant, course'⟩ := takes.course_typed typed
  refine ⟨goal', course', rfl, ledger.takes takes answered, ?_, done ++ [f], ?_, told ++ [goal'.1], ?_,
    ?_, ?_⟩
  · rw [takes.served, served, takes.taken ledger.asked, ← List.range_succ]
  · rw [takes.same]
    simp only
    rw [asked, takes.next, List.append_assoc, List.singleton_append]
  · rw [run_snoc, ran, Option.bind_some, respond, loop, meant]
  · exact fun absurd => (wait.stage_owed absurd).elim
  · intro _
    rw [Net.told, takes.terminals, ← settled answered]
    rfl

theorem Refines.continues {action : Action} {p' : Progressed} (refines : Refines cfg service p goal n)
    (continues : Continues cfg goal False action p n p' n') (undisturbed : n.Undisturbed action) :
    Refines cfg service p' goal n' := by
  obtain ⟨course, calm, ledger, served, done, asked, told, ran, settled, owed⟩ := refines
  have ledger' := ledger.continues continues
  have queues := continues.queues
  cases queues with
  | grabbed f asked' toService disturbed looks =>
      obtain ⟨next, calls⟩ := looks
      have nothing := undisturbed (by rw [Net.looks, calls])
      cases nothing.symm.trans toService
  | grows new asked' toService pushed calm' =>
      have taken : n'.taken = n.taken := by
        simp only [Net.taken, asked', toService, List.length_append]
        omega
      have calmly : p'.2 = true := calm'.trans calm
      refine ⟨continues.course, calmly, ledger', ?_, done, ?_, told, ran, ?_⟩
      · rw [continues.served, served, taken]
      · rw [asked', toService, asked, List.append_assoc]
      · have replies := continues.replies
        have course' := continues.course
        unfold Net.told at settled owed ⊢
        generalize n.terminals = before at replies settled owed
        generalize n'.terminals = after at replies
        cases replies with
        | same still =>
            exact ⟨fun answered => settled (still.mp answered),
              fun unanswered => owed fun answered => unanswered (still.mpr answered)⟩
        | answer unanswered =>
            constructor
            · intro _
              obtain ⟨wait, -, -, same⟩ := Conduct.of_answered course'.conduct
              rw [← owed unanswered, ← same calmly, List.map_append]
              rfl
            · exact fun absurd => (absurd ⟨_, rfl⟩).elim

/-- The conditions under which nothing goes wrong. -/
def Net.Steady (n : Net) (action : Action) : Prop := n.Undisturbed action ∧ n.Typed action

instance (n : Net) (action : Action) : Decidable (n.Steady action) :=
  inferInstanceAs (Decidable (_ ∧ _))

theorem Takes.next_eq {wait : Wait} {f : Frame} (takes : Takes cfg n n' wait f) :
    n.next = some (wait, f) := by
  simp only [Net.next, takes.waits, takes.next, takes.forClient, if_true]

theorem step_refines (n : Net) (action : Action) (n' : Net)
    (refines : ∃ p goal, Refines cfg service p goal n) (steady : n.Steady action)
    (stepped : n.step cfg action = some n') : ∃ p goal, Refines cfg service p goal n' := by
  obtain ⟨p, goal, refines⟩ := refines
  rcases refines.course.step stepped with ⟨found, wait, f, rfl, takes⟩ | ⟨p', continues⟩
  · exact ⟨_, refines.takes takes (steady.2 (wait, f) takes.next_eq)⟩
  · exact ⟨p', goal, refines.continues continues steady.1⟩

/-- **Refinement.** In a steady run the session tells what the machine does. -/
theorem refines_of_reachable (reached : Reachable (Net.step cfg) Net.Steady (.start service) n) :
    ∃ p goal, Refines cfg service p goal n := by
  induction reached with
  | start => exact ⟨_, _, start_refines cfg service⟩
  | next _ steady stepped ih => exact step_refines _ _ _ ih steady stepped

theorem respond_grows {env : Env} {s s' : Wait × List Frame} {fs : List Frame}
    (ran : run (respond env) s fs = some s') : s.2 <+: s'.2 := by
  induction fs generalizing s with
  | nil =>
      cases ran
      exact List.prefix_rfl
  | cons f fs ih =>
      obtain ⟨mid, responded, rest⟩ := Option.bind_eq_some_iff.mp ran
      unfold respond at responded
      split at responded
      · cases responded
        exact (List.prefix_append _ _).trans (ih rest)
      · cases responded

/-- What has been told when everything has been served. -/
theorem Refines.finished (refines : Refines cfg service p goal n) (finished : n.Finished) :
    ∃ wait, run (respond cfg.env) service.initial n.asked = some (wait, n.told) := by
  obtain ⟨nothing, waiting⟩ := finished
  obtain ⟨done, asked, told, ran, settled, -⟩ := refines.history
  rw [nothing, List.append_nil] at asked
  exact ⟨goal.2, by rw [asked, settled (refines.course.answered waiting), ran]⟩

/-- What has been told so far is told in the end. -/
theorem Refines.told (refines : Refines cfg service p goal n) {wait : Wait} {all : List Frame}
    (ran : run (respond cfg.env) service.initial n.asked = some (wait, all)) : n.told <+: all := by
  obtain ⟨done, asked, told, before, settled, owed⟩ := refines.history
  rw [asked, run_append, before, Option.bind_some] at ran
  have later : told <+: all := respond_grows ran
  by_cases answered : p.1.Answered
  · rw [settled answered]
    exact later
  · rw [← owed answered] at later
    exact (List.prefix_append _ _).trans later

end Refinement

/-! ### One op at a time -/

section Lockstep

variable {cfg : Config} {service : Service} {n n' : Net}

/-- A client that waits for each reply has at most one op on the way, and none while one is
being served. -/
structure OneByOne (cfg : Config) (p : Progressed) (goal : Frame × Wait) (n : Net) : Prop where
  course : Course cfg goal True p n
  ledger : Ledger p n
  single : n.toService.length ≤ 1
  waits : n.toService ≠ [] → p.1.Answered

theorem Ledger.served_length {p : Progressed} (ledger : Ledger p n) :
    n.served.length ≤ n.taken + 1 := by
  have within : n.served ⊆ List.range (n.taken + 1) := fun k member =>
    List.mem_range.mpr (Nat.lt_succ_of_le (ledger.taken k member))
  simpa using (List.subperm_of_subset ledger.nodup within).length_le

/-- When all terminal replies have been received there is nothing on the way. -/
theorem Ledger.all_received {p : Progressed} (ledger : Ledger p n)
    (received : (n.received.filter fun sent => sent.frame.terminal).length = n.asked.length + 1) :
    n.toService = [] ∧ p.1.Answered := by
  have sent : n.asked.length + 1 ≤ n.terminals.length := by
    rw [← received, Net.terminals, Net.sent, List.filter_append, List.length_append]
    exact Nat.le_add_right _ _
  have served := ledger.served_length
  have asked := ledger.asked
  by_cases answered : p.1.Answered
  · have all := congrArg List.length (ledger.answered answered)
    rw [List.length_map] at all
    refine ⟨List.length_eq_zero_iff.mp ?_, answered⟩
    unfold Net.taken at served
    omega
  · have all := congrArg List.length (ledger.owed answered)
    rw [List.length_append, List.length_map, List.length_singleton] at all
    unfold Net.taken at served
    omega

theorem step_oneByOne (n : Net) (action : Action) (n' : Net)
    (holds : ∃ p goal, OneByOne cfg p goal n) (lockstep : n.Lockstep action)
    (stepped : n.step cfg action = some n') : ∃ p goal, OneByOne cfg p goal n' := by
  obtain ⟨p, goal, course, ledger, single, waits⟩ := holds
  rcases course.step stepped with ⟨found, wait, f, rfl, takes⟩ | ⟨p', continues⟩
  · obtain ⟨goal', meant⟩ := exists_goal cfg.env wait f
    have nothing : n'.toService = [] := by
      rw [takes.next, List.length_cons] at single
      exact List.length_eq_zero_iff.mp (by omega)
    exact ⟨_, goal', (takes.course meant).mono fun _ => trivial,
      ledger.takes takes (takes.answered course), by rw [nothing]; exact Nat.zero_le 1,
      fun there => absurd nothing there⟩
  · have still : p.1.Answered → p'.1.Answered := by
      have replies := continues.replies
      generalize n.terminals = before at replies
      generalize n'.terminals = after at replies
      cases replies with
      | same still => exact still.mpr
      | answer => exact fun _ => ⟨_, rfl⟩
    suffices queue : n'.toService.length ≤ 1 ∧ (n'.toService ≠ [] → p'.1.Answered) from
      ⟨p', goal, continues.course, ledger.continues continues, queue.1, queue.2⟩
    cases continues.queues with
    | grabbed f asked toService =>
        have nothing : n'.toService = [] := by
          rw [toService, List.length_cons] at single
          exact List.length_eq_zero_iff.mp (by omega)
        exact ⟨by rw [nothing]; exact Nat.zero_le 1, fun there => absurd nothing there⟩
    | grows new asked toService pushes =>
        cases new with
        | nil =>
            rw [List.append_nil] at toService
            rw [toService]
            exact ⟨single, fun there => still (waits there)⟩
        | cons f new =>
            obtain ⟨f, rfl⟩ := pushes nofun
            obtain ⟨nothing, answered⟩ := ledger.all_received lockstep
            rw [(pushed stepped).2]
            simp only [nothing, List.nil_append, List.length_singleton]
            exact ⟨Nat.le_refl 1, fun _ => still answered⟩

/-- So no frame waits when the session makes an `Abort_check`. -/
theorem OneByOne.undisturbed {p : Progressed} {goal : Frame × Wait} (holds : OneByOne cfg p goal n)
    (action : Action) : n.Undisturbed action := by
  cases action with
  | session found =>
      intro looks
      by_contra there
      obtain ⟨f, answered⟩ := holds.waits there
      have conduct := holds.course.conduct
      obtain ⟨stage, calm⟩ := p
      obtain rfl : stage = .answered f := answered
      obtain ⟨wait, waits, -⟩ := Conduct.of_answered conduct
      rw [Net.looks, waits] at looks
      cases looks
  | push f => trivial
  | poll => trivial
  | manager => trivial

theorem oneByOne_start : ∃ p goal, OneByOne cfg p goal (.start service) :=
  ⟨_, _, (start_course cfg service).mono fun _ => trivial, start_ledger service, Nat.zero_le 1,
    fun absurd => absurd.elim rfl⟩

theorem undisturbed_of_lockstep (reached : Reachable (Net.step cfg) Net.Lockstep (.start service) n) :
    Reachable (Net.step cfg) Net.Undisturbed (.start service) n := by
  refine reached.strengthen oneByOne_start step_oneByOne ?_
  intro n action n' holds _ _
  obtain ⟨p, goal, holds⟩ := holds
  exact holds.undisturbed action

theorem takes_of_next {found : Bool} {taken : Wait × Frame} (member : taken ∈ n.next)
    (stepped : n.step cfg (.session found) = some n') : Takes cfg n n' taken.1 taken.2 := by
  unfold Net.next at member
  split at member
  · rename_i wait f rest waits next
    split at member
    · rename_i forClient
      cases member
      simp only [Net.step, Net.stepSession, waits, next] at stepped
      cases wait with
      | fetch splice => cases forClient
      | _ =>
          cases stepped
          exact ⟨waits, forClient, next, rfl⟩
    · cases member
  · cases member

/-- A session that is there has taken no frame whose data were mistyped. -/
theorem steady_of_alive (reached : Reachable (Net.step cfg) Net.Undisturbed (.start service) n)
    (alive : ¬ n.Gone) : Reachable (Net.step cfg) Net.Steady (.start service) n := by
  induction reached with
  | start => exact .start
  | @next n n' action _ undisturbed stepped ih =>
      have before := ih fun gone => alive (step_gone n action n' gone stepped)
      refine .next before ⟨undisturbed, ?_⟩ stepped
      cases action with
      | session found =>
          intro taken member mistyped
          have takes := takes_of_next member stepped
          obtain ⟨what, thrown⟩ := serve_mistyped cfg.env mistyped takes.forClient
          exact alive ⟨.json what, by rw [takes.same, thrown]⟩
      | push f => trivial
      | poll => trivial
      | manager => trivial

/-- **Pipelining.** In a run in which no `Abort_check` is made while a frame waits, and no frame
is taken whose data are mistyped, the client is told what it would have been told one op at a
time, and each op that is consumed is answered. -/
theorem unchanged_of_steady (reached : Reachable (Net.step cfg) Net.Steady (.start service) n) :
    n.Unchanged cfg service := by
  obtain ⟨p, goal, refines⟩ := refines_of_reachable reached
  have lockstep : ∀ m, Reachable (Net.step cfg) Net.Lockstep (.start service) m → m.Finished →
      ∃ wait, run (respond cfg.env) service.initial m.asked = some (wait, m.told) := by
    intro m reached finished
    have alive : ¬ m.Gone := by
      rintro ⟨x, thrown⟩
      obtain ⟨-, wait, waits, -⟩ := finished
      cases thrown.symm.trans waits
    obtain ⟨p, goal, refines⟩ := refines_of_reachable
      (steady_of_alive (undisturbed_of_lockstep reached) alive)
    exact refines.finished finished
  constructor
  · intro m reached asked finished finished'
    obtain ⟨wait, ran⟩ := lockstep m reached finished
    obtain ⟨wait', ran'⟩ := refines.finished finished'
    rw [asked, ran'] at ran
    exact (Prod.mk.inj (Option.some.inj ran)).2
  · intro m reached asked finished
    obtain ⟨wait, ran⟩ := lockstep m reached finished
    rw [asked] at ran
    exact refines.told ran
  · intro k positive taken
    have served : k ∈ n.served := by
      rw [refines.served]
      exact List.mem_range.mpr (Nat.lt_succ_of_le taken)
    by_cases answered : p.1.Answered
    · exact .inl (refines.ledger.replies_served answered served)
    · -- all but the last one
      have owed := refines.ledger.owed answered
      rw [refines.served, List.range_succ] at owed
      obtain ⟨before, -⟩ := List.append_inj' owed rfl
      rcases Nat.lt_or_eq_of_le taken with less | last
      · left
        rw [Net.replies, before]
        exact List.count_eq_one_of_mem List.nodup_range (List.mem_range.mpr less)
      · exact .inr ⟨last, fun waiting => answered (refines.course.answered waiting),
          refines.course.alive⟩

end Lockstep

/-! ### Runs -/

def createInstance : Frame := ⟨"create_instance", .object [("cutoff", .integer 0)]⟩

def echo (op : String) : Frame :=
  ⟨op, .object [("input", .array [.string "a"]), ("splice", .boolean false)]⟩

/-- All ops are pushed at once, and the session goes on until it has served them. -/
def advance (ops : List Frame) (steps : Nat) : List Action :=
  .session false :: ops.map .push ++ List.replicate steps (.session false)

/-- Each op comes with the steps the session makes for it and the frames it sends. -/
def oneByOne (ops : List (Frame × Nat × Nat)) : List Action :=
  [.session false, .poll] ++ ops.flatMap fun (f, steps, frames) =>
    .push f :: List.replicate steps (.session false) ++ List.replicate frames .poll

theorem unchanged_of_steady_run :
    ∃ n, run (Net.step .noFiles) (.start .dummy) (advance [loadModel, createInstance, echo "run"] 9) =
      some n ∧ n.Finished ∧ n.taken = 3 ∧ n.Unchanged .noFiles .dummy := by
  obtain ⟨n, computed, finished, taken⟩ : ∃ n, run (Net.step .noFiles) (.start .dummy)
      (advance [loadModel, createInstance, echo "run"] 9) = some n ∧ n.Finished ∧ n.taken = 3 :=
    ⟨_, rfl, ⟨rfl, _, rfl, rfl⟩, rfl⟩
  exact ⟨n, computed, finished, taken,
    unchanged_of_steady (reachable_of_meets _ (by decide) computed)⟩

/-- The `Abort_check` of a stream takes the `run` that was pushed in advance. -/
theorem pipelined_run_lost :
    ¬ ∀ (cfg : Config) (service : Service) (n m : Net), Reachable (Net.step cfg) Free (.start service) n →
      Reachable (Net.step cfg) Net.Lockstep (.start service) m → m.asked = n.asked → m.Finished →
        n.Finished → n.told = m.told := by
  intro claimed
  let ops := [loadModel, createInstance, echo "stream", echo "run"]
  let lockstep := oneByOne
    [(loadModel, 5, 3), (createInstance, 2, 1), (echo "stream", 4, 2), (echo "run", 2, 1)]
  obtain ⟨n, computed, finished, told, asked⟩ : ∃ n,
      run (Net.step .noFiles) (.start .dummy) (advance ops 10) = some n ∧ n.Finished ∧
      n.told.map Frame.op = ["$state-change", "$state-change", "$state-change", "$err"] ∧
      n.asked = ops := ⟨_, rfl, ⟨rfl, _, rfl, rfl⟩, rfl, rfl⟩
  obtain ⟨m, computed', finished', told', asked'⟩ : ∃ m,
      run (Net.step .noFiles) (.start .dummy) lockstep = some m ∧ m.Finished ∧
      m.told.map Frame.op = ["$state-change", "$state-change", "$state-change", "stream", "run"] ∧
      m.asked = ops := ⟨_, rfl, ⟨rfl, _, rfl, rfl⟩, rfl, rfl⟩
  have same := claimed .noFiles .dummy n m (reachable_of_run _ computed)
    (reachable_of_meets lockstep (by decide) computed') (asked'.trans asked.symm) finished' finished
  rw [same, told'] at told
  exact absurd told (by decide)

end AlpacaCore.Session
