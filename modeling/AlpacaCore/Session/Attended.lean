import AlpacaCore.Session.Helper
import AlpacaCore.Session.Transcript

/-!
A talk with a session that is in the loop of an instance.

The session stays in that loop, and the client's operations consume what was sent for them:
`Transcript` says what that is, as long as the session takes no other frame meanwhile. In a settled
talk it takes none, so an operation consumes an initial part of the tokens and the answer.
-/

namespace AlpacaCore.Session

open AlpacaCore.Schema
open AlpacaCore.System (Coro Reachable)

/-! ### A session that stays in the loop of an instance -/

/-- From here on it comes to no other loop. -/
abbrev Keeps (data : List String) (c : Program Wait) : Prop :=
  c.Follows (fun (_ : Unit) _ _ _ => True) (fun _ _ => True) (fun _ wait => wait = .runInstance data)
    (fun _ _ => True) ()

theorem follows_any {A : Type} (c : Program A) :
    c.Follows (fun (_ : Unit) _ _ _ => True) (fun _ _ => True) (fun _ _ => True) (fun _ _ => True) () := by
  induction c with
  | ret a => trivial
  | throw x => trivial
  | call op next ih => exact fun r _ => ⟨(), trivial, ih r⟩

/-- The block of the loop enters no other. -/
abbrev OnlyReplies (block : Program Outcome) : Prop :=
  block.Follows (fun (_ : Unit) _ _ _ => True) (fun _ _ => True) (fun _ outcome => ∃ f, outcome = .reply f)
    (fun _ _ => True) ()

theorem OnlyReplies.reply (c : Program Frame) : OnlyReplies (do return .reply (← c)) := by
  apply (follows_any c).bind
  exact fun _ f _ => ⟨f, rfl⟩

theorem OnlyReplies.attempt {data : List String} {block : Program Outcome} (replies : OnlyReplies block) :
    Keeps data (attempt (.runInstance data) block) := by
  refine Coro.Follows.bind (?_ : OnlyReplies _) ?_
  · apply Coro.Follows.tryCatch replies
    intro _ x _
    cases x with
    | runtime what => exact OnlyReplies.reply _
    | json what => trivial
  · rintro _ outcome ⟨f, rfl⟩
    exact fun r _ => ⟨(), trivial, rfl⟩

theorem runInstance_keeps (data : List String) (f : Frame) : Keeps data (Dummy.runInstance data f) := by
  apply OnlyReplies.attempt
  apply (follows_any _).bind
  intro _ params _
  cases params with
  | some params => exact OnlyReplies.reply _
  | none =>
      apply (follows_any _).bind
      intro _ params _
      cases params with
      | some params => exact OnlyReplies.reply _
      | none => exact OnlyReplies.reply _

section Steps

variable {cfg : Config} {n n' : Net} {data : List String} {f g : Frame} {wait : Wait} {k : Nat}

theorem Keeps.stepSession {found : Bool} (keeps : Keeps data n.session)
    (stepped : n.stepSession cfg found = some n') : Keeps data n'.session := by
  unfold Net.stepSession at stepped
  split at stepped
  · cases stepped
  · rename_i waits
    rw [waits] at keeps
    cases keeps
  · rename_i waits
    rw [waits] at keeps
    obtain rfl := keeps
    split at stepped
    · cases stepped
    · cases stepped
      exact runInstance_keeps data _
  · rename_i calls
    obtain ⟨⟨r, toService, toClient⟩, -, same⟩ := Option.map_eq_some_iff.mp stepped
    cases same
    rw [calls] at keeps
    obtain ⟨_, _, later⟩ := keeps r trivial
    exact later
  · rename_i calls
    obtain ⟨⟨r, fromManager, toManager⟩, -, same⟩ := Option.map_eq_some_iff.mp stepped
    cases same
    rw [calls] at keeps
    obtain ⟨_, _, later⟩ := keeps r trivial
    exact later
  · rename_i calls
    cases stepped
    rw [calls] at keeps
    obtain ⟨_, _, later⟩ := keeps () trivial
    exact later
  · rename_i calls
    rw [calls] at keeps
    split at stepped
    · split at stepped
      · cases stepped
        obtain ⟨_, _, later⟩ := keeps _ trivial
        exact later
      · cases stepped
    · cases stepped
      obtain ⟨_, _, later⟩ := keeps none trivial
      exact later

theorem Keeps.step {action : Action} (keeps : Keeps data n.session)
    (stepped : n.step cfg action = some n') : Keeps data n'.session := by
  rcases step_cases stepped with ⟨found, -, stepped⟩ | apart
  · exact keeps.stepSession stepped
  · rw [apart.session]
    exact keeps

/-- What became of an op that was pushed to an instance that waited. -/
inductive Asked (k : Nat) (data : List String) (f g : Frame) (n : Net) : Prop where
  | queued {rest : List Frame} (waits : n.session = .ret (.runInstance data))
      (next : n.toService = f :: rest) (number : n.taken + 1 = k) : Asked k data f g n
  | inscribed (inscribed : Inscribed k data (Dummy.tokens data f) g n) : Asked k data f g n

theorem Asked.step {action : Action} (asked : Asked k data f g n) (counted : Counted n)
    (meant : answer cfg.env (.runInstance data) f = .ok (g, wait))
    (stepped : n.step cfg action = some n') : Asked k data f g n' := by
  cases asked with
  | inscribed inscribed => exact .inscribed (inscribed.step counted stepped)
  | queued waits next number =>
      rcases step_cases stepped with ⟨found, -, stepped⟩ | apart
      · have takes : Takes cfg n n' (.runInstance data) f := by
          simp only [Net.stepSession, waits, next] at stepped
          cases stepped
          exact ⟨waits, rfl, next, rfl⟩
        rw [← number]
        exact .inscribed (takes.inscribed counted meant)
      · obtain ⟨new, toService, -⟩ := apart.pushes
        rw [next] at toService
        apply Asked.queued (apart.session.trans waits) toService
        rw [apart.taken counted.queued]
        exact number

theorem Asked.undisturbed (asked : Asked k data f g n) (taken : n.taken = k) :
    n.framesFor k <+: Dummy.tokens data f ++ [g] := by
  cases asked with
  | queued waits next number => omega
  | inscribed inscribed => exact (inscribed.transcript.undisturbed taken).1

end Steps

namespace Talk

/-- The frames that the operation with this number has consumed. -/
def consumedFor (t : Talk) (k : Nat) : List Frame :=
  (t.consumed.filter fun consumed => consumed.1 == k).map fun consumed => consumed.2.frame

/-- A talk with an instance. -/
structure Attended (cfg : Config) (data : List String) (t : Talk) : Prop where
  orderly : Orderly cfg t
  counted : Counted t.net
  keeps : Keeps data t.net.session
  polled : t.consumed.map Prod.snd = t.net.received
  /-- No frame was pushed since the operation that is in progress. -/
  latest : ∀ k, Active k t.helper t.suspended → t.net.asked.length = k

/-! ### Steps of the talk -/

section Steps

variable {cfg : Config} {data : List String} {t t' : Talk} {action : TalkAction} {k : Nat}

/-- The net stands still or takes a step that is no `poll`, and nothing is consumed. -/
def Silent (cfg : Config) (t t' : Talk) : Prop :=
  t'.consumed = t.consumed ∧ t'.net.received = t.net.received ∧
    (t'.net = t.net ∨ ∃ action, t.net.step cfg action = some t'.net)

structure Consumes (cfg : Config) (t : Talk) (sent : Sent) (t' : Talk) : Prop where
  next : ∃ rest, t.net.toClient = sent :: rest
  polled : ∃ after, t.helper.polled sent.frame = some after
  stepped : t.net.step cfg .poll = some t'.net
  consumed : t'.consumed = t.consumed ++ [(t.helper.number, sent)]

theorem silent_push {f : Frame} (pushes : t.net.step cfg (.push f) = some t'.net)
    (consumed : t'.consumed = t.consumed) : Silent cfg t t' :=
  ⟨consumed, by rw [(pushed pushes).2], .inr ⟨_, pushes⟩⟩

theorem silent_initiate {op : Operation} {params : op.Params.Value} {helper : Nat → Helper}
    (stepped : t.initiate cfg op params helper = some t') : Silent cfg t t' := by
  unfold initiate at stepped
  split at stepped
  · cases stepped
    exact ⟨rfl, rfl, .inl rfl⟩
  · obtain ⟨net, pushes, rfl⟩ := Option.map_eq_some_iff.mp stepped
    exact silent_push pushes rfl

/-- Only `poll` consumes something. -/
theorem silent_or_consumes (stepped : step cfg t action = some t') :
    Silent cfg t t' ∨ action = .poll ∧ ∃ sent, Consumes cfg t sent t' := by
  cases action with
  | call op params =>
      simp only [step] at stepped
      split at stepped
      · exact .inl (silent_initiate stepped)
      · cases stepped
  | stream op out params =>
      simp only [step] at stepped
      split at stepped
      · exact .inl (silent_initiate stepped)
      · cases stepped
  | poll =>
      simp only [step] at stepped
      split at stepped
      · cases stepped
      · rename_i sent rest next
        obtain ⟨after, polls, stepped⟩ := Option.bind_eq_some_iff.mp stepped
        obtain ⟨net, advanced, rfl⟩ := Option.map_eq_some_iff.mp stepped
        exact .inr ⟨rfl, sent, ⟨rest, next⟩, ⟨after, polls⟩, advanced, rfl⟩
  | next i =>
      simp only [step] at stepped
      split at stepped
      · cases stepped
        exact .inl ⟨rfl, rfl, .inl rfl⟩
      · cases stepped
  | destroy i =>
      simp only [step] at stepped
      split at stepped
      · cases stepped
        exact .inl ⟨rfl, rfl, .inl rfl⟩
      · cases stepped
  | abort =>
      simp only [step] at stepped
      split at stepped
      · obtain ⟨net, pushes, rfl⟩ := Option.map_eq_some_iff.mp stepped
        exact .inl (silent_push pushes rfl)
      · cases stepped
  | session found =>
      obtain ⟨net, advanced, rfl⟩ := Option.map_eq_some_iff.mp stepped
      have received : net.received = t.net.received := by
        rcases stepSession_cases advanced with ⟨wait, f, takes⟩ | ⟨new, goesOn⟩
        · rw [takes.same]
        · exact goesOn.received
      exact .inl ⟨rfl, received, .inr ⟨.session found, advanced⟩⟩
  | manager =>
      obtain ⟨net, advanced, rfl⟩ := Option.map_eq_some_iff.mp stepped
      exact .inl ⟨rfl, (stepManager_serves advanced).received, .inr ⟨.manager, advanced⟩⟩

/-- What every step of the net preserves, every step of the talk does. -/
theorem net_invariant {inv : Net → Prop} (holds : inv t.net) (stepped : step cfg t action = some t')
    (kept : ∀ action n', t.net.step cfg action = some n' → inv n') : inv t'.net := by
  rcases silent_or_consumes stepped with ⟨-, -, same | ⟨action, advanced⟩⟩ | ⟨-, sent, consumes⟩
  · rw [same]
    exact holds
  · exact kept _ _ advanced
  · exact kept _ _ consumes.stepped

theorem latest_initiate {op : Operation} {params : op.Params.Value} {helper : Nat → Helper}
    (number : ∀ k k', Active k (helper k') [] → k' = k) (idle : t.helper = .idle)
    (none : t.suspended = []) (stepped : t.initiate cfg op params helper = some t')
    (active : Active k t'.helper t'.suspended) : t'.net.asked.length = k := by
  unfold initiate at stepped
  split at stepped
  · cases stepped
    rw [idle, none] at active
    cases active
  · obtain ⟨net, -, rfl⟩ := Option.map_eq_some_iff.mp stepped
    simp only [none] at active
    exact number _ _ active

/-- What is polled is for an operation that goes on or is over. -/
theorem Active.polled {helper : Helper} {suspended : List Generator} {f : Frame}
    {after : Helper × List Generator} {number : Nat} (active : Active number helper suspended)
    (polls : helper.polled f = some after) (still : Active k after.1 (suspended ++ after.2)) :
    helper.number = k := by
  cases active with
  | calling =>
      simp only [Helper.polled] at polls
      split at polls
      · cases polls
        cases still
      · cases polls
        cases still
  | yielded => cases polls
  | streaming own =>
      simp only [Helper.polled] at polls
      split at polls
      · cases polls
        cases still with
        | yielded own' => exact own'
      · cases polls
        cases still
      · cases polls
        cases still

theorem Active.number {helper : Helper} {suspended : List Generator} {f : Frame}
    {after : Helper × List Generator} {number : Nat} (active : Active number helper suspended)
    (polls : helper.polled f = some after) : helper.number = number := by
  cases active with
  | calling => rfl
  | yielded => cases polls
  | streaming own => exact own

/-- Who polls is in progress. -/
theorem Attended.polling {f : Frame} {after : Helper × List Generator} (attended : Attended cfg data t)
    (polls : t.helper.polled f = some after) : Active t.helper.number t.helper t.suspended := by
  have phase := attended.orderly.phase
  generalize t.helper = helper at phase polls ⊢
  generalize t.suspended = suspended at phase ⊢
  generalize t.left = left at phase
  cases phase with
  | quiet => cases polls
  | aborting => cases polls
  | finished => cases polls
  | waiting active =>
      rw [active.number polls]
      exact active

theorem Attended.latest_step (attended : Attended cfg data t) (settled : t.Settled action)
    (stepped : step cfg t action = some t') (active : Active k t'.helper t'.suspended) :
    t'.net.asked.length = k := by
  have phase := attended.orderly.phase
  have latest := attended.latest
  cases action with
  | call op params =>
      simp only [step] at stepped
      split at stepped
      · rename_i idle
        apply latest_initiate _ idle (List.length_eq_zero_iff.mp settled.2) stepped active
        intro k k' active
        cases active
        rfl
      · cases stepped
  | stream op out params =>
      simp only [step] at stepped
      split at stepped
      · rename_i idle
        apply latest_initiate _ idle (List.length_eq_zero_iff.mp settled.2) stepped active
        intro k k' active
        cases active with
        | streaming own => exact own
      · cases stepped
  | poll =>
      simp only [step] at stepped
      split at stepped
      · cases stepped
      · rename_i sent rest next
        obtain ⟨after, polls, stepped⟩ := Option.bind_eq_some_iff.mp stepped
        obtain ⟨net, advanced, rfl⟩ := Option.map_eq_some_iff.mp stepped
        have working := attended.polling polls
        obtain ⟨_, _, _, rfl⟩ := Session.polled advanced
        exact (latest _ working).trans (working.polled polls active)
  | next i =>
      simp only [step] at stepped
      split at stepped
      · rename_i g idle there
        cases stepped
        rw [idle] at phase
        rw [idle] at latest
        simp only [(phase.generator there).1] at active
        cases active with
        | streaming own =>
            apply latest
            generalize t.suspended = suspended at phase there ⊢
            generalize t.left = left at phase
            cases phase with
            | quiet => cases there
            | finished => cases there
            | waiting active =>
                cases active with
                | yielded =>
                    cases i with
                    | zero =>
                        cases there
                        exact .yielded own
                    | succ i => cases there
      · cases stepped
  | destroy i =>
      simp only [step] at stepped
      split at stepped
      · cases stepped
        cases active
      · cases stepped
  | abort =>
      simp only [step] at stepped
      split at stepped
      · rename_i aborting
        obtain ⟨net, -, rfl⟩ := Option.map_eq_some_iff.mp stepped
        rw [aborting] at phase
        simp only [phase.aborts] at active
        cases active
      · cases stepped
  | session found =>
      obtain ⟨net, advanced, rfl⟩ := Option.map_eq_some_iff.mp stepped
      have asked : net.asked = t.net.asked := by
        rcases stepSession_cases advanced with ⟨wait, f, takes⟩ | ⟨new, goesOn⟩
        · rw [takes.same]
        · exact goesOn.asked
      rw [asked]
      exact latest _ active
  | manager =>
      obtain ⟨net, advanced, rfl⟩ := Option.map_eq_some_iff.mp stepped
      rw [(stepManager_serves advanced).asked]
      exact latest _ active

theorem attended_start (cfg : Config) (data : List String) :
    Attended cfg data (start (.runInstance data)) := by
  constructor
  · exact start_orderly cfg rfl
  · have counted := counted_start .dummy
    exact ⟨counted.queued, counted.serving, counted.served, counted.sent⟩
  · rfl
  · rfl
  · intro k active
    cases active

theorem Attended.step (attended : Attended cfg data t) (settled : t.Settled action)
    (stepped : t.step cfg action = some t') : Attended cfg data t' := by
  constructor
  · exact step_orderly _ _ _ attended.orderly settled stepped
  · exact net_invariant attended.counted stepped fun _ _ advanced => attended.counted.step advanced
  · exact net_invariant attended.keeps stepped fun _ _ advanced => attended.keeps.step advanced
  · rcases silent_or_consumes stepped with ⟨consumed, received, -⟩ | ⟨-, sent, consumes⟩
    · rw [consumed, received]
      exact attended.polled
    · obtain ⟨rest, next⟩ := consumes.next
      obtain ⟨sent', rest', next', same⟩ := Session.polled consumes.stepped
      rw [next'] at next
      cases next
      rw [same, consumes.consumed, List.map_append, attended.polled]
      rfl
  · exact fun _ active => attended.latest_step settled stepped active

/-- Nothing waits to be served, and all of the talk was taken, when a frame is there to be polled. -/
theorem Attended.taken_of_polling {sent : Sent} (attended : Attended cfg data t)
    (consumes : Consumes cfg t sent t') : t'.net.taken = t.helper.number := by
  obtain ⟨rest, next⟩ := consumes.next
  obtain ⟨after, polls⟩ := consumes.polled
  obtain ⟨_, _, _, same⟩ := Session.polled consumes.stepped
  have working := attended.polling polls
  have latest := attended.latest _ working
  have phase := attended.orderly.phase
  rw [same]
  generalize t.helper = helper at phase polls working latest
  generalize t.suspended = suspended at phase working
  generalize t.left = left at phase
  cases phase with
  | quiet => cases polls
  | aborting => cases polls
  | finished => cases polls
  | waiting active course flight =>
      cases flight with
      | asked answered queued nothing => cases nothing.symm.trans next
      | underway taken =>
          rw [Net.taken, taken]
          exact latest

/-- What was sent for an operation was consumed by it, or is on the way. -/
theorem Attended.framesFor_eq (attended : Attended cfg data t) (k : Nat) : t.net.framesFor k =
    t.consumedFor k ++ (t.net.toClient.filter fun sent => sent.op == k).map Sent.frame := by
  have own : (t.consumed.filter fun consumed => consumed.1 == k) =
      t.consumed.filter fun consumed => consumed.2.op == k := by
    apply List.filter_congr
    rintro ⟨k', sent⟩ member
    rw [attended.orderly.own k' sent member]
  have consumed : t.consumedFor k = ((t.net.received.filter fun sent => sent.op == k).map Sent.frame) := by
    rw [consumedFor, own, ← attended.polled, List.filter_map, List.map_map]
    rfl
  rw [consumed, Net.framesFor, Net.sent, List.filter_append, List.map_append]

/-- What has become of the op, and what was consumed for it. -/
structure Gets (k : Nat) (data : List String) (f g : Frame) (t : Talk) : Prop where
  asked : Asked k data f g t.net
  consumed : t.consumedFor k <+: Dummy.tokens data f ++ [g]

theorem Gets.step {f g : Frame} {wait : Wait} (gets : Gets k data f g t) (attended : Attended cfg data t)
    (meant : answer cfg.env (.runInstance data) f = .ok (g, wait)) (settled : t.Settled action)
    (stepped : t.step cfg action = some t') : Gets k data f g t' := by
  have attended' := attended.step settled stepped
  have asked : Asked k data f g t'.net :=
    net_invariant gets.asked stepped fun _ _ advanced => gets.asked.step attended.counted meant advanced
  constructor
  · exact asked
  · rcases silent_or_consumes stepped with ⟨consumed, -⟩ | ⟨-, sent, consumes⟩
    · rw [consumedFor, consumed]
      exact gets.consumed
    · by_cases number : t.helper.number = k
      · have taken := attended.taken_of_polling consumes
        rw [number] at taken
        have sent : t'.consumedFor k <+: t'.net.framesFor k := by
          rw [attended'.framesFor_eq]
          exact List.prefix_append _ _
        exact sent.trans (asked.undisturbed taken)
      · have same : t'.consumedFor k = t.consumedFor k := by
          simp [consumedFor, consumes.consumed, List.filter_append, number]
        rw [same]
        exact gets.consumed

/-- The op is queued for an instance that waits, and none of its frames was consumed. -/
theorem Attended.gets {op : Operation} {params : op.Params.Value} {helper : Nat → Helper} {f g : Frame}
    (attended : Attended cfg data t) (idle : t.helper = .idle)
    (settled : t.left = false ∧ t.suspended.length = 0) (encoded : op.Params.frameFrom params = .ok f)
    (stepped : t.initiate cfg op params helper = some t') :
    Gets t'.net.asked.length data f g t' := by
  have phase := attended.orderly.phase
  rw [idle, settled.1, List.length_eq_zero_iff.mp settled.2] at phase
  simp only [initiate, encoded] at stepped
  obtain ⟨net, advanced, rfl⟩ := Option.map_eq_some_iff.mp stepped
  obtain ⟨-, rfl⟩ := pushed advanced
  cases phase with
  | waiting active => cases active
  | @quiet p goal _ course answered taken nothing =>
      constructor
      · obtain ⟨stage, calm⟩ := p
        obtain ⟨f', rfl⟩ : ∃ f', stage = .answered f' := answered
        obtain ⟨wait, waits, -⟩ := Conduct.of_answered course.conduct
        have keeps := attended.keeps
        rw [waits] at keeps
        obtain rfl := keeps
        have queued : t.net.toService ++ [f] = [f] := by rw [taken, List.nil_append]
        exact .queued waits queued (by simp [Net.taken, taken])
      · have none : (t.consumed.filter fun consumed => consumed.1 == t.net.asked.length + 1) = [] := by
          apply List.filter_eq_nil_iff.mpr
          rintro ⟨k, sent⟩ member same
          have own := attended.orderly.own k sent member
          have received : sent ∈ t.net.received := by
            rw [← attended.polled]
            exact List.mem_map_of_mem member
          have small := attended.counted.sent sent (List.mem_append_left _ received)
          have equal : k = t.net.asked.length + 1 := by simpa using same
          have few : t.net.taken ≤ t.net.asked.length := Nat.sub_le _ _
          omega
        simp only [consumedFor, List.length_append, List.length_singleton, none]
        exact List.nil_prefix

end Steps

end Talk

end AlpacaCore.Session
