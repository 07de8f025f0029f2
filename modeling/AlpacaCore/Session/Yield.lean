import AlpacaCore.Session.Attended
import AlpacaCore.Schema.RoundTrip

/-!
What the client gets of an instance, from one end to the other.

`Attended` has what an operation consumes. That it consumes all of it in the end is shown here, and
what it makes of it: between the instance and its client are the encoder, the channels and the
decoder. What a `stream` yields on this side is what the session of the instance yields on the other,
with the parameters it was given here.
-/

namespace AlpacaCore.Session

open AlpacaCore.Schema
open AlpacaCore.System (Reachable Inevitable run)

/-! ### The answer comes -/

/-- Without a push there is less to take, or less left to do. -/
theorem Course.lessens {cfg : Config} {n n' : Net} {action : Action} {goal : Frame × Wait} {p : Progressed}
    (course : Course cfg goal True p n) (stepped : n.step cfg action = some n')
    (other : ∀ f, action ≠ .push f) : ∃ p' goal', Course cfg goal' True p' n' ∧
      Prod.Lex (· < ·) Less (n'.toService.length, remaining cfg p' n')
        (n.toService.length, remaining cfg p n) := by
  rcases course.step stepped with ⟨-, wait, f, -, takes⟩ | ⟨p', continues⟩
  · obtain ⟨goal', meant⟩ := exists_goal cfg.env wait f
    refine ⟨_, goal', (takes.course meant).mono fun _ => trivial, .left _ _ ?_⟩
    rw [takes.next]
    exact Nat.lt_add_one _
  · refine ⟨p', goal, continues.course, ?_⟩
    cases continues.queues with
    | grows new asked toService pushed =>
        cases new with
        | nil =>
            rw [toService, List.append_nil]
            exact .right _ continues.less
        | cons f new =>
            obtain ⟨f', push⟩ := pushed nofun
            exact absurd push (other f')
    | grabbed f asked toService =>
        rw [toService]
        exact .left _ _ (Nat.lt_add_one _)

/-- The generator yields each of these frames. -/
def Generator.Yields (g : Generator) (tokens : List Frame) : Prop :=
  ∀ f ∈ tokens, ∃ value, g.op.streamed g.out f = .ok (.item value)

namespace Talk

section Steps

variable {cfg : Config} {data : List String} {t t' : Talk} {action : TalkAction} {k : Nat}

/-- The talk goes on with what was issued: the session or the asset manager does, or the client polls
what is there or resumes its generator. -/
def proceed (cfg : Config) (t : Talk) : TalkAction → Option Talk
  | .poll => t.step cfg .poll
  | .next i => t.step cfg (.next i)
  | .session found => t.step cfg (.session found)
  | .manager => t.step cfg .manager
  | _ => none

/-- The operation is in progress, and will be until all of these frames and one more were polled. -/
inductive Issued (k : Nat) (tokens : List Frame) : Helper → List Generator → Prop where
  | calling {op : Operation} (nothing : tokens = []) : Issued k tokens (.calling op k) []
  | streaming {g : Generator} (own : g.number = k) (yields : g.Yields tokens) :
      Issued k tokens (.streaming g) []
  | yielded {g : Generator} (own : g.number = k) (yields : g.Yields tokens) : Issued k tokens .idle [g]

section Issued

variable {tokens : List Frame} {helper : Helper} {suspended : List Generator}

theorem Issued.active (issued : Issued k tokens helper suspended) : Active k helper suspended := by
  cases issued with
  | calling => exact .calling
  | streaming own => exact .streaming own
  | yielded own => exact .yielded own

/-- Behind one of these frames it is still in progress. -/
theorem Issued.polled {f : Frame} {after : Helper × List Generator}
    (issued : Issued k tokens helper suspended) (polls : helper.polled f = some after)
    (token : f ∈ tokens) : Issued k tokens after.1 (suspended ++ after.2) := by
  cases issued with
  | calling nothing =>
      rw [nothing] at token
      cases token
  | streaming own yields =>
      obtain ⟨value, item⟩ := yields f token
      simp only [Helper.polled, item] at polls
      cases polls
      exact .yielded own yields
  | yielded => cases polls

/-- It polls, or its generator is suspended. -/
theorem Issued.polls (issued : Issued k tokens helper suspended) :
    (∀ f, ∃ after, helper.polled f = some after) ∨ helper = .idle ∧ ∃ g, suspended = [g] := by
  cases issued with
  | calling =>
      left
      intro f
      simp only [Helper.polled]
      split <;> exact ⟨_, rfl⟩
  | streaming =>
      left
      intro f
      simp only [Helper.polled]
      split <;> exact ⟨_, rfl⟩
  | yielded => exact .inr ⟨rfl, _, rfl⟩

theorem Issued.next {i : Nat} {g : Generator} (issued : Issued k tokens .idle suspended)
    (there : suspended[i]? = some g) :
    Issued k tokens (.streaming g) (suspended.eraseIdx i) ∧
      (suspended.eraseIdx i).length < suspended.length := by
  cases issued with
  | yielded own yields =>
      cases i with
      | zero =>
          cases there
          exact ⟨.streaming own yields, Nat.one_pos⟩
      | succ i => cases there

end Issued

/-- The operation goes on. -/
structure Going (cfg : Config) (k : Nat) (data : List String) (f g : Frame) (t : Talk) : Prop where
  attended : Attended cfg data t
  gets : Gets k data f g t
  issued : Issued k (Dummy.tokens data f) t.helper t.suspended

section Going

variable {f g : Frame} {wait : Wait}

/-- When nothing is on the way, the session goes on or all was consumed. -/
theorem Going.session_enabled (going : Going cfg k data f g t) (room : 0 < cfg.sizes.localToRemote)
    (nothing : t.net.toClient = []) : t.consumedFor k = Dummy.tokens data f ++ [g] ∨
      ∃ net, t.net.step cfg (.session false) = some net := by
  have last := going.attended.latest k going.issued.active
  have counted := going.attended.counted
  have below := taken_le t.net
  have small := counted.serving
  cases going.gets.asked with
  | queued waits next =>
      right
      simp only [Net.step, Net.stepSession, waits, next]
      exact ⟨_, rfl⟩
  | inscribed inscribed =>
      cases inscribed with
      -- no frame was pushed since, so the session cannot have taken a further one
      | past served => omega
      | @serving p serving sent looked next writing =>
          cases session : t.net.session with
          | throw x =>
              rw [session] at writing
              exact writing.elim
          | ret wait =>
              left
              rw [session] at writing
              have waiting : t.net.Waiting := ⟨wait, session, writing.1 ▸ rfl⟩
              have whole := ((Inscribed.serving serving sent looked next
                (session ▸ writing)).transcript.undisturbed (by omega)).2 waiting
              rw [going.attended.framesFor_eq, nothing, List.filter_nil, List.map_nil,
                List.append_nil] at whole
              exact whole
          | call op next =>
              right
              rw [session] at writing
              rcases writing.calls with ⟨f, rfl⟩ | rfl
              · simp only [Net.step, Net.stepSession, session, Io.act, nothing, List.length_nil, room,
                  if_true]
                exact ⟨_, rfl⟩
              · simp only [Net.step, Net.stepSession, session, Io.act]
                split <;> exact ⟨_, rfl⟩

/-- Until all was consumed, something can be done. -/
theorem Going.enabled (going : Going cfg k data f g t) (room : 0 < cfg.sizes.localToRemote) :
    t.consumedFor k = Dummy.tokens data f ++ [g] ∨ ∃ action t', t.proceed cfg action = some t' := by
  rcases going.issued.polls with polls | ⟨idle, generator, suspended⟩
  · cases waiting : t.net.toClient with
    | nil =>
        rcases going.session_enabled room waiting with all | ⟨net, advanced⟩
        · exact .inl all
        · right
          refine ⟨.session false, { t with net }, ?_⟩
          simp only [proceed, step, advanced, Option.map_some]
    | cons sent rest =>
        right
        obtain ⟨after, polls⟩ := polls sent.frame
        refine ⟨.poll, ?_⟩
        simp only [proceed, step, waiting, polls, Option.bind_some, consume, Net.step, Option.map_some]
        exact ⟨_, rfl⟩
  · right
    refine ⟨.next 0, ?_⟩
    simp only [proceed, step, idle, suspended]
    exact ⟨_, rfl⟩

/-- What a poll consumes. -/
theorem Going.poll {sent : Sent} {after : Helper × List Generator} (going : Going cfg k data f g t)
    (gets : Gets k data f g t') (polls : t.helper.polled sent.frame = some after)
    (consumed : t'.consumed = t.consumed ++ [(t.helper.number, sent)]) :
    t'.consumedFor k = Dummy.tokens data f ++ [g] ∨ sent.frame ∈ Dummy.tokens data f := by
  have number := going.issued.active.number polls
  have more : t'.consumedFor k = t.consumedFor k ++ [sent.frame] := by
    simp [consumedFor, consumed, List.filter_append, number]
  have part := gets.consumed
  rw [more] at part ⊢
  rcases List.prefix_concat_iff.mp part with all | ⟨left, part⟩
  · exact .inl all
  · right
    rw [← part]
    simp

/-- What is left to do, by what weighs most: to take the op, to answer it, to resume the generator. -/
abbrev Measure : Type := (Nat × Remaining) × Nat

def measure (cfg : Config) (p : Progressed) (t : Talk) : Measure :=
  ((t.net.toService.length, remaining cfg p t.net), t.suspended.length)

def Fewer : Measure → Measure → Prop := Prod.Lex (Prod.Lex (· < ·) Less) (· < ·)

theorem fewer_wf : WellFounded Fewer := (Nat.lt_wfRel.wf.prod_lex less_wf).prod_lex Nat.lt_wfRel.wf

theorem step_of_proceed (proceeds : t.proceed cfg action = some t') :
    t.Settled action ∧ t.step cfg action = some t' := by
  cases action with
  | poll => exact ⟨trivial, proceeds⟩
  | next i => exact ⟨trivial, proceeds⟩
  | session found => exact ⟨trivial, proceeds⟩
  | manager => exact ⟨trivial, proceeds⟩
  | call op params => cases proceeds
  | stream op out params => cases proceeds
  | destroy i => cases proceeds
  | abort => cases proceeds

/-- Whatever is done there is less left to do; the operation goes on, or all was consumed. -/
theorem Going.step {p : Progressed} {goal : Frame × Wait} (going : Going cfg k data f g t)
    (meant : answer cfg.env (.runInstance data) f = .ok (g, wait)) (course : Course cfg goal True p t.net)
    (proceeds : t.proceed cfg action = some t') :
    (∃ p' goal', Course cfg goal' True p' t'.net ∧ Fewer (measure cfg p' t') (measure cfg p t)) ∧
      (t'.consumedFor k = Dummy.tokens data f ++ [g] ∨ Going cfg k data f g t') := by
  obtain ⟨settled, stepped⟩ := step_of_proceed proceeds
  have attended := going.attended.step settled stepped
  have gets := going.gets.step going.attended meant settled stepped
  have issued := going.issued
  cases action with
  | poll =>
      simp only [Talk.step] at stepped
      split at stepped
      · cases stepped
      · rename_i sent rest next
        obtain ⟨after, polls, stepped⟩ := Option.bind_eq_some_iff.mp stepped
        obtain ⟨net, advanced, rfl⟩ := Option.map_eq_some_iff.mp stepped
        obtain ⟨p', goal', course', lessens⟩ := course.lessens advanced (by simp)
        refine ⟨⟨p', goal', course', .left _ _ lessens⟩, ?_⟩
        rcases going.poll gets polls rfl with all | token
        · exact .inl all
        · exact .inr ⟨attended, gets, issued.polled polls token⟩
  | next i =>
      simp only [Talk.step] at stepped
      split at stepped
      · rename_i generator idle there
        cases stepped
        rw [idle] at issued
        obtain ⟨issued', fewer⟩ := issued.next there
        exact ⟨⟨p, goal, course, .right _ fewer⟩, .inr ⟨attended, gets, issued'⟩⟩
      · cases stepped
  | session found =>
      obtain ⟨net, advanced, rfl⟩ := Option.map_eq_some_iff.mp stepped
      obtain ⟨p', goal', course', lessens⟩ := course.lessens advanced (by simp)
      exact ⟨⟨p', goal', course', .left _ _ lessens⟩, .inr ⟨attended, gets, issued⟩⟩
  | manager =>
      obtain ⟨net, advanced, rfl⟩ := Option.map_eq_some_iff.mp stepped
      obtain ⟨p', goal', course', lessens⟩ := course.lessens advanced (by simp)
      exact ⟨⟨p', goal', course', .left _ _ lessens⟩, .inr ⟨attended, gets, issued⟩⟩
  | call op params => cases proceeds
  | stream op out params => cases proceeds
  | destroy i => cases proceeds
  | abort => cases proceeds

theorem Going.course (going : Going cfg k data f g t) :
    ∃ p goal, Course cfg goal True p t.net := by
  have phase := going.attended.orderly.phase
  have active := going.issued.active
  generalize t.helper = helper at phase active
  generalize t.suspended = suspended at phase active
  generalize t.left = left at phase
  cases phase with
  | quiet => cases active
  | waiting _ course => exact ⟨_, _, course⟩
  | aborting => cases active
  | finished => cases active

/-- All of it is consumed in the end. -/
theorem Going.comes (going : Going cfg k data f g t)
    (meant : answer cfg.env (.runInstance data) f = .ok (g, wait)) (room : 0 < cfg.sizes.localToRemote) :
    Inevitable (proceed cfg) (fun t' => t'.consumedFor k = Dummy.tokens data f ++ [g]) t := by
  obtain ⟨p, goal, course⟩ := going.course
  suffices progress : ∀ m t, ((∃ p goal, Course cfg goal True p t.net ∧ m = measure cfg p t) ∧
      (t.consumedFor k = Dummy.tokens data f ++ [g] ∨ Going cfg k data f g t)) → _ from
    Inevitable.of_measure fewer_wf progress ⟨⟨p, goal, course, rfl⟩, .inr going⟩
  -- what is left of the course and how far the operation is, carried together
  rintro m t ⟨⟨p, goal, course, rfl⟩, all | going⟩
  · exact .inl all
  · rcases going.enabled room with all | enabled
    · exact .inl all
    · right
      refine ⟨enabled, fun action t' proceeds => ?_⟩
      obtain ⟨⟨p', goal', course', fewer⟩, further⟩ := going.step meant course proceeds
      exact ⟨_, fewer, ⟨p', goal', course', rfl⟩, further⟩

/-- What is made of the frames that the operation with this number consumes: never more than an initial
part of this, and in the end all of it, if there is room for what the session sends. -/
structure Obtains {O : Type} (cfg : Config) (k : Nat) (made : Frame → O) (all : List O) (t : Talk) :
    Prop where
  initial : ∀ t', Reachable (Talk.step cfg) Settled t t' → (t'.consumedFor k).map made <+: all
  comes : 0 < cfg.sizes.localToRemote →
    Inevitable (proceed cfg) (fun t' => (t'.consumedFor k).map made = all) t

theorem Going.obtains {O : Type} {made : Frame → O} {all : List O} (going : Going cfg k data f g t)
    (meant : answer cfg.env (.runInstance data) f = .ok (g, wait))
    (whole : (Dummy.tokens data f ++ [g]).map made = all) : Obtains cfg k made all t := by
  constructor
  · intro t' later
    have kept : ∀ t action t', Attended cfg data t ∧ Gets k data f g t → t.Settled action →
        t.step cfg action = some t' → Attended cfg data t' ∧ Gets k data f g t' := by
      rintro t action t' ⟨attended, gets⟩ settled stepped
      exact ⟨attended.step settled stepped, gets.step attended meant settled stepped⟩
    rw [← whole]
    exact (later.invariant ⟨going.attended, going.gets⟩ kept).2.consumed.map _
  · intro room
    apply (going.comes meant room).mono
    intro t' consumed
    rw [consumed, whole]

/-- An operation that is issued goes on. -/
theorem Attended.going {op : Operation} {params : op.Params.Value} {helper : Nat → Helper} {f g : Frame}
    (attended : Attended cfg data t) (attended' : Attended cfg data t') (idle : t.helper = .idle)
    (settled : t.left = false ∧ t.suspended.length = 0) (encoded : op.Params.frameFrom params = .ok f)
    (issued : ∀ number, Issued number (Dummy.tokens data f) (helper number) [])
    (stepped : t.initiate cfg op params helper = some t') : Going cfg t'.net.asked.length data f g t' := by
  refine ⟨attended', attended.gets idle settled encoded stepped, ?_⟩
  simp only [initiate, encoded] at stepped
  obtain ⟨net, -, rfl⟩ := Option.map_eq_some_iff.mp stepped
  simp only [List.length_eq_zero_iff.mp settled.2]
  exact issued _

theorem attended_of_settled (reached : Reachable (Talk.step cfg) Settled (start (.runInstance data)) t) :
    Attended cfg data t :=
  reached.invariant (attended_start cfg data) fun _ _ _ attended settled stepped =>
    attended.step settled stepped

end Going

end Steps

/-! ### From one end to the other -/

theorem inferenceParams_distinct : inferenceParams.Distinct := by
  simp [inferenceParams, FieldType.Distinct, Fields.Distinct, Fields.names]

/-- The session that the instance makes of the same parameters. -/
theorem createSession_same {data : List String} {params params' : InferenceParams}
    (same : inferenceParams.Same params params') :
    Dummy.createSession data params = Dummy.createSession data params' := by
  have values : ∀ {A : Type} {related : A → A → Prop} {value value' : Option A},
      Option.Rel related value value' → (∀ a a', related a a' → a = a') → value = value' := by
    intro A related value value' both equal
    cases both with
    | none => rfl
    | some pair => rw [equal _ _ pair]
  obtain ⟨input, splice, throwOn, ⟨⟩⟩ := params
  obtain ⟨input', splice', throwOn', ⟨⟩⟩ := params'
  obtain ⟨first, second, third, -⟩ := same
  have first : input.value = input'.value :=
    values first fun _ _ each => List.forall₂_eq_eq_eq ▸ each
  have second : splice.value = splice'.value := values second fun _ _ equal => equal
  have third : throwOn.value = throwOn'.value := values third fun _ _ equal => equal
  simp only [Dummy.createSession, Field.materialize, first, second, third]

/-- The client's parameters, on the other side. -/
theorem params_decoded {id : String} {params : InferenceParams} {f : Frame}
    (encoded : (Kind.mk id _ inferenceParams).frameFrom params = .ok f)
    (restored : inferenceParams.Restored inferenceParams.empty params) (data : List String) :
    f.op = id ∧ ∃ params', (Kind.mk id _ inferenceParams).frameOptTo f = .ok (some params') ∧
      Dummy.createSession data params' = Dummy.createSession data params := by
  obtain ⟨d, written, named⟩ := bind_ok.mp encoded
  cases named
  obtain ⟨params', decoded, same⟩ :=
    (inferenceParams.read_write inferenceParams_distinct written).mpr restored
  refine ⟨rfl, params', ?_, (createSession_same same).symm⟩
  rw [Kind.frameOptTo, if_pos (by simp [Kind.frameIs]), FieldType.fromDict, decoded]
  rfl

/-- What the generator of a `stream` makes of what is polled for it. -/
def outcomes (s : Tokens) : List (Except Exception (Streamed streamOp OpStream.StreamToken)) :=
  s.words.map (fun w => .ok (.item w)) ++
    [match s.thrown with
      | some what => .error (.runtime ("error: " ++ what))
      | none => .ok (.completed ())]

theorem stream_meant (env : Env) (data : List String) {params : InferenceParams} {f : Frame}
    (other : OpRun.Params.frameOptTo f = .ok none)
    (decoded : OpStream.Params.frameOptTo f = .ok (some params)) :
    ∃ g, answer env (.runInstance data) f = .ok (g, .runInstance data) ∧
      (Dummy.tokens data f ++ [g]).map (streamOp.streamed OpStream.StreamToken) =
        outcomes (Dummy.createSession data params) := by
  have words : Dummy.tokens data f =
      (Dummy.createSession data params).words.map OpStream.StreamToken.frame := by
    rw [Dummy.tokens, other, decoded]
  simp only [answer, Dummy.answerRunInstance, Dummy.answerStream, other, decoded, bind, Except.bind,
    words, outcomes, List.map_append, List.map_map]
  cases thrown : (Dummy.createSession data params).thrown with
  | some what => exact ⟨⟨Error.id, .string what⟩, rfl, rfl⟩
  | none => exact ⟨⟨OpStream.Return.id, .null⟩, rfl, rfl⟩

theorem tokens_yielded (data : List String) {params : InferenceParams} {f : Frame} {k : Nat}
    (other : OpRun.Params.frameOptTo f = .ok none)
    (decoded : OpStream.Params.frameOptTo f = .ok (some params)) :
    Generator.Yields ⟨streamOp, OpStream.StreamToken, k⟩ (Dummy.tokens data f) := by
  rw [Dummy.tokens, other, decoded]
  intro token member
  obtain ⟨w, -, rfl⟩ := List.mem_map.mp member
  exact ⟨w, rfl⟩

/-- **Remote streams.** A `stream` that is issued in a settled talk with an instance yields the words
of the session that the instance makes of the client's parameters, in their order, and then it is
completed or throws what that session throws. It never has more than an initial part of this, and
when it is resumed as long as it is suspended, it comes to the end, whatever the schedule. -/
theorem stream_yields {cfg : Config} {data : List String} {params : InferenceParams} {f : Frame}
    {t t₁ : Talk} (reached : Reachable (step cfg) Settled (start (.runInstance data)) t)
    (encoded : OpStream.Params.frameFrom params = .ok f)
    (restored : inferenceParams.Restored inferenceParams.empty params)
    (settled : t.Settled (.stream streamOp OpStream.StreamToken params))
    (issued : t.step cfg (.stream streamOp OpStream.StreamToken params) = some t₁) :
    Obtains cfg t₁.net.asked.length (streamOp.streamed OpStream.StreamToken)
      (outcomes (Dummy.createSession data params)) t₁ := by
  obtain ⟨named, params', decoded, same⟩ := params_decoded encoded restored data
  have other : OpRun.Params.frameOptTo f = .ok none := by
    rw [Kind.frameOptTo, Kind.frameIs, named]
    rfl
  obtain ⟨g, meant, whole⟩ := stream_meant cfg.env data other decoded
  have attended := attended_of_settled reached
  have attended₁ := attended.step settled issued
  simp only [step] at issued
  split at issued
  · rename_i idle
    have going := attended.going (g := g) attended₁ idle settled encoded
      (fun _ => .streaming rfl (tokens_yielded data other decoded)) issued
    rw [← same]
    exact going.obtains meant whole
  · cases issued

theorem restored_echo : inferenceParams.Restored inferenceParams.empty echo := by
  simp [inferenceParams, echo, FieldType.Restored, Fields.Restored, Field.written, Field.ofValue]

/-- Both words of the client's parameters, and the end; here they have all come. -/
theorem stream_yields_echo :
    ∃ t₁ t₂, step .noFiles (start (.runInstance [])) (.stream streamOp OpStream.StreamToken echo) = some t₁ ∧
      Obtains .noFiles 1 (streamOp.streamed OpStream.StreamToken)
        [.ok (.item "a"), .ok (.item "b"), .ok (.completed ())] t₁ ∧
      run (step .noFiles) t₁ ((streamed 2).tail ++ [.poll]) = some t₂ ∧ (t₂.consumedFor 1).length = 3 := by
  obtain ⟨t₁, t₂, issued, number, computed, all⟩ : ∃ t₁ t₂,
      step .noFiles (start (.runInstance [])) (.stream streamOp OpStream.StreamToken echo) = some t₁ ∧
      t₁.net.asked.length = 1 ∧ run (step .noFiles) t₁ ((streamed 2).tail ++ [.poll]) = some t₂ ∧
      (t₂.consumedFor 1).length = 3 :=
    ⟨_, _, rfl, rfl, rfl, rfl⟩
  refine ⟨t₁, t₂, issued, ?_, computed, all⟩
  rw [← number]
  exact stream_yields .start rfl restored_echo ⟨rfl, rfl⟩ issued

/-- What a `call` of `run` makes of what it polls. -/
def result (s : Tokens) : Except Exception runOp.Return.Value :=
  match s.thrown with
  | some what => .error (.runtime ("error: " ++ what))
  | none =>
      let res := s.words.foldl (fun res w => res ++ w ++ " ") ""
      .ok ((Schema.Field.make .required).fill (res.dropEnd 1).toString, ())

theorem tokens_run (data : List String) {params : InferenceParams} {f : Frame}
    (decoded : OpRun.Params.frameOptTo f = .ok (some params)) : Dummy.tokens data f = [] := by
  rw [Dummy.tokens, decoded]

theorem run_meant (env : Env) (data : List String) {params : InferenceParams} {f : Frame}
    (decoded : OpRun.Params.frameOptTo f = .ok (some params)) :
    ∃ g, answer env (.runInstance data) f = .ok (g, .runInstance data) ∧
      (Dummy.tokens data f ++ [g]).map runOp.called = [result (Dummy.createSession data params)] := by
  simp only [answer, Dummy.answerRunInstance, decoded, bind, Except.bind, tokens_run data decoded,
    List.nil_append, List.map_cons, List.map_nil, result, Dummy.run]
  cases (Dummy.createSession data params).thrown with
  | some what => exact ⟨⟨Error.id, .string what⟩, rfl, rfl⟩
  | none => exact ⟨_, rfl, rfl⟩

/-- **Remote calls.** A call of `run` that is issued in a settled talk with an instance gets one
frame, and with it the text of the session that the instance makes of the client's parameters, or
what that session throws. It never gets another one, and this one it gets, whatever the schedule. -/
theorem call_returns {cfg : Config} {data : List String} {params : InferenceParams} {f : Frame}
    {t t₁ : Talk} (reached : Reachable (step cfg) Settled (start (.runInstance data)) t)
    (encoded : OpRun.Params.frameFrom params = .ok f)
    (restored : inferenceParams.Restored inferenceParams.empty params)
    (settled : t.Settled (.call runOp params)) (issued : t.step cfg (.call runOp params) = some t₁) :
    Obtains cfg t₁.net.asked.length runOp.called [result (Dummy.createSession data params)] t₁ := by
  obtain ⟨-, params', decoded, same⟩ := params_decoded encoded restored data
  obtain ⟨g, meant, whole⟩ := run_meant cfg.env data decoded
  have attended := attended_of_settled reached
  have attended₁ := attended.step settled issued
  simp only [step] at issued
  split at issued
  · rename_i idle
    have going := attended.going (g := g) attended₁ idle settled encoded
      (fun _ => .calling (tokens_run data decoded)) issued
    rw [← same]
    exact going.obtains meant whole
  · cases issued

theorem call_returns_echo :
    ∃ t₁ t₂, step .noFiles (start (.runInstance [])) (.call runOp echo) = some t₁ ∧
      Obtains .noFiles 1 runOp.called [result ⟨["a", "b"], none⟩] t₁ ∧
      run (step .noFiles) t₁ called.tail = some t₂ ∧ (t₂.consumedFor 1).length = 1 := by
  obtain ⟨t₁, t₂, issued, number, computed, all⟩ : ∃ t₁ t₂,
      step .noFiles (start (.runInstance [])) (.call runOp echo) = some t₁ ∧
      t₁.net.asked.length = 1 ∧ run (step .noFiles) t₁ called.tail = some t₂ ∧
      (t₂.consumedFor 1).length = 1 :=
    ⟨_, _, rfl, rfl, rfl, rfl⟩
  refine ⟨t₁, t₂, issued, ?_, computed, all⟩
  rw [← number]
  exact call_returns .start rfl restored_echo ⟨rfl, rfl⟩ issued

end Talk

end AlpacaCore.Session
