import AlpacaCore.Schema.Describe
import AlpacaCore.Session.Transcript

/-!
What a session says, by the interface of its service.

An interface declares the states of a session: the ops of each, what they return and what else
they send. A session announces each state it comes to. Whatever its client does, it says
nothing that is not declared for the state it has announced last, and all that it says can be
read, by the description of its kind as well as by the decoder; this goes for the reports of
the asset manager too, which the dummy passes on without a look at their data.
-/

namespace AlpacaCore.Session

open AlpacaCore.Schema
open AlpacaCore.System (Coro Reachable Free run reachable_of_run)

/-! ### Interfaces -/

/-- An op of a state: `OpParams<Op>`, `OpReturn<Op>` and its `Outs`. -/
structure StateOp where
  Params : Kind
  Return : Kind
  Outs : List Kind

structure State where
  id : String
  Ops : List StateOp

def StateDummy : State := ⟨stateDummy, [⟨OpLoadModel.Params, StateChange, [Progress]⟩]⟩

def StateModelLoaded : State := ⟨stateModelLoaded, [⟨OpCreateInstance.Params, StateChange, []⟩]⟩

def StateInstance : State :=
  ⟨stateInstance, [⟨OpRun.Params, OpRun.Return, []⟩,
    ⟨OpStream.Params, OpStream.Return, [OpStream.StreamToken]⟩]⟩

/-- `schema::amgr::State`. -/
def AssetMgr.State : State :=
  ⟨assetMgrState, [⟨OpMakeAssetsAvailable.Params, OpMakeAssetsAvailable.Return, [Progress]⟩]⟩

/-- The states of the service's sessions, in the order in which they come to them. -/
def Service.states : Service → List State
  | .assetMgr => [AssetMgr.State]
  | .dummy => [StateDummy, StateModelLoaded, StateInstance]

/-- The kinds of frames that may be sent in the state. -/
def State.kinds (state : State) : List Kind :=
  Error :: state.Ops.flatMap fun op => op.Return :: op.Outs

/-- The frame conforms to the description of the kind, and is decoded as one. -/
structure Kind.Readable (kind : Kind) (f : Frame) : Prop where
  is : kind.frameIs f = true
  conforms : ∃ schema, kind.type.toSchema = .ok schema ∧ Conforms schema f.data
  decoded : ∃ value, kind.frameOptTo f = .ok (some value)

def State.Declares (state : State) (f : Frame) : Prop := ∃ kind ∈ state.kinds, kind.Readable f

def State.announcement (state : State) : Frame := ⟨StateChange.id, .string state.id⟩

/-- With so many states announced, the session sends the frame, and has announced so many then:
what it sends is declared for the state announced last, and the states come one after the other. -/
inductive Utters (states : List State) : Nat → Frame → Nat → Prop where
  | within {k : Nat} {state : State} {f : Frame} (current : states[k]? = some state)
      (declared : state.Declares f) (stays : StateChange.frameIs f = false) :
      Utters states (k + 1) f (k + 1)
  | first {state : State} (next : states[0]? = some state) : Utters states 0 state.announcement 1
  | moves {k : Nat} {state state' : State} (current : states[k]? = some state)
      (declared : state.Declares state'.announcement) (next : states[k + 1]? = some state') :
      Utters states (k + 1) state'.announcement (k + 2)

/-- All that was sent, and how many states were announced by then. -/
inductive Speaks (states : List State) : List Frame → Nat → Prop where
  | silent : Speaks states [] 0
  | utters {sent : List Frame} {k k' : Nat} {f : Frame} (before : Speaks states sent k)
      (now : Utters states k f k') : Speaks states (sent ++ [f]) k'

/-- Who waits in the loop. -/
def Wait.service : Wait → Service
  | .assetMgr => .assetMgr
  | _ => .dummy

/-- How many states are announced when the session waits in the loop. -/
def Wait.announced : Wait → Nat
  | .assetMgr => 1
  | .runSession => 1
  | .runModel _ => 2
  | .runInstance _ => 3
  | .fetch _ => 1

/-- What the session has sent is as the interface has it, and when it waits for its client, the ops
it takes are those of the state announced last. -/
def Net.KeepsInterface (service : Service) (n : Net) : Prop :=
  ∃ k, Speaks service.states (n.sent.map Sent.frame) k ∧
    ∀ wait, n.session = .ret wait → wait.forClient = true →
      ∃ state, service.states[k - 1]? = some state ∧ wait.kinds = state.Ops.map StateOp.Params

/-! ### What is made can be read -/

theorem Kind.readable_of_made {kind : Kind} {value : kind.Value} {f : Frame} {schema : Dict}
    (distinct : kind.type.Distinct) (toSchema : kind.type.toSchema = .ok schema)
    (described : kind.type.Described value)
    (decodes : ∀ d, kind.type.toDict value = .ok d → ∃ value, kind.type.fromDict d = .ok value)
    (made : kind.frameFrom value = .ok f) : kind.Readable f := by
  obtain ⟨data, encoded, same⟩ := bind_ok.mp made
  cases same
  constructor
  · exact beq_self_eq_true kind.id
  · exact ⟨schema, toSchema, (kind.type.conforms_iff distinct toSchema encoded).mpr described⟩
  · obtain ⟨value, decoded⟩ := decodes data encoded
    exact ⟨value, frameOptTo_eq rfl decoded⟩

/-- The description and the decoder take what is written of the value. -/
structure Kind.Sound (kind : Kind) (value : kind.Value) : Prop where
  distinct : kind.type.Distinct
  described : kind.type.Described value
  restored : kind.type.Restored kind.type.empty value

theorem Kind.Sound.readable {kind : Kind} {f : Frame} {schema : Dict} (value : kind.Value)
    (sound : kind.Sound value) (toSchema : kind.type.toSchema = .ok schema)
    (made : kind.frameFrom value = .ok f) : kind.Readable f := by
  apply Kind.readable_of_made sound.distinct toSchema sound.described _ made
  intro d encoded
  obtain ⟨value, decoded, -⟩ := (kind.type.read_write sound.distinct encoded).mpr sound.restored
  exact ⟨value, decoded⟩

/-- A text is read as it was written. -/
theorem Error.readable (what : String) : Error.Readable ⟨Error.id, .string what⟩ :=
  Kind.Sound.readable what ⟨trivial, trivial, trivial⟩ rfl rfl

theorem StateChange.readable (state : State) : StateChange.Readable state.announcement :=
  Kind.Sound.readable state.id ⟨trivial, trivial, trivial⟩ rfl rfl

theorem OpStream.StreamToken.readable (w : String) :
    OpStream.StreamToken.Readable (OpStream.StreamToken.frame w) :=
  Kind.Sound.readable w ⟨trivial, trivial, trivial⟩ rfl rfl

theorem OpStream.Return.readable : OpStream.Return.Readable ⟨OpStream.Return.id, .null⟩ :=
  Kind.Sound.readable () ⟨trivial, trivial, trivial⟩ rfl rfl

/-- A report has all its fields. -/
theorem Progress.readable {progress : Float32} {tag action : String} {f : Frame}
    (made : Progress.frameFrom (.of progress tag action) = .ok f) : Progress.Readable f := by
  apply Kind.Sound.readable _ _ rfl made
  constructor
  · simp [Progress, FieldType.Distinct, Fields.Distinct, Fields.names]
  · exact ⟨⟨trivial, trivial, trivial, trivial⟩, .inl (Option.some_ne_none _)⟩
  · exact ⟨trivial, trivial, trivial, trivial⟩

theorem OpRun.Return.readable {res : String} {f : Frame}
    (made : OpRun.Return.frameFrom ((Schema.Field.make .required).fill res, ()) = .ok f) :
    OpRun.Return.Readable f := by
  apply Kind.Sound.readable _ _ rfl made
  constructor
  · simp [OpRun.Return, FieldType.Distinct, Fields.Distinct, Fields.names]
  · exact ⟨⟨trivial, trivial⟩, .inl (Option.some_ne_none _)⟩
  · exact ⟨trivial, trivial⟩

/-- Assets that have a tag and a URI are written with both. -/
theorem OpMakeAssetsAvailable.Return.readable {assets : List AssetInfo} {f : Frame}
    (given : ∀ asset ∈ assets, asset.Given)
    (made : OpMakeAssetsAvailable.Return.frameFrom assets = .ok f) :
    OpMakeAssetsAvailable.Return.Readable f := by
  apply Kind.readable_of_made distinct_assetInfos rfl _ _ made
  · intro asset member
    obtain ⟨tag, uri, last⟩ := asset
    obtain ⟨tagGiven, uriGiven⟩ := given _ member
    obtain ⟨tagValue, tagWritten⟩ := Option.isSome_iff_exists.mp tagGiven
    obtain ⟨uriValue, uriWritten⟩ := Option.isSome_iff_exists.mp uriGiven
    simp only at tagWritten uriWritten
    simp [Fields.Described, Fields.SomeWritten, FieldType.Described, tagWritten, uriWritten]
  · exact fun d encoded => fromDict_of_toDict given encoded

/-! ### Coroutines -/

/-- A frame that the asset manager may send. -/
def Heard (f : Frame) : Prop := ∃ k k', Utters Service.assetMgr.states k f k'

/-- At the connection to the asset manager are its frames. -/
def Hears : (op : Op) → op.Res → Prop
  | .amgrio .poll, f => Heard f
  | _, _ => True

inductive Voices (states : List State) : Nat → (op : Op) → op.Res → Nat → Prop where
  | push {k k' : Nat} {f : Frame} (utters : Utters states k f k') :
      Voices states k (.io (.push f)) () k'
  | put {k : Nat} {f : Frame} (utters : Utters states k f k) : Voices states k (.io (.put f)) () k
  | look {k : Nat} {found : Option Frame} : Voices states k (.io .get) found k
  | amgrio {k : Nat} {op : Io} {r : op.Res} : Voices states k (.amgrio op) r k
  | connect {k : Nat} : Voices states k .connect () k
  | find {k : Nat} {params : Model.Params} {found : Option Model} :
      Voices states k (.find params) found k

/-- From here on the session sends what its interface declares. -/
abbrev Speaking (service : Service) (k : Nat) (c : Program Wait) : Prop :=
  c.Follows (Voices service.states) Hears
    (fun k wait => wait.service = service ∧ k = wait.announced) (fun _ _ => True) k

/-- It has taken a frame in the loop. -/
abbrev Wait.Speaks (wait : Wait) (c : Program Wait) : Prop := Speaking wait.service wait.announced c

/-- The frame may be sent in the loop. -/
abbrev Wait.May (wait : Wait) (f : Frame) : Prop :=
  Utters wait.service.states wait.announced f wait.announced

def BlockSpoke (wait : Wait) : Nat → Outcome → Prop
  | k, .reply f => k = wait.announced ∧ wait.May f
  | k, .enter inner => inner.service = wait.service ∧ k = inner.announced

/-- The block of the loop does so; it throws nothing once it has announced a state. -/
abbrev SpeakingBlock (wait : Wait) (block : Program Outcome) : Prop :=
  block.Follows (Voices wait.service.states) Hears (BlockSpoke wait) (fun k _ => k = wait.announced)
    wait.announced

theorem Kind.Readable.within {kind : Kind} {states : List State} {k : Nat} {state : State} {f : Frame}
    (readable : kind.Readable f) (current : states[k]? = some state) (member : kind ∈ state.kinds)
    (stays : kind.id ≠ StateChange.id) : Utters states (k + 1) f (k + 1) := by
  apply Utters.within current ⟨kind, member, readable⟩
  have is := readable.is
  simp only [Kind.frameIs, beq_iff_eq] at is
  simp only [Kind.frameIs, is, beq_eq_false_iff_ne]
  exact stays

/-- An error may be sent everywhere. -/
theorem may_error (wait : Wait) (what : String) : wait.May ⟨Error.id, .string what⟩ := by
  cases wait <;> exact (Error.readable what).within rfl (.head _) (by decide)

theorem SpeakingBlock.attempt {wait : Wait} {block : Program Outcome} (speaking : SpeakingBlock wait block) :
    wait.Speaks (attempt wait block) := by
  refine Coro.Follows.bind (?_ : Coro.Follows _ _ (BlockSpoke wait) (fun _ _ => True) _ _) ?_
  · apply Coro.Follows.tryCatch speaking
    rintro k x rfl
    cases x with
    | runtime what => exact ⟨rfl, may_error wait what⟩
    | json what => trivial
  · intro k outcome ended
    cases outcome with
    | reply f =>
        obtain ⟨rfl, may⟩ := ended
        intro r _
        exact ⟨_, .push may, rfl, rfl⟩
    | enter inner => exact ended

namespace SpeakingBlock

variable {wait : Wait} {block : Program Outcome}

theorem ofExcept_bind {A : Type} {x : Except Exception A} {f : A → Program Outcome}
    (rest : ∀ a, x = .ok a → SpeakingBlock wait (f a)) : SpeakingBlock wait (Coro.ofExcept x >>= f) :=
  Coro.Follows.ofExcept_bind rest fun _ _ => rfl

theorem reply {f : Frame} (may : wait.May f) : SpeakingBlock wait (pure (.reply f)) := ⟨rfl, may⟩

theorem enter {f : Frame} (inner : Wait) (service : inner.service = wait.service)
    (utters : Utters wait.service.states wait.announced f inner.announced) :
    SpeakingBlock wait (push f >>= fun _ => pure (.enter inner)) :=
  fun _ _ => ⟨_, .push utters, service, rfl⟩

theorem put {f : Frame} (may : wait.May f) (rest : SpeakingBlock wait block) :
    SpeakingBlock wait (put f >>= fun _ => block) :=
  fun _ _ => ⟨_, .put may, rest⟩

theorem find {params : Model.Params} {f : Option Model → Program Outcome}
    (rest : ∀ found, SpeakingBlock wait (f found)) :
    SpeakingBlock wait ((.perform (Op.find params) : Program _) >>= f) :=
  fun found _ => ⟨_, .find, rest found⟩

theorem abortCheck {f : Bool → Program Outcome} (rest : ∀ aborted, SpeakingBlock wait (f aborted)) :
    SpeakingBlock wait (abortCheck >>= f) := by
  intro found _
  refine ⟨_, .look, ?_⟩
  cases found with
  | none => exact rest false
  | some frame =>
      change ((if Abort.frameIs frame = true then .ret true
        else Session.throwEx ("Unexpected frame: " ++ frame.op) : Program Bool) >>= f).Follows _ _ _ _ _
      split
      · exact rest true
      · rfl

theorem unknownOp (f : Frame) : SpeakingBlock wait (do return .reply (← Dummy.unknownOpError f)) :=
  .reply (may_error wait _)

end SpeakingBlock

/-! ### Loops -/

section Loops

variable {env : Env}

theorem runModel_speaks (model : Model) (f : Frame) :
    (Wait.runModel model).Speaks (Dummy.runModel model f) := by
  apply SpeakingBlock.attempt
  apply SpeakingBlock.ofExcept_bind
  intro params _
  cases params with
  | none => exact .unknownOp f
  | some params =>
      obtain ⟨cutoff, -⟩ := params
      apply SpeakingBlock.ofExcept_bind
      intro data _
      have declared : StateModelLoaded.Declares StateInstance.announcement :=
        ⟨StateChange, .tail _ (.head _), StateChange.readable StateInstance⟩
      exact .enter (.runInstance data) rfl (.moves rfl declared rfl)

theorem runStream_speaks {data : List String} (words : List String) (thrown : Option String) :
    SpeakingBlock (.runInstance data) (do return .reply (← Dummy.runStream words thrown)) := by
  have returned : (Wait.runInstance data).May ⟨OpStream.Return.id, .null⟩ :=
    OpStream.Return.readable.within rfl (.tail _ (.tail _ (.head _))) (by decide)
  induction words with
  | nil =>
      cases thrown with
      | some what => rfl
      | none => exact .reply returned
  | cons w words ih =>
      unfold Dummy.runStream
      rw [bind_assoc]
      apply SpeakingBlock.abortCheck
      intro aborted
      cases aborted with
      | true => exact .reply returned
      | false =>
          have token : (Wait.runInstance data).May (OpStream.StreamToken.frame w) :=
            (OpStream.StreamToken.readable w).within rfl (.tail _ (.tail _ (.tail _ (.head _)))) (by decide)
          exact fun _ _ => ⟨_, .push token, ih⟩

theorem runInstance_speaks (data : List String) (f : Frame) :
    (Wait.runInstance data).Speaks (Dummy.runInstance data f) := by
  apply SpeakingBlock.attempt
  apply SpeakingBlock.ofExcept_bind
  intro params _
  cases params with
  | some params =>
      apply SpeakingBlock.ofExcept_bind
      intro result ran
      unfold Dummy.run at ran
      split at ran
      · cases ran
      · exact .reply ((OpRun.Return.readable ran).within rfl (.tail _ (.head _)) (by decide))
  | none =>
      apply SpeakingBlock.ofExcept_bind
      intro params _
      cases params with
      | some params => exact runStream_speaks _ _
      | none => exact .unknownOp f

/-- Until a model is loaded its progress is reported. -/
theorem loadModel_speaks (params : Model.Params) :
    SpeakingBlock .runSession (Dummy.loadModel env params) := by
  have report : ∀ {progress tag action f}, Progress.frameFrom (.of progress tag action) = .ok f →
      Wait.runSession.May f := fun made =>
    (Progress.readable made).within rfl (.tail _ (.tail _ (.head _))) (by decide)
  have declared : StateDummy.Declares StateModelLoaded.announcement :=
    ⟨StateChange, .tail _ (.head _), StateChange.readable StateModelLoaded⟩
  unfold Dummy.loadModel
  apply SpeakingBlock.ofExcept_bind
  intro started made
  apply SpeakingBlock.put (report made)
  apply SpeakingBlock.find
  intro found
  cases found with
  | some model => exact .enter (.runModel model) rfl (.moves rfl declared rfl)
  | none =>
      apply SpeakingBlock.ofExcept_bind
      intro missed made
      apply SpeakingBlock.put (report made)
      apply SpeakingBlock.ofExcept_bind
      intro model _
      exact .enter (.runModel model) rfl (.moves rfl declared rfl)

theorem runSession_speaks (f : Frame) : Wait.runSession.Speaks (Dummy.runSession env f) := by
  apply SpeakingBlock.attempt
  apply SpeakingBlock.ofExcept_bind
  intro params _
  cases params with
  | none => exact .unknownOp f
  | some params =>
      obtain ⟨assets, spliceString, last⟩ := params
      simp only
      split
      · refine fun _ _ => ⟨_, .connect, fun greeting _ => ⟨_, .amgrio, ?_⟩⟩
        apply SpeakingBlock.ofExcept_bind
        exact fun request _ _ _ => ⟨_, .amgrio, rfl, rfl⟩
      · exact loadModel_speaks _

/-- What the asset manager reports may be passed on. -/
theorem Heard.may {f : Frame} (heard : Heard f) (progress : Progress.frameIs f = true) :
    Wait.runSession.May f := by
  obtain ⟨k, k', utters⟩ := heard
  cases utters with
  | within current declared =>
      have state : AssetMgr.State = _ := (List.mem_singleton.mp (List.mem_of_getElem? current)).symm
      obtain ⟨kind, member, readable⟩ := declared
      subst state
      have same : kind.id = Progress.id :=
        (beq_iff_eq.mp readable.is).symm.trans (beq_iff_eq.mp progress)
      simp only [State.kinds, AssetMgr.State, List.flatMap_cons, List.flatMap_nil, List.append_nil,
        List.mem_cons, List.not_mem_nil, or_false] at member
      rcases member with rfl | rfl | rfl
      · exact absurd same (by decide)
      · exact absurd same (by decide)
      · exact readable.within rfl (.tail _ (.tail _ (.head _))) (by decide)
  | first => cases progress
  | moves => cases progress

theorem fetch_speaks {splice : String} {res : Frame} (heard : Heard res) :
    Wait.runSession.Speaks (Dummy.fetch env splice res) := by
  apply SpeakingBlock.attempt
  have check : SpeakingBlock .runSession (do
      if ← abortCheck then throwEx "aborted"
      else return .enter (.fetch splice)) := by
    apply SpeakingBlock.abortCheck
    intro aborted
    cases aborted with
    | true => rfl
    | false => exact ⟨rfl, rfl⟩
  apply SpeakingBlock.ofExcept_bind
  intro failed _
  cases failed with
  | some what => rfl
  | none =>
      simp only
      split
      · rename_i progress
        exact .put (heard.may progress) check
      · apply SpeakingBlock.ofExcept_bind
        intro assets _
        cases assets with
        | some assets => exact loadModel_speaks _
        | none => exact check

theorem makeAssetsAvailable_speaks (assets : List AssetInfo) (given : ∀ asset ∈ assets, asset.Given)
    {f : List AssetInfo → Program Outcome}
    (rest : ∀ assets, (∀ asset ∈ assets, asset.Given) → SpeakingBlock .assetMgr (f assets)) :
    SpeakingBlock .assetMgr (AssetMgr.makeAssetsAvailable env assets >>= f) := by
  have report : ∀ {progress tag action f}, Progress.frameFrom (.of progress tag action) = .ok f →
      Wait.assetMgr.May f := fun made =>
    (Progress.readable made).within rfl (.tail _ (.tail _ (.head _))) (by decide)
  induction assets generalizing f with
  | nil => exact rest [] given
  | cons asset assets ih =>
      obtain ⟨tag, uri, last⟩ := asset
      rw [List.forall_mem_cons] at given
      unfold AssetMgr.makeAssetsAvailable
      simp only [bind_assoc]
      apply SpeakingBlock.ofExcept_bind
      intro started made
      apply SpeakingBlock.put (report made)
      split
      · split
        · rfl
        · split
          · simp only [bind_assoc]
            apply SpeakingBlock.ofExcept_bind
            intro fetched made
            apply SpeakingBlock.put (report made)
            apply ih given.2
            intro provided each
            apply rest
            rw [List.forall_mem_cons]
            exact ⟨⟨given.1.1, rfl⟩, each⟩
          · rfl
      · rfl

theorem assetMgr_speaks (f : Frame) : Wait.assetMgr.Speaks (AssetMgr.runSession env f) := by
  apply SpeakingBlock.attempt
  apply SpeakingBlock.ofExcept_bind
  intro params decoded
  cases params with
  | some assets =>
      have given := given_of_fromDict (frameOptTo_some decoded).2
      apply makeAssetsAvailable_speaks _ given
      intro provided each
      apply SpeakingBlock.ofExcept_bind
      intro returned made
      have readable := OpMakeAssetsAvailable.Return.readable each made
      exact .reply (readable.within rfl (.tail _ (.head _)) (by decide))
  | none => exact .reply (may_error .assetMgr _)

theorem serve_speaks (wait : Wait) (f : Frame) (heard : wait.forClient = false → Heard f) :
    wait.Speaks (serve env wait f) := by
  cases wait with
  | assetMgr => exact assetMgr_speaks f
  | runSession => exact runSession_speaks f
  | runModel model => exact runModel_speaks model f
  | runInstance data => exact runInstance_speaks data f
  | fetch splice => exact fetch_speaks (heard rfl)

end Loops

/-! ### The net -/

section Net

variable {cfg : Config} {service : Service} {n n' : Net} {k : Nat}

/-- What the session has sent is declared, and so is what it and the asset manager will send. -/
structure Spoken (service : Service) (k : Nat) (n : Net) : Prop where
  sent : Speaks service.states (n.sent.map Sent.frame) k
  session : Speaking service k n.session
  heard : ∀ f ∈ n.fromManager, Heard f
  manager : ∃ k, Speaking .assetMgr k n.manager

theorem createSession_speaking (service : Service) : Speaking service 0 service.createSession := by
  cases service with
  | assetMgr =>
      have first : Utters Service.assetMgr.states 0 AssetMgr.State.announcement 1 := .first rfl
      exact fun _ _ => ⟨_, .push first, rfl, rfl⟩
  | dummy =>
      have first : Utters Service.dummy.states 0 StateDummy.announcement 1 := .first rfl
      exact fun _ _ => ⟨_, .push first, rfl, rfl⟩

theorem start_spoken (service : Service) : Spoken service 0 (.start service) := by
  constructor
  · exact .silent
  · exact createSession_speaking service
  · simp [Net.start]
  · exact ⟨1, rfl, rfl⟩

/-- An operation sends nothing, or a frame that may be sent. -/
theorem Speaking.act {W : Type} {limit : Nat} {wrap : Frame → W} {input input' : List Frame}
    {output output' : List W} {op : Io} {next : op.Res → Program Wait} {r : op.Res}
    (speaking : Speaking service k (.call (.io op) next))
    (acted : op.act limit wrap input output = some (r, input', output')) :
    (output' = output ∧ Speaking service k (next r)) ∨
    ∃ f k', output' = output ++ [wrap f] ∧ Utters service.states k f k' ∧
      Speaking service k' (next r) := by
  obtain ⟨k', voiced, later⟩ := speaking r trivial
  cases voiced with
  | push utters =>
      simp only [Io.act] at acted
      split at acted
      · cases acted
        exact .inr ⟨_, _, rfl, utters, later⟩
      · cases acted
  | put utters =>
      simp only [Io.act] at acted
      split at acted
      · cases acted
        exact .inr ⟨_, _, rfl, utters, later⟩
      · cases acted
        exact .inl ⟨rfl, later⟩
  | look =>
      simp only [Io.act] at acted
      split at acted
      · cases acted
        exact .inl ⟨rfl, later⟩
      · cases acted
        exact .inl ⟨rfl, later⟩

/-- What is polled at the connection to the asset manager is one of its frames. -/
theorem hears_of_act {limit : Nat} {input input' output output' : List Frame} {op : Io} {r : op.Res}
    (heard : ∀ f ∈ input, Heard f) (acted : op.act limit id input output = some (r, input', output')) :
    Hears (.amgrio op) r ∧ ∀ f ∈ input', Heard f := by
  cases op with
  | push f =>
      simp only [Io.act] at acted
      split at acted
      · cases acted
        exact ⟨trivial, heard⟩
      · cases acted
  | put f =>
      simp only [Io.act] at acted
      split at acted
      · cases acted
        exact ⟨trivial, heard⟩
      · cases acted
        exact ⟨trivial, heard⟩
  | poll =>
      simp only [Io.act] at acted
      split at acted
      · cases acted
      · cases acted
        exact List.forall_mem_cons.mp heard
  | get =>
      simp only [Io.act] at acted
      split at acted
      · cases acted
        exact ⟨trivial, heard⟩
      · cases acted
        exact ⟨trivial, (List.forall_mem_cons.mp heard).2⟩

theorem Spoken.stepSession {found : Bool} (spoken : Spoken service k n)
    (stepped : n.stepSession cfg found = some n') : ∃ k', Spoken service k' n' := by
  obtain ⟨sent, session, heard, manager⟩ := spoken
  unfold Net.stepSession at stepped
  split at stepped
  · cases stepped
  · rename_i splice waits
    rw [waits] at session
    obtain ⟨rfl, rfl⟩ := session
    split at stepped
    · cases stepped
    · rename_i res rest next
      cases stepped
      rw [next, List.forall_mem_cons] at heard
      exact ⟨_, sent, serve_speaks (.fetch splice) res fun _ => heard.1, heard.2, manager⟩
  · rename_i wait notFetch waits
    rw [waits] at session
    obtain ⟨rfl, rfl⟩ := session
    split at stepped
    · cases stepped
    · rename_i f rest next
      cases stepped
      refine ⟨_, sent, serve_speaks wait f fun waitsForManager => ?_, heard, manager⟩
      cases wait with
      | fetch splice => exact absurd rfl (notFetch splice)
      | _ => cases waitsForManager
  · rename_i op next calls
    obtain ⟨⟨r, toService, toClient⟩, acted, same⟩ := Option.map_eq_some_iff.mp stepped
    cases same
    rw [calls] at session
    rcases session.act acted with ⟨rfl, later⟩ | ⟨f, k', rfl, utters, later⟩
    · exact ⟨k, sent, later, heard, manager⟩
    · refine ⟨k', ?_, later, heard, manager⟩
      simp only [Net.sent, List.map_append, List.map_cons, List.map_nil, ← List.append_assoc]
      rw [Net.sent, List.map_append] at sent
      exact sent.utters utters
  · rename_i op next calls
    obtain ⟨⟨r, fromManager, toManager⟩, acted, same⟩ := Option.map_eq_some_iff.mp stepped
    cases same
    rw [calls] at session
    obtain ⟨hears, rest⟩ := hears_of_act heard acted
    obtain ⟨k', voiced, later⟩ := session r hears
    cases voiced
    exact ⟨k, sent, later, rest, manager⟩
  · rename_i next calls
    cases stepped
    rw [calls] at session
    obtain ⟨k', voiced, later⟩ := session () trivial
    cases voiced
    exact ⟨k, sent, later, by simp, 0, createSession_speaking .assetMgr⟩
  · rename_i params next calls
    rw [calls] at session
    have later : ∀ model, Speaking service k (next model) := by
      intro model
      obtain ⟨k', voiced, later⟩ := session model trivial
      cases voiced
      exact later
    split at stepped
    · split at stepped
      · cases stepped
        exact ⟨k, sent, later _, heard, manager⟩
      · cases stepped
    · cases stepped
      exact ⟨k, sent, later none, heard, manager⟩

theorem Spoken.stepManager (spoken : Spoken service k n) (stepped : n.stepManager cfg = some n') :
    Spoken service k n' := by
  obtain ⟨sent, session, heard, j, manager⟩ := spoken
  unfold Net.stepManager at stepped
  split at stepped
  · rename_i wait waits
    rw [waits] at manager
    obtain ⟨provides, rfl⟩ := manager
    split at stepped
    · cases stepped
    · rename_i f rest next
      cases stepped
      have serves : wait.Speaks (serve cfg.env wait f) := by
        refine serve_speaks wait f fun waitsForManager => ?_
        cases wait with
        | assetMgr => cases waitsForManager
        | _ => cases provides
      exact ⟨sent, session, heard, wait.announced, provides ▸ serves⟩
  · rename_i op next calls
    obtain ⟨⟨r, toManager, fromManager⟩, acted, same⟩ := Option.map_eq_some_iff.mp stepped
    cases same
    rw [calls] at manager
    rcases manager.act acted with ⟨rfl, later⟩ | ⟨f, j', rfl, utters, later⟩
    · exact ⟨sent, session, heard, j, later⟩
    · refine ⟨sent, session, ?_, j', later⟩
      rw [List.forall_mem_append, List.forall_mem_singleton]
      exact ⟨heard, j, j', utters⟩
  · cases stepped

theorem Spoken.step {action : Action} (spoken : Spoken service k n)
    (stepped : n.step cfg action = some n') : ∃ k', Spoken service k' n' := by
  cases action with
  | push f =>
      obtain ⟨-, rfl⟩ := pushed stepped
      exact ⟨k, spoken.sent, spoken.session, spoken.heard, spoken.manager⟩
  | poll =>
      obtain ⟨sent, rest, next, rfl⟩ := polled stepped
      refine ⟨k, ?_, spoken.session, spoken.heard, spoken.manager⟩
      have before := spoken.sent
      simp only [Net.sent, next] at before
      simpa only [Net.sent, List.append_assoc, List.singleton_append] using before
  | session found => exact spoken.stepSession stepped
  | manager => exact ⟨k, spoken.stepManager stepped⟩

/-- **The interface is kept.** Whatever the client of a session does, in every state of every
run all that the session has sent is declared for the state it had announced last, and can be read;
the states come in the order of the interface, and the session takes the ops of its state. -/
theorem session_keeps_interface (reached : Reachable (Net.step cfg) Free (.start service) n) :
    n.KeepsInterface service := by
  have kept : ∀ n action n', (∃ k, Spoken service k n) → Free n action →
      n.step cfg action = some n' → ∃ k, Spoken service k n' := by
    rintro n action n' ⟨k, spoken⟩ - stepped
    exact spoken.step stepped
  obtain ⟨k, spoken⟩ := reached.invariant ⟨0, start_spoken service⟩ kept
  refine ⟨k, spoken.sent, fun wait waits forClient => ?_⟩
  have session := spoken.session
  rw [waits] at session
  obtain ⟨rfl, rfl⟩ := session
  cases wait with
  | fetch splice => cases forClient
  | _ => exact ⟨_, rfl, rfl⟩

end Net

/-- Every path is that of a file with one word. -/
def Config.everyFile : Config :=
  ⟨{ scheme _ := "file", toPath := .ok, isFile _ := true, words _ := some ["a"] }, {}⟩

def loadAsset : Frame :=
  ⟨"load_model", .object [("assets", .array [.object [("tag", .string "model"), ("uri", .string "m")]])]⟩

/-- Two reports of the asset manager are passed on before the model is loaded. -/
theorem session_keeps_interface_asset : ∃ n : Net, n.KeepsInterface .dummy ∧
    n.sent.map (fun sent => sent.frame.op) =
      ["$state-change", "$progress", "$progress", "$progress", "$progress", "$state-change"] := by
  obtain ⟨n, computed, sent⟩ : ∃ n, run (Net.step .everyFile) (.start .dummy)
      ([.session false, .push loadAsset, .session false, .session false, .manager, .session false,
        .session false] ++ List.replicate 4 .manager ++ List.replicate 11 (.session false)) = some n ∧
      n.sent.map (fun sent => sent.frame.op) =
        ["$state-change", "$progress", "$progress", "$progress", "$progress", "$state-change"] :=
    ⟨_, rfl, rfl⟩
  exact ⟨n, session_keeps_interface (reachable_of_run _ computed), sent⟩

end AlpacaCore.Session
