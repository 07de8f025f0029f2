import AlpacaCore.Schema.Fit
import AlpacaCore.Session.Service

/-!
What an op means.

Seen from the client that waits for each reply, a session is a machine whose state is the
loop it waits in: a frame taken there has one answer, and leads to one loop. `answer` is
that machine. There are no channels in it, no tokens and no reports of progress; that the
sessions behave so is proved from their coroutines.
-/

namespace AlpacaCore.Session

open AlpacaCore.Schema

/-- What ends the answer to an op: an error, a change of state, or what the op returns. -/
def Frame.terminal (f : Frame) : Bool :=
  Error.frameIs f || StateChange.frameIs f || OpRun.Return.frameIs f ||
    OpStream.Return.frameIs f || OpMakeAssetsAvailable.Return.frameIs f

/-- A `std::runtime_error` is answered with an `Error`, from the loop that catches it. -/
def recover (wait : Wait) : Except Exception (Frame × Wait) → Except Exception (Frame × Wait)
  | .error (.runtime what) => do return (← Error.frameFrom what, wait)
  | answered => answered

namespace AssetMgr

/-- The assets with the paths of their files. -/
def provided (env : Env) : List AssetInfo → Except Exception (List AssetInfo)
  | [] => .ok []
  | (tag, uri, ()) :: assets => do
      let uri := uri.materialize ""
      if env.scheme uri = "file" then
        match env.toPath uri with
        | .error what => throw (.runtime what)
        | .ok path =>
            if env.isFile path then
              return (tag, .ofValue path, ()) :: (← provided env assets)
            else throw (.runtime ("asset-mgr: file not found: " ++ path))
      else throw (.runtime ("asset-mgr: unsupported URI scheme: " ++ uri))

def answer (env : Env) (f : Frame) : Except Exception (Frame × Wait) :=
  recover .assetMgr do
    match ← OpMakeAssetsAvailable.Params.frameOptTo f with
    | some aa => return (← OpMakeAssetsAvailable.Return.frameFrom (← provided env aa), .assetMgr)
    | none => return (← Error.frameFrom ("asset-mgr: unknown op: " ++ f.op), .assetMgr)

end AssetMgr

namespace Dummy

/-- The answer when the model is loaded. -/
def loaded (env : Env) (params : Model.Params) : Except Exception (Frame × Wait) := do
  let model ← Model.load env params
  return (← StateChange.frameFrom stateModelLoaded, .runModel model)

/-- The answer when the asset manager has given its own. -/
def fetched (env : Env) (splice : String) (res : Frame) : Except Exception (Frame × Wait) :=
  recover .runSession do
    match ← Error.frameOptTo res with
    | some what => throw (.runtime what)
    | none =>
        match ← OpMakeAssetsAvailable.Return.frameOptTo res with
        | some assets =>
            loaded env ⟨(assets.head?.map fun asset => asset.2.1.materialize "").getD "", splice⟩
        | none => throw (.runtime "aborted")

def answerRunSession (env : Env) (f : Frame) : Except Exception (Frame × Wait) :=
  recover .runSession do
    match ← OpLoadModel.Params.frameOptTo f with
    | some (assets, spliceString, ()) =>
        let splice := spliceString.materialize ""
        match assets.value with
        | some (asset :: rest) => do
            let request ← OpMakeAssetsAvailable.Params.frameFrom (asset :: rest)
            let (res, _) ← AssetMgr.answer env request
            fetched env splice res
        | _ => loaded env ⟨"", splice⟩
    | none => return (← unknownOpError f, .runSession)

def answerRunModel (model : Model) (f : Frame) : Except Exception (Frame × Wait) :=
  recover (.runModel model) do
    match ← OpCreateInstance.Params.frameOptTo f with
    | some (cutoff, ()) =>
        let data ← Instance.make model (cutoff.materialize 0)
        return (← StateChange.frameFrom stateInstance, .runInstance data)
    | none => return (← unknownOpError f, .runModel model)

/-- The answer to what is no `run`. -/
def answerStream (data : List String) (f : Frame) : Except Exception (Frame × Wait) := do
  match ← OpStream.Params.frameOptTo f with
  | some params =>
      match (createSession data params).thrown with
      | some what => throw (.runtime what)
      | none => return (← OpStream.Return.frameFrom (), .runInstance data)
  | none => return (← unknownOpError f, .runInstance data)

def answerRunInstance (data : List String) (f : Frame) : Except Exception (Frame × Wait) :=
  recover (.runInstance data) do
    match ← OpRun.Params.frameOptTo f with
    | some params => return (← run (createSession data params), .runInstance data)
    | none => answerStream data f

end Dummy

/-- The answer to the frame, and where the session waits then; an exception if one leaves the
loops. -/
def answer (env : Env) : Wait → Frame → Except Exception (Frame × Wait)
  | .assetMgr => AssetMgr.answer env
  | .runSession => Dummy.answerRunSession env
  | .runModel model => Dummy.answerRunModel model
  | .runInstance data => Dummy.answerRunInstance data
  | .fetch splice => Dummy.fetched env splice

/-- The loop waits for a frame of the client. -/
def Wait.forClient : Wait → Bool
  | .fetch _ => false
  | _ => true

/-- The ops of the loop; in `fetch`, the frames it reads. -/
def Wait.kinds : Wait → List Kind
  | .assetMgr => [OpMakeAssetsAvailable.Params]
  | .runSession => [OpLoadModel.Params]
  | .runModel _ => [OpCreateInstance.Params]
  | .runInstance _ => [OpRun.Params, OpStream.Params]
  | .fetch _ => [Error, OpMakeAssetsAvailable.Return]

/-- The frame is one of the kind, but its data is not: what the decoder meets first is a value
of a type it does not take. -/
def Kind.Mistyped (kind : Kind) (f : Frame) : Prop :=
  kind.frameIs f = true ∧ kind.type.fit kind.type.empty f.data = .mistyped

/-- The frame is for an op of the loop, but its data is not. -/
def Wait.Mistyped (wait : Wait) (f : Frame) : Prop := ∃ kind ∈ wait.kinds, kind.Mistyped f

instance (kind : Kind) (f : Frame) : Decidable (kind.Mistyped f) :=
  inferInstanceAs (Decidable (_ ∧ _))

instance (wait : Wait) (f : Frame) : Decidable (wait.Mistyped f) :=
  inferInstanceAs (Decidable (∃ kind ∈ _, _))

end AlpacaCore.Session
