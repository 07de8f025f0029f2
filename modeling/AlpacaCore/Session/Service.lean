import AlpacaCore.Session.Frame

/-!
The sessions of the asset manager and of the dummy service.

`serve env wait frame` is what a session does with the frame it was waiting for in the
loop `wait`, until it waits for the next one. The loops of the dummy are nested and the
inner ones are left by an exception only, so which loop it is in is its whole state.
-/

namespace AlpacaCore.Session

open AlpacaCore.Schema
open AlpacaCore.System (Coro)

/-! ### Asset manager -/

/-- `schema::AssetInfo`. -/
abbrev AssetInfo : Type := Schema.Field String × Schema.Field String × Unit

def assetInfos : FieldType (List AssetInfo) :=
  .array (.struct (.cons "tag" "Asset tag/name" .required .string
    (.cons "uri" "Asset URI" .required .string .nil)))

/-- `schema::amgr::State::id`. -/
def assetMgrState : String := "asset-mgr"

def OpMakeAssetsAvailable.Params : Kind := ⟨"make-assets-available", List AssetInfo, assetInfos⟩

def OpMakeAssetsAvailable.Return : Kind := ⟨"make-assets-available", List AssetInfo, assetInfos⟩

namespace AssetMgr

/-- The loop of `AssetManager::makeAssetsAvailable`. -/
def makeAssetsAvailable (env : Env) : List AssetInfo → Program (List AssetInfo)
  | [] => return []
  | (tag, uri, ()) :: assets => do
      let uri := uri.materialize ""
      put (← Progress.frameFrom (.of 0 uri "fetch"))
      if env.scheme uri = "file" then
        match env.toPath uri with
        | .error what => throwEx what
        | .ok path =>
            if env.isFile path then do
              put (← Progress.frameFrom (.of 1 uri "fetch"))
              let rest ← makeAssetsAvailable env assets
              return (tag, .ofValue path, ()) :: rest
            else throwEx ("asset-mgr: file not found: " ++ path)
      else throwEx ("asset-mgr: unsupported URI scheme: " ++ uri)

/-- The loop of `AssetManager::runSession`. -/
def runSession (env : Env) (f : Frame) : Program Wait :=
  attempt .assetMgr do
    match ← OpMakeAssetsAvailable.Params.frameOptTo f with
    | some aa => do
        let assets ← makeAssetsAvailable env aa
        return .reply (← OpMakeAssetsAvailable.Return.frameFrom assets)
    | none => return .reply (← Error.frameFrom ("asset-mgr: unknown op: " ++ f.op))

end AssetMgr

/-! ### Interface of the dummy -/

/-- `schema::dummy::StateDummy::id`, and those of the other states. -/
def stateDummy : String := "dummy"

def stateModelLoaded : String := "model_loaded"

def stateInstance : String := "instance"

def OpLoadModel.Params : Kind where
  id := "load_model"
  Value := Schema.Field (List AssetInfo) × Schema.Field String × Unit
  type := .struct (.cons "assets" "Model assets. Synthetic model if empty" .optional assetInfos
    (.cons "splice_string" "String to splice between model data elements" .optional .string .nil))

def OpCreateInstance.Params : Kind where
  id := "create_instance"
  Value := Schema.Field (BitVec 32) × Unit
  type := .struct (.cons "cutoff" "Cut off model data to n-th element (or don't cut if -1)"
    (.default (-1)) (.integer .int) .nil)

/-- `StateInstance::InferenceParams`. -/
abbrev InferenceParams : Type :=
  Schema.Field (List String) × Schema.Field Bool × Schema.Field (BitVec 32) × Unit

def inferenceParams : FieldType InferenceParams :=
  .struct (.cons "input" "Input items" .required (.array .string)
    (.cons "splice" "Splice input with model data (otherwise append model data to input)"
      (.default true) .boolean
      (.cons "throw_on" "Throw exception on n-th token (or don't throw if -1)" (.default (-1))
        (.integer .int) .nil)))

def OpRun.Params : Kind := ⟨"run", InferenceParams, inferenceParams⟩

def OpRun.Return : Kind where
  id := "run"
  Value := Schema.Field String × Unit
  type := .struct (.cons "result" "Output text (tokens joined with space)" .required .string .nil)

def OpStream.Params : Kind := ⟨"stream", InferenceParams, inferenceParams⟩

def OpStream.StreamToken : Kind := ⟨"token", String, .string⟩

def OpStream.Return : Kind := ⟨"stream", Unit, .null⟩

/-! ### Inference of the dummy -/

def syntheticModelData : List String :=
  ["one", "two", "three", "four", "five", "once", "I", "caught", "a", "fish", "alive",
    "six", "seven", "eight", "nine", "ten", "then", "I", "let", "it", "go", "again"]

/-- The constructor of `dummy::Model`. -/
def Model.load (env : Env) (params : Model.Params) : Except Exception Model :=
  let addDataItem := fun item => if params.splice = "" then [item] else [params.splice, item]
  if params.path = "" then .ok (syntheticModelData.flatMap addDataItem)
  else
    match env.words params.path with
    | none => .error (.runtime ("Failed to open file: " ++ params.path))
    | some words => .ok ((words.filter (· ≠ "")).flatMap addDataItem)

/-- The constructor of `dummy::Instance`: its `m_data`. -/
def Instance.make (model : Model) (cutoff : BitVec 32) : Except Exception (List String) :=
  if 0 ≤ cutoff.toInt then
    -- `int(m_data.size())`
    if (BitVec.ofNat 32 model.length).toInt < cutoff.toInt then
      .error (.runtime ("Cutoff " ++ toString cutoff.toInt ++ " greater than model size " ++
        toString model.length))
    else .ok (model.take cutoff.toNat)
  else .ok model

/-- What a generator yields, and what it throws then, if it throws. -/
structure Tokens where
  words : List String
  thrown : Option String

/-- Each input item, with the item of the data that `di` has come to. -/
def Instance.spliced (data : List String) : Nat → List String → List String
  | _, [] => []
  | di, w :: input =>
      w :: data.getD di "" :: spliced data (if di + 1 = data.length then 0 else di + 1) input

/-- `Instance::newSession`: `maybeThrow` comes before each token. -/
def Instance.newSession (data input : List String) (splice : Bool) (throwOn : BitVec 32) : Tokens :=
  let words :=
    if splice then if data = [] then [] else spliced data 0 input
    else input ++ data
  if 0 ≤ throwOn.toInt ∧ throwOn.toInt < words.length then
    ⟨words.take throwOn.toNat, some ("Throw on token " ++ toString throwOn.toInt)⟩
  else ⟨words, none⟩

namespace Dummy

def unknownOpError (f : Frame) : Except Exception Frame :=
  Error.frameFrom ("dummy: unknown op: " ++ f.op)

def createSession (data : List String) : InferenceParams → Tokens
  | (input, splice, throwOn, ()) =>
      Instance.newSession data (input.materialize []) (splice.materialize false)
        (throwOn.materialize 0)

/-- The body of `OpRun`. -/
def run (s : Tokens) : Except Exception Frame := do
  let res := s.words.foldl (fun res w => res ++ w ++ " ") ""
  match s.thrown with
  | some what => throw (.runtime what)
  | none => OpRun.Return.frameFrom ((Schema.Field.make .required).fill (res.dropEnd 1).toString, ())

def runStream : (words : List String) → (thrown : Option String) → Program Frame
  | [], none => do return ← OpStream.Return.frameFrom ()
  | [], some what => throwEx what
  | w :: words, thrown => do
      if ← abortCheck then return ← OpStream.Return.frameFrom ()
      else do
        push (← OpStream.StreamToken.frameFrom w)
        runStream words thrown

/-- The loop of `runInstance`. -/
def runInstance (data : List String) (f : Frame) : Program Wait :=
  attempt (.runInstance data) do
    match ← OpRun.Params.frameOptTo f with
    | some params => return .reply (← run (createSession data params))
    | none =>
        match ← OpStream.Params.frameOptTo f with
        | some params => do
            let s := createSession data params
            return .reply (← runStream s.words s.thrown)
        | none => return .reply (← unknownOpError f)

/-- The loop of `runModel`, and `runInstance` until its loop. -/
def runModel (model : Model) (f : Frame) : Program Wait :=
  attempt (.runModel model) do
    match ← OpCreateInstance.Params.frameOptTo f with
    | some (cutoff, ()) => do
        let data ← Instance.make model (cutoff.materialize 0)
        push (← StateChange.frameFrom stateInstance)
        return .enter (.runInstance data)
    | none => return .reply (← unknownOpError f)

/-- `runModel` from where the path of the model is known until its loop. -/
def loadModel (env : Env) (params : Model.Params) : Program Outcome := do
  put (← Progress.frameFrom (.of 0 params.path "loading"))
  match ← (.perform (Op.find params) : Program (Option Model)) with
  | some model => do
      push (← StateChange.frameFrom stateModelLoaded)
      return .enter (.runModel model)
  | none => do
      put (← Progress.frameFrom (.of 0.1 params.path "loading"))
      let model ← Model.load env params
      push (← StateChange.frameFrom stateModelLoaded)
      return .enter (.runModel model)

/-- The loop of `runSession`, and `runModel` until it has the path of the model or waits for
the assets. -/
def runSession (env : Env) (f : Frame) : Program Wait :=
  attempt .runSession do
    match ← OpLoadModel.Params.frameOptTo f with
    | some (assets, spliceString, ()) => do
        let splice := spliceString.materialize ""
        match assets.value with
        | some (asset :: rest) => do
            .perform Op.connect
            let _ ← (.perform (Op.amgrio .poll) : Program Frame)
            .perform (Op.amgrio (.push (← OpMakeAssetsAvailable.Params.frameFrom (asset :: rest))))
            return .enter (.fetch splice)
        | _ => loadModel env ⟨"", splice⟩
    | none => return .reply (← unknownOpError f)

/-- The loop of `AssetMgr_makeAssetsAvailable`, and `runModel` from there. -/
def fetch (env : Env) (splice : String) (res : Frame) : Program Wait :=
  attempt .runSession do
    let check : Program Outcome := do
      if ← abortCheck then throwEx "aborted"
      else return .enter (.fetch splice)
    match ← Error.frameOptTo res with
    | some what => throwEx what
    | none =>
        if Progress.frameIs res then do
          put res
          check
        else
          match ← OpMakeAssetsAvailable.Return.frameOptTo res with
          | some assets =>
              let path := (assets.head?.map fun asset => asset.2.1.materialize "").getD ""
              loadModel env ⟨path, splice⟩
          | none => check

end Dummy

def serve (env : Env) : Wait → Frame → Program Wait
  | .assetMgr => AssetMgr.runSession env
  | .runSession => Dummy.runSession env
  | .runModel model => Dummy.runModel model
  | .runInstance data => Dummy.runInstance data
  | .fetch splice => Dummy.fetch env splice

inductive Service where
  | assetMgr
  | dummy

/-- A new session of the service, until it waits for the first frame. -/
def Service.createSession : Service → Program Wait
  | .assetMgr => do
      push (← StateChange.frameFrom assetMgrState)
      return .assetMgr
  | .dummy => do
      push (← StateChange.frameFrom stateDummy)
      return .runSession

end AlpacaCore.Session
