import AlpacaCore.Schema.Serialize
import AlpacaCore.System.Coroutine

/-!
Frames, and what a session does with the endpoint it was given.

The coroutines of a session are `Coro`s. `Op` has what they can suspend at: an endpoint,
or something outside of them whose answer is not theirs to decide.
-/

namespace AlpacaCore.Session

open AlpacaCore.Schema
open AlpacaCore.System (Coro)

structure Frame where
  op : String
  data : Dict

/-- A type that `Frame_from` and its companions take: `id`, `Type`, and how a visitor
visits the values. -/
structure Kind where
  id : String
  Value : Type
  type : FieldType Value

namespace Kind

/-- `Frame_is`. -/
def frameIs (kind : Kind) (frame : Frame) : Bool := frame.op == kind.id

/-- `Frame_from`. -/
def frameFrom (kind : Kind) (value : kind.Value) : Except Exception Frame := do
  let data ← kind.type.toDict value
  return ⟨kind.id, data⟩

/-- `Frame_optTo`. -/
def frameOptTo (kind : Kind) (frame : Frame) : Except Exception (Option kind.Value) :=
  if kind.frameIs frame then (kind.type.fromDict frame.data).map some else .ok none

/-- `Frame_to`. -/
def frameTo (kind : Kind) (frame : Frame) : Except Exception kind.Value :=
  if kind.frameIs frame then kind.type.fromDict frame.data
  else .error (.runtime ("expected frame " ++ kind.id ++ ", but got " ++ frame.op))

end Kind

/-! ### System frames -/

def Error : Kind := ⟨"$err", String, .string⟩

def StateChange : Kind := ⟨"$state-change", String, .string⟩

def Abort : Kind := ⟨"$abort", Unit, .null⟩

/-- `Progress::Type`. -/
abbrev ProgressType : Type :=
  Schema.Field FloatType.float.Value × Schema.Field String × Schema.Field String × Unit

def Progress : Kind where
  id := "$progress"
  Value := ProgressType
  type := .struct (.cons "progress" "0-1 progress" .required (.number .float)
    (.cons "tag" "What is being processed" (.default "") .string
      (.cons "action" "What is being done" (.default "") .string .nil)))

/-- `{.progress = progress, .tag = tag, .action = action}`. -/
def ProgressType.of (progress : Float32) (tag action : String) : ProgressType :=
  (.ofValue (FloatType.single progress), .ofValue tag, .ofValue action, ())

/-! ### Operations -/

/-- What is done at an endpoint. Only `push` and `poll` wait. -/
inductive Io where
  | push (frame : Frame)
  | put (frame : Frame)
  | poll
  | get

abbrev Io.Res : Io → Type
  | .push _ => Unit
  | .put _ => Unit
  | .poll => Frame
  | .get => Option Frame

/-- `dummy::Model::Params`. -/
structure Model.Params where
  path : String
  splice : String
deriving DecidableEq

/-- `dummy::Model`, by its data. -/
abbrev Model : Type := List String

inductive Op where
  /-- at the session's endpoint -/
  | io (op : Io)
  /-- at the endpoint of its connection to the asset manager -/
  | amgrio (op : Io)
  /-- `m_backend.connect`, which makes that connection -/
  | connect
  /-- `m_resourceCache.find` -/
  | find (params : Model.Params)

abbrev Op.Res : Op → Type
  | .io op => op.Res
  | .amgrio op => op.Res
  | .connect => Unit
  | .find _ => Option Model

abbrev Program (A : Type) : Type := Coro Op Op.Res Exception A

def push (frame : Frame) : Program Unit := .perform (Op.io (.push frame))

def put (frame : Frame) : Program Unit := .perform (Op.io (.put frame))

/-- `throw_ex{} << what`. -/
def throwEx {A : Type} (what : String) : Program A := .throw (.runtime what)

/-- `Abort_check`. -/
def abortCheck : Program Bool := do
  match ← (.perform (Op.io .get) : Program (Option Frame)) with
  | none => return false
  | some frame =>
      if Abort.frameIs frame then return true
      else throwEx ("Unexpected frame: " ++ frame.op)

/-- What the sessions find outside: files, and the functions that read URIs. -/
structure Env where
  /-- `furi::uri_split::get_scheme_from_uri` -/
  scheme : String → String
  /-- `fs::FileUri_toPath`: the path, or what the `std::runtime_error` says -/
  toPath : String → Except String String
  /-- `fs::basicStat(path).file()` -/
  isFile : String → Bool
  /-- what `>>` reads from the file until its end, if it opens -/
  words : String → Option (List String)

def Env.noFiles : Env where
  scheme _ := ""
  toPath uri := .error uri
  isFile _ := false
  words _ := none

/-- The loop a session waits in for the next frame. -/
inductive Wait where
  /-- `AssetManager::runSession` -/
  | assetMgr
  /-- `Dummy::runSession` -/
  | runSession
  /-- `Dummy::runModel` -/
  | runModel (model : Model)
  /-- `Dummy::runInstance`, with `m_data` of the instance -/
  | runInstance (data : List String)
  /-- `AssetMgr_makeAssetsAvailable`, for a model with this splice string -/
  | fetch (splice : String)
deriving DecidableEq

/-- How the `try` block in a loop ends: with a frame that is pushed after it, or in a loop of
its own, inside of the block. -/
inductive Outcome where
  | reply (frame : Frame)
  | enter (wait : Wait)

/-- The `try` block of a loop, its `catch` of `std::runtime_error`, and the push. -/
def attempt (wait : Wait) (block : Program Outcome) : Program Wait := do
  let outcome ← block.tryCatch fun x =>
    match x with
    | .runtime what => do return .reply (← Error.frameFrom what)
    | x => .throw x
  match outcome with
  | .reply frame => do
      push frame
      return wait
  | .enter inner => return inner

end AlpacaCore.Session
