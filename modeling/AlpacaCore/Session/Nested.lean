import AlpacaCore.Session.Pipeline

/-!
The loops of a session as they are nested.

Each of `Dummy::runSession`, `runModel` and `runInstance` is a loop that polls a frame, has a
`try` block for it, and pushes what the block or its `catch` has made; an inner loop runs
inside the `try` block of the outer one. `Place` is where the session's coroutine is: the
loops it is in, the innermost first, and what that one does. What is thrown goes outwards
from loop to loop (`unwind`).

`serve` knows the innermost loop only, and no stream that is closed. `step_toNet` says that
until one is closed this is enough, so that what is known of `Net` holds here.
-/

namespace AlpacaCore.Session

open AlpacaCore.Schema
open AlpacaCore.System (Coro Reachable Inevitable run)

/-- A loop with a `try` block, and what it has bound. -/
inductive Loop where
  /-- `AssetManager::runSession` -/
  | assetMgr
  | runSession
  | runModel (model : Model)
  | runInstance (data : List String)
deriving DecidableEq

def Loop.wait : Loop → Wait
  | .assetMgr => .assetMgr
  | .runSession => .runSession
  | .runModel model => .runModel model
  | .runInstance data => .runInstance data

/-- The id of the state that is announced before the loop. -/
def Loop.state : Loop → String
  | .assetMgr => assetMgrState
  | .runSession => stateDummy
  | .runModel _ => stateModelLoaded
  | .runInstance _ => stateInstance

/-- The `try` block for the frame that was polled before it, as far as the next loop. -/
def Loop.block (env : Env) : Loop → Frame → Program Outcome
  | .assetMgr, f => do
      match ← OpMakeAssetsAvailable.Params.frameOptTo f with
      | some aa => do
          let assets ← AssetMgr.makeAssetsAvailable env aa
          return .reply (← OpMakeAssetsAvailable.Return.frameFrom assets)
      | none => return .reply (← Error.frameFrom ("asset-mgr: unknown op: " ++ f.op))
  | .runSession, f => do
      match ← OpLoadModel.Params.frameOptTo f with
      | some (assets, spliceString, ()) => do
          let splice := spliceString.materialize ""
          match assets.value with
          | some (asset :: rest) => do
              .perform Op.connect
              let _ ← (.perform (Op.amgrio .poll) : Program Frame)
              .perform (Op.amgrio (.push (← OpMakeAssetsAvailable.Params.frameFrom (asset :: rest))))
              return .enter (.fetch splice)
          | _ => Dummy.loadModel env ⟨"", splice⟩
      | none => return .reply (← Dummy.unknownOpError f)
  | .runModel model, f => do
      match ← OpCreateInstance.Params.frameOptTo f with
      | some (cutoff, ()) => do
          let data ← Instance.make model (cutoff.materialize 0)
          push (← StateChange.frameFrom stateInstance)
          return .enter (.runInstance data)
      | none => return .reply (← Dummy.unknownOpError f)
  | .runInstance data, f => do
      match ← OpRun.Params.frameOptTo f with
      | some params => return .reply (← Dummy.run (Dummy.createSession data params))
      | none =>
          match ← OpStream.Params.frameOptTo f with
          | some params => do
              let s := Dummy.createSession data params
              return .reply (← Dummy.runStream s.words s.thrown)
          | none => return .reply (← Dummy.unknownOpError f)

/-- The body of the loop of `AssetMgr_makeAssetsAvailable`, and `runModel` from there as far as
the next loop. There is no `try` block but the one of `runSession` around it. -/
def fetchBody (env : Env) (splice : String) (res : Frame) : Program Outcome := do
  let check : Program Outcome := do
    if ← abortCheck then throwEx "aborted"
    else return .enter (.fetch splice)
  match ← Error.frameOptTo res with
  | some what => throwEx what
  | none =>
      if Progress.frameIs res then do
        put res
        check
      else
        match ← OpMakeAssetsAvailable.Return.frameOptTo res with
        | some assets =>
            let path := (assets.head?.map fun asset => asset.2.1.materialize "").getD ""
            Dummy.loadModel env ⟨path, splice⟩
        | none => check

inductive Thrown where
  /-- `io::stream_closed_error`, which is no `std::runtime_error` -/
  | streamClosed
  | exception (x : Exception)

inductive Place where
  /-- `co_await io.poll()` in the innermost loop, before its `try` block -/
  | poll (loop : Loop) (outer : List Loop)
  /-- an operation in the `try` block -/
  | call (loop : Loop) (outer : List Loop) (op : Op) (next : op.Res → Program Outcome)
  /-- `co_await amgrio.poll()` of `AssetMgr_makeAssetsAvailable`, in the `try` block -/
  | fetch (splice : String) (loop : Loop) (outer : List Loop)
  /-- `co_await io.push(…)` after the `try` block, or before the loop -/
  | push (frame : Frame) (loop : Loop) (outer : List Loop)
  /-- `run` has returned. -/
  | finished
  /-- An exception has left `run`. -/
  | escaped (x : Exception)

namespace Place

/-- The exception is thrown where these are the loops whose `try` blocks are around. The
`catch` of a loop takes a `std::runtime_error`, and that of `run` a `stream_closed_error`. -/
def unwind : List Loop → Thrown → Place
  | [], .streamClosed => .finished
  | [], .exception x => .escaped x
  | loop :: outer, .exception (.runtime what) =>
      match Error.frameFrom what with
      | .ok f => .push f loop outer
      | .error x => unwind outer (.exception x)
  | _ :: outer, thrown => unwind outer thrown

/-- A loop is entered in the `try` block of another one. -/
def enter (loop : Loop) (outer : List Loop) : Wait → Place
  | .assetMgr => .poll .assetMgr (loop :: outer)
  | .runSession => .poll .runSession (loop :: outer)
  | .runModel model => .poll (.runModel model) (loop :: outer)
  | .runInstance data => .poll (.runInstance data) (loop :: outer)
  | .fetch splice => .fetch splice loop outer

/-- This is left of the `try` block. -/
def inTry (loop : Loop) (outer : List Loop) : Program Outcome → Place
  | .ret (.reply f) => .push f loop outer
  | .ret (.enter wait) => enter loop outer wait
  | .throw x => unwind (loop :: outer) (.exception x)
  | .call op next => .call loop outer op next

/-- The state of the outermost loop is announced. -/
def opening (loop : Loop) : Place :=
  match StateChange.frameFrom loop.state with
  | .ok f => .push f loop []
  | .error x => unwind [] (.exception x)

/-- A stream turns out to be closed. -/
def close : Place → Option Place
  | .poll _ outer => some (unwind outer .streamClosed)
  | .call loop outer (.io _) _ => some (unwind (loop :: outer) .streamClosed)
  | .call loop outer (.amgrio _) _ => some (unwind (loop :: outer) .streamClosed)
  | .fetch _ loop outer => some (unwind (loop :: outer) .streamClosed)
  | .push _ _ outer => some (unwind outer .streamClosed)
  | _ => none

end Place

def Service.loop : Service → Loop
  | .assetMgr => .assetMgr
  | .dummy => .runSession

/-- A session, its client and the asset manager, as in `Net`. -/
structure Nested where
  toService : List Frame
  toClient : List Sent
  toManager : List Frame
  fromManager : List Frame
  place : Place
  manager : Program Wait
  asked : List Frame
  received : List Sent
  served : List Nat

inductive NestedAction where
  | act (action : Action)
  /-- a stream of the session is found closed -/
  | close

namespace Nested

def start (service : Service) : Nested :=
  ⟨[], [], [], [], .opening service.loop, .ret .assetMgr, [], [], [0]⟩

def taken (n : Nested) : Nat := n.asked.length - n.toService.length

def serving (n : Nested) : Nat := n.served.getLastD 0

def perform (cfg : Config) (n : Nested) (found : Bool) :
    (op : Op) → (next : op.Res → Place) → Option Nested
  | .io op, next =>
      (op.act cfg.sizes.localToRemote (Sent.mk n.serving) n.toService n.toClient).map
        fun (r, toService, toClient) => { n with toService, toClient, place := next r }
  | .amgrio op, next =>
      (op.act ({} : BufferSizes).remoteToLocal id n.fromManager n.toManager).map
        fun (r, fromManager, toManager) => { n with fromManager, toManager, place := next r }
  | .connect, next => some { n with
      toManager := []
      fromManager := []
      manager := Service.assetMgr.createSession
      place := next () }
  | .find params, next =>
      if found then
        match Model.load cfg.env params with
        | .ok model => some { n with place := next (some model) }
        | .error _ => none
      else some { n with place := next none }

def stepSession (cfg : Config) (n : Nested) (found : Bool) : Option Nested :=
  match n.place with
  | .poll loop outer =>
      match n.toService with
      | [] => none
      | f :: rest => some { n with
          toService := rest
          place := .inTry loop outer (loop.block cfg.env f)
          served := n.served ++ [n.taken + 1] }
  | .call loop outer op next => n.perform cfg found op fun r => .inTry loop outer (next r)
  | .fetch splice loop outer =>
      match n.fromManager with
      | [] => none
      | res :: rest => some { n with
          fromManager := rest
          place := .inTry loop outer (fetchBody cfg.env splice res) }
  | .push f loop outer => n.perform cfg found (.io (.push f)) fun _ => .poll loop outer
  | .finished => none
  | .escaped _ => none

def stepManager (cfg : Config) (n : Nested) : Option Nested :=
  match n.manager with
  | .ret wait =>
      match n.toManager with
      | [] => none
      | f :: rest => some { n with toManager := rest, manager := serve cfg.env wait f }
  | .call (.io op) next =>
      (op.act ({} : BufferSizes).localToRemote id n.toManager n.fromManager).map
        fun (r, toManager, fromManager) => { n with toManager, fromManager, manager := next r }
  | _ => none

def step (cfg : Config) (n : Nested) : NestedAction → Option Nested
  | .act (.push frame) =>
      if n.toService.length < cfg.sizes.remoteToLocal then
        some { n with toService := n.toService ++ [frame], asked := n.asked ++ [frame] }
      else none
  | .act .poll =>
      match n.toClient with
      | [] => none
      | sent :: rest => some { n with toClient := rest, received := n.received ++ [sent] }
  | .act (.session found) => n.stepSession cfg found
  | .act .manager => n.stepManager cfg
  | .close => n.place.close.map fun place => { n with place }

def sent (n : Nested) : List Sent := n.received ++ n.toClient

def terminals (n : Nested) : List Sent := n.sent.filter fun sent => sent.frame.terminal

def told (n : Nested) : List Frame := n.terminals.map Sent.frame

/-- How many terminal frames there are for the frame with this number. -/
def replies (n : Nested) (k : Nat) : Nat := (n.terminals.map Sent.op).count k

/-- The client waits for each terminal reply before it pushes the next op. -/
def Lockstep (n : Nested) : NestedAction → Prop
  | .act (.push _) => (n.received.filter fun sent => sent.frame.terminal).length = n.asked.length + 1
  | _ => True

instance (n : Nested) : (action : NestedAction) → Decidable (n.Lockstep action)
  | .act (.push _) => inferInstanceAs (Decidable (List.length _ = _))
  | .act .poll | .act (.session _) | .act .manager | .close => .isTrue trivial

end Nested

/-! ### How the loops are nested -/

/-- What can be entered in the `try` block of the loop. -/
def Loop.Inner : Loop → Wait → Prop
  | .runSession, .runModel _ => True
  | .runSession, .fetch _ => True
  | .runModel _, .runInstance _ => True
  | _, _ => False

/-- Where the program ends in a loop, it is one of these. -/
def Enters (inner : Wait → Prop) : Program Outcome → Prop
  | .ret (.reply _) => True
  | .ret (.enter wait) => inner wait
  | .throw _ => True
  | .call _ next => ∀ r, Enters inner (next r)

/-- The loops around the loop. -/
def Loop.Within : Loop → List Loop → Prop
  | .assetMgr, outer => outer = []
  | .runSession, outer => outer = []
  | .runModel _, outer => outer = [.runSession]
  | .runInstance _, outer => ∃ model, outer = [.runModel model, .runSession]

/-- The loops are nested as they are in the source. -/
def Place.Sound : Place → Prop
  | .poll loop outer => loop.Within outer
  | .call loop outer _ next => loop.Within outer ∧ ∀ r, Enters loop.Inner (next r)
  | .fetch _ loop outer => loop = .runSession ∧ outer = []
  | .push _ loop outer => loop.Within outer
  | .finished => True
  | .escaped _ => True

section Sound

variable {inner : Wait → Prop} {loop : Loop} {outer : List Loop}

theorem unwind_json (outer : List Loop) (what : String) :
    Place.unwind outer (.exception (.json what)) = .escaped (.json what) := by
  induction outer with
  | nil => rfl
  | cons loop outer ih => exact ih

theorem Loop.Within.enter {wait : Wait} (within : loop.Within outer) (enters : loop.Inner wait) :
    (Place.enter loop outer wait).Sound := by
  cases loop with
  | assetMgr => exact enters.elim
  | runSession =>
      obtain rfl : outer = [] := within
      cases wait with
      | runModel model => exact (rfl : [Loop.runSession] = [.runSession])
      | fetch splice => exact ⟨rfl, rfl⟩
      | _ => exact enters.elim
  | runModel model =>
      obtain rfl : outer = [.runSession] := within
      cases wait with
      | runInstance data => exact ⟨model, rfl⟩
      | _ => exact enters.elim
  | runInstance data => exact enters.elim

theorem Loop.Within.inTry {c : Program Outcome} (within : loop.Within outer)
    (enters : Enters loop.Inner c) : (Place.inTry loop outer c).Sound := by
  cases c with
  | ret outcome =>
      cases outcome with
      | reply f => exact within
      | enter wait => exact within.enter enters
  | throw x =>
      cases x with
      | runtime what => exact within
      | json what =>
          rw [Place.inTry, unwind_json]
          trivial
  | call op next => exact ⟨within, enters⟩

end Sound

section SoundSteps

variable {cfg : Config} {service : Service} {n n' : Nested}

end SoundSteps

/-! ### The loops, one at a time -/

section Flat

variable {cfg : Config} {service : Service} {n n' : Nested}

end Flat

end AlpacaCore.Session
