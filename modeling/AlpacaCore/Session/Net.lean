import AlpacaCore.Session.Service
import AlpacaCore.System.Run

/-!
A session, its client, and the asset manager it may connect to.

Each of them takes a step whenever the schedule lets it: the client pushes a frame or
polls one, the session and the asset manager go on until the next thing they ask for.
They meet in four channels of bounded size, where the sizes that `connect` is given come out
swapped: it is the channel in which the client writes that has the size `remoteToLocal`. The
client is any program that keeps its end open; a channel that is closed ends the session by a
`stream_closed_error`, which no loop catches, and is left out.
-/

namespace AlpacaCore.Session

open AlpacaCore.Schema
open AlpacaCore.System (Coro run)

/-- `BackendIoBufferSizes`, with its defaults. -/
structure BufferSizes where
  localToRemote : Nat := 10
  remoteToLocal : Nat := 10

structure Config where
  env : Env
  /-- of the client's connection; the asset manager is connected to with the defaults -/
  sizes : BufferSizes

def Config.noFiles : Config := ⟨.noFiles, {}⟩

/-- A frame on its way to the client. The number tells which of the client's frames was
being served, 0 standing for none; it is not part of the frame. -/
structure Sent where
  op : Nat
  frame : Frame

structure Net where
  /-- the channels of the client's connection -/
  toService : List Frame
  toClient : List Sent
  /-- the channels of the connection to the asset manager -/
  toManager : List Frame
  fromManager : List Frame
  session : Program Wait
  /-- the session the asset manager has for that connection -/
  manager : Program Wait
  /-- The frames the client has pushed and polled so far. The code does not keep them. -/
  asked : List Frame
  received : List Sent
  /-- The numbers of the frames the session has taken up in one of its loops, 0 first. -/
  served : List Nat

inductive Action where
  | push (frame : Frame)
  | poll
  /-- `found` tells whether the cache has the model when it is asked for one -/
  | session (found : Bool)
  | manager

/-- An operation at an endpoint, given what waits there to be read, what was written, and
how much may wait there: the result, and what waits then. `none` when it has to wait. -/
def Io.act {W : Type} (limit : Nat) (wrap : Frame → W) (input : List Frame) (output : List W) :
    (op : Io) → Option (op.Res × List Frame × List W)
  | .push frame =>
      if output.length < limit then some ((), input, output ++ [wrap frame]) else none
  | .put frame =>
      if output.length < limit then some ((), input, output ++ [wrap frame])
      else some ((), input, output)
  | .poll =>
      match input with
      | [] => none
      | frame :: rest => some (frame, rest, output)
  | .get =>
      match input with
      | [] => some (none, [], output)
      | frame :: rest => some (some frame, rest, output)

namespace Net

def start (service : Service) : Net :=
  ⟨[], [], [], [], service.createSession, .ret .assetMgr, [], [], [0]⟩

/-- How many of the client's frames have been taken out of the channel. -/
def taken (n : Net) : Nat := n.asked.length - n.toService.length

/-- The number of the frame that is being served, or was served last. -/
def serving (n : Net) : Nat := n.served.getLastD 0

def stepSession (cfg : Config) (n : Net) (found : Bool) : Option Net :=
  match n.session with
  | .throw _ => none
  | .ret (.fetch splice) =>
      match n.fromManager with
      | [] => none
      | res :: rest =>
          some { n with fromManager := rest, session := serve cfg.env (.fetch splice) res }
  | .ret wait =>
      match n.toService with
      | [] => none
      | f :: rest => some { n with
          toService := rest
          session := serve cfg.env wait f
          served := n.served ++ [n.taken + 1] }
  | .call (.io op) next =>
      (op.act cfg.sizes.localToRemote (Sent.mk n.serving) n.toService n.toClient).map
        fun (r, toService, toClient) => { n with toService, toClient, session := next r }
  | .call (.amgrio op) next =>
      (op.act ({} : BufferSizes).remoteToLocal id n.fromManager n.toManager).map
        fun (r, fromManager, toManager) => { n with fromManager, toManager, session := next r }
  | .call .connect next => some { n with
      toManager := []
      fromManager := []
      manager := Service.assetMgr.createSession
      session := next () }
  | .call (.find params) next =>
      if found then
        -- the cache has what was made by the constructor
        match Model.load cfg.env params with
        | .ok model => some { n with session := next (some model) }
        | .error _ => none
      else some { n with session := next none }

def stepManager (cfg : Config) (n : Net) : Option Net :=
  match n.manager with
  | .ret wait =>
      match n.toManager with
      | [] => none
      | f :: rest => some { n with toManager := rest, manager := serve cfg.env wait f }
  | .call (.io op) next =>
      (op.act ({} : BufferSizes).localToRemote id n.toManager n.fromManager).map
        fun (r, toManager, fromManager) => { n with toManager, fromManager, manager := next r }
  | _ => none

def step (cfg : Config) (n : Net) : Action → Option Net
  | .push frame =>
      if n.toService.length < cfg.sizes.remoteToLocal then
        some { n with toService := n.toService ++ [frame], asked := n.asked ++ [frame] }
      else none
  | .poll =>
      match n.toClient with
      | [] => none
      | sent :: rest => some { n with toClient := rest, received := n.received ++ [sent] }
  | .session found => n.stepSession cfg found
  | .manager => n.stepManager cfg

/-- What the session has sent so far. -/
def sent (n : Net) : List Sent := n.received ++ n.toClient

end Net

end AlpacaCore.Session
