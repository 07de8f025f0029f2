import AlpacaCore.Jalog.Shutdown
import AlpacaCore.System.Tagged

/-!
`Instance`: a logger, perhaps with an asynchronous logging among its sinks, and the threads that use
them.

Here the sinks are called one at a time, so that what several threads log gets in between; a thread
that flushes has the mutex of the logger until the last of its calls has returned, and the call of
the asynchronous logging returns when its promise is set. `logged` is what was to be recorded, and
`made` the calls of sinks in the order in which they were made, each under the name of the thread.

Of the instances of a logger there is one. A sink that was added behind the asynchronous logging is
called by the thread of that, and no sink logs or flushes itself.
-/

namespace AlpacaCore.Jalog

open AlpacaCore.System (Reachable Inevitable run under pick)
open Function (update update_self update_of_ne)

/-- What `m_asyncLogging` is among the sinks. -/
def asyncSink : Nat := 0

def Call.sink : Call → Nat
  | .record sink _ => sink
  | .flush sink => sink

def Call.records : Call → Bool
  | .record _ _ => true
  | .flush _ => false

/-- The entry, if the sink is called to record one. -/
def Call.entryFor (sink : Nat) : Call → Option Entry
  | .record sink' e => if sink' = sink then some e else none
  | .flush _ => none

/-- A thread that uses the logger. -/
structure Caller where
  /-- The calls of sinks that it is about to make. -/
  calls : List Call
  /-- The promise it waits for in a flush. -/
  waits : Option Nat
deriving DecidableEq

def Caller.idle : Caller := ⟨[], none⟩

structure Instance where
  logging : Logging
  asyncLogging : Option AsyncLogging
  callers : Nat → Caller
  /-- Who has locked the mutex of the logger, if its function has not returned yet. -/
  mutex : Option Nat
  logged : List (Nat × Entry)
  made : List (Nat × Call)

/-- The entry that the scope lets through. Until the logger is initialized there is nothing to record to. -/
def Logging.entry (s : Logging) : Action → Option Entry
  | .addEntry scope lvl text now => (s.scopes scope).bind fun object =>
      if s.logger.initialized ∧ object.enabled lvl then some ⟨object.desc, lvl, now, text⟩ else none
  | .addEntryUnchecked scope lvl text now => (s.scopes scope).bind fun object =>
      if s.logger.initialized then some ⟨object.desc, lvl, now, text⟩ else none
  | _ => none

/-- Whether the function locks the mutex of the logger. -/
def Action.locks : Action → Bool
  | .setLevel _ _ | .addEntry _ _ _ _ | .addEntryUnchecked _ _ _ _ => false
  | _ => true

/-- Nobody but the instance has its asynchronous logging for a sink. -/
def Action.foreign : Action → Bool
  | .addSink sink => sink != asyncSink
  | _ => true

/-- What a sink is called: the asynchronous logging pushes a task, and a flush of it waits. -/
def Call.perform (c : Call) (asyncLogging : Option AsyncLogging) : Option (Option AsyncLogging × Option Nat) :=
  if c.sink = asyncSink then
    asyncLogging.bind fun l => match c with
      | .record _ e => (l.step (.record e)).map fun l' => (some l', none)
      | .flush _ => (l.step .flush).map fun l' => (some l', some l.promises)
  else some (asyncLogging, none)

namespace Instance

inductive Action where
  /-- a function of the logger or of a scope -/
  | call (caller : Nat) (a : Jalog.Action)
  /-- `SetupDSL::async` -/
  | async
  /-- `SetupDSL::add` -/
  | add (sink : Nat)
  /-- `asyncLogging()->remove` -/
  | remove (sink : Nat)
  /-- The thread goes on with its calls of sinks. -/
  | goOn (caller : Nat)
  /-- The thread of the asynchronous logging does something, or `~Instance`, which joins it. -/
  | background (a : AsyncLogging.Action)

def start : Instance := ⟨.start, none, fun _ => .idle, none, [], []⟩

/-- The thread is left with this; if that is nothing, it does not have the mutex any more. -/
def leave (s : Instance) (caller : Nat) (next : Caller) : Instance :=
  { s with
    callers := update s.callers caller next
    mutex := if next = .idle ∧ s.mutex = some caller then none else s.mutex }

/-- A function of the logger or of a scope, which has come to this. -/
def called (s : Instance) (caller : Nat) (a : Jalog.Action) (logging : Logging) : Instance :=
  let calls := logging.calls.drop s.logging.calls.length
  { s with
    logging
    callers := update s.callers caller ⟨calls, none⟩
    mutex := if a.locks ∧ calls ≠ [] then some caller else s.mutex
    logged := s.logged ++ (s.logging.entry a).toList.map (caller, ·) }

def call (s : Instance) (caller : Nat) (a : Jalog.Action) : Option Instance :=
  if s.callers caller = .idle ∧ (a.locks → s.mutex = none) ∧ a.foreign then
    (s.logging.step a).map (s.called caller a)
  else none

def async (s : Instance) : Option Instance :=
  match s.asyncLogging with
  | some _ => some s
  | none =>
      if s.mutex = none then
        some { s with
          asyncLogging := some .start
          logging := { s.logging with logger := s.logging.logger.addSink asyncSink } }
      else none

/-- A task is pushed on behalf of the instance, which is not destroyed yet. -/
def setUp (s : Instance) (l : AsyncLogging) (a : AsyncLogging.Action) : Option Instance :=
  if l.destructor = .alive then (l.step a).map fun l' => { s with asyncLogging := some l' } else none

def add (s : Instance) (sink : Nat) : Option Instance :=
  if sink = asyncSink then none
  else
    match s.asyncLogging with
    | some l => s.setUp l (.add sink)
    | none =>
        if s.mutex = none then
          some { s with logging := { s.logging with logger := s.logging.logger.addSink sink } }
        else none

def remove (s : Instance) (sink : Nat) : Option Instance :=
  s.asyncLogging.bind fun l => s.setUp l (.remove sink)

/-- Whether the promise is set. -/
def returns (s : Instance) (promise : Nat) : Bool :=
  s.asyncLogging.any fun l => promise ∈ l.sinks.promises

def goOn (s : Instance) (caller : Nat) : Option Instance :=
  match s.callers caller with
  | ⟨calls, some promise⟩ => if s.returns promise then some (s.leave caller ⟨calls, none⟩) else none
  | ⟨[], none⟩ => none
  | ⟨c :: calls, none⟩ => (c.perform s.asyncLogging).map fun (asyncLogging, waits) =>
      { s with asyncLogging, made := s.made ++ [(caller, c)] }.leave caller ⟨calls, waits⟩

def background (s : Instance) : AsyncLogging.Action → Option Instance
  | .record _ | .add _ | .remove _ | .flush => none
  | a => s.asyncLogging.bind fun l => (l.step a).map fun l' => { s with asyncLogging := some l' }

def step (s : Instance) : Action → Option Instance
  | .call caller a => s.call caller a
  | .async => s.async
  | .add sink => s.add sink
  | .remove sink => s.remove sink
  | .goOn caller => s.goOn caller
  | .background a => s.background a

/-- Where the text of an entry begins is an `int`. -/
def Fits (s : Instance) : Action → Prop
  | .goOn caller => (s.callers caller).calls.head?.any Call.records →
      ∀ l ∈ s.asyncLogging, l.impl.textBuffer.length < 2 ^ 31
  | _ => True

instance (s : Instance) : ∀ a, Decidable (s.Fits a)
  | .goOn _ => inferInstanceAs (Decidable (_ → _))
  | .call _ _ | .async | .add _ | .remove _ | .background _ => isTrue trivial

/-- What the sink was called to record, in order. -/
def received (s : Instance) (sink : Nat) : List (Nat × Entry) := pick (Call.entryFor sink) s.made

end Instance

/-! ### What a step is -/

section Logging

variable {s s' : Logging} {b : Book} {a : Action}

/-- The calls of sinks that are to be made. -/
def Logging.issued (s : Logging) : Action → List Call
  | .flush => if s.logger.initialized then s.logger.sinks.map .flush else []
  | a => (s.entry a).toList.flatMap fun e => s.logger.sinks.map (.record · e)

theorem Stands.issued (stands : Stands s b) (stepped : s.step a = some s') :
    s'.calls = s.calls ++ s.issued a := by
  have sinks : ∀ scope object, s.scopes scope = some object →
      object.sinks = if s.logger.initialized then s.logger.sinks else [] := by
    intro scope object there
    rw [stands.scopes scope, Book.object] at there
    obtain ⟨⟨level, desc⟩, -, rfl⟩ := Option.map_eq_some_iff.mp there
    rw [stands.initialized, stands.sinks]
    rfl
  cases a with
  | addSink sink =>
      cases stepped
      simp [Logging.issued, Logging.entry]
  | initializeLogger =>
      simp only [Logging.step, Logging.initializeLogger] at stepped
      split at stepped
      · cases stepped
        simp [Logging.issued, Logging.entry]
      · obtain ⟨scopes, -, rfl⟩ := Option.map_eq_some_iff.mp stepped
        simp [Logging.issued, Logging.entry]
  | setDefaultLevel lvl =>
      cases stepped
      simp [Logging.issued, Logging.entry]
  | flush =>
      cases stepped
      unfold Logging.flush
      split <;> simp_all [Logging.issued]
  | construct scope lbl id userData =>
      simp only [Logging.step] at stepped
      split at stepped
      · cases stepped
        simp [Logging.issued, Logging.entry, Logging.registerScope]
      · cases stepped
  | destroy scope =>
      simp only [Logging.step] at stepped
      split at stepped
      · obtain ⟨scopes, -, rfl⟩ := Option.map_eq_some_iff.mp stepped
        simp [Logging.issued, Logging.entry]
      · cases stepped
  | setLevel scope lvl =>
      obtain ⟨object, -, rfl⟩ := Option.map_eq_some_iff.mp stepped
      simp [Logging.issued, Logging.entry]
  | addEntry scope lvl text now =>
      obtain ⟨object, there, rfl⟩ := Option.map_eq_some_iff.mp stepped
      simp only [Logging.issued, Logging.entry, there, Option.bind_some, Scope.addEntry,
        Scope.addEntryUnchecked, sinks scope object there]
      by_cases late : s.logger.initialized = true <;> by_cases enabled : object.enabled lvl = true <;>
        simp [late, enabled]
  | addEntryUnchecked scope lvl text now =>
      obtain ⟨object, there, rfl⟩ := Option.map_eq_some_iff.mp stepped
      simp only [Logging.issued, Logging.entry, there, Option.bind_some, Scope.addEntryUnchecked,
        sinks scope object there]
      by_cases late : s.logger.initialized = true <;> simp [late]

/-- Only a logger that is not initialized is given a sink. -/
theorem Logging.step_logger (stepped : s.step a = some s') :
    (s'.logger.sinks = s.logger.sinks ∧ (s.logger.initialized = true → s'.logger.initialized = true)) ∨
    ∃ sink, a = .addSink sink ∧ s.logger.initialized = false ∧ s'.logger.initialized = false ∧
      s'.logger.sinks = s.logger.sinks ++ [sink] := by
  cases a with
  | addSink sink =>
      cases stepped
      unfold Logger.addSink
      split
      · exact .inl ⟨rfl, id⟩
      · rename_i early
        exact .inr ⟨sink, rfl, Bool.eq_false_iff.mpr early, Bool.eq_false_iff.mpr early, rfl⟩
  | initializeLogger =>
      left
      simp only [Logging.step, Logging.initializeLogger] at stepped
      split at stepped
      · cases stepped
        exact ⟨rfl, id⟩
      · obtain ⟨scopes, -, rfl⟩ := Option.map_eq_some_iff.mp stepped
        exact ⟨rfl, fun _ => rfl⟩
  | setDefaultLevel lvl =>
      cases stepped
      exact .inl ⟨rfl, id⟩
  | flush =>
      cases stepped
      left
      unfold Logging.flush
      split <;> exact ⟨rfl, id⟩
  | construct scope lbl id' userData =>
      simp only [Logging.step] at stepped
      split at stepped
      · cases stepped
        exact .inl ⟨rfl, id⟩
      · cases stepped
  | destroy scope =>
      simp only [Logging.step] at stepped
      split at stepped
      · obtain ⟨scopes, -, rfl⟩ := Option.map_eq_some_iff.mp stepped
        exact .inl ⟨rfl, id⟩
      · cases stepped
  | setLevel scope lvl =>
      obtain ⟨object, -, rfl⟩ := Option.map_eq_some_iff.mp stepped
      exact .inl ⟨rfl, id⟩
  | addEntry scope lvl text now =>
      obtain ⟨object, -, rfl⟩ := Option.map_eq_some_iff.mp stepped
      exact .inl ⟨rfl, id⟩
  | addEntryUnchecked scope lvl text now =>
      obtain ⟨object, -, rfl⟩ := Option.map_eq_some_iff.mp stepped
      exact .inl ⟨rfl, id⟩

/-- Whether the asynchronous logging is a sink is not changed by others. -/
theorem Logging.count_asyncSink (foreign : a.foreign) (stepped : s.step a = some s') :
    s'.logger.sinks.count asyncSink = s.logger.sinks.count asyncSink := by
  rcases Logging.step_logger stepped with ⟨same, -⟩ | ⟨sink, rfl, -, -, more⟩
  · rw [same]
  · have other : sink ≠ asyncSink := by simpa [Action.foreign] using foreign
    rw [more, List.count_append, List.count_singleton]
    simp [other]

end Logging

namespace Instance

/-- What the asynchronous logging does then, if it is not a sink of the logger that is called. -/
def Action.inner : Action → Option AsyncLogging.Action
  | .add sink => some (.add sink)
  | .remove sink => some (.remove sink)
  | .background .notify => some .notify
  | .background .destroy => some .destroy
  | .background .work => some .work
  | .background .wake => some .wake
  | _ => none

theorem Action.inner_ne_record {a : Action} {b : AsyncLogging.Action} (inner : a.inner = some b) (e : Entry) :
    b ≠ .record e := by
  rintro rfl
  cases a with
  | background b => cases b <;> cases inner
  | _ => cases inner

inductive Performed (asyncLogging : Option AsyncLogging) :
    Call → Option AsyncLogging → Option Nat → Prop where
  | plain {c : Call} : c.sink ≠ asyncSink → Performed asyncLogging c asyncLogging none
  | record {l l' : AsyncLogging} {e : Entry} : asyncLogging = some l → l.step (.record e) = some l' →
      Performed asyncLogging (.record asyncSink e) (some l') none
  | flush {l l' : AsyncLogging} : asyncLogging = some l → l.step .flush = some l' →
      Performed asyncLogging (.flush asyncSink) (some l') (some l.promises)

inductive Change (s : Instance) : Action → Instance → Prop where
  | called {caller : Nat} {a : Jalog.Action} {logging : Logging} : s.callers caller = .idle →
      (a.locks → s.mutex = none) → a.foreign → s.logging.step a = some logging →
      Change s (.call caller a) (s.called caller a logging)
  | nothing : Change s .async s
  | began : s.asyncLogging = none → s.mutex = none →
      Change s .async { s with
        asyncLogging := some .start
        logging := { s.logging with logger := s.logging.logger.addSink asyncSink } }
  | added {sink : Nat} : s.asyncLogging = none → s.mutex = none → sink ≠ asyncSink →
      Change s (.add sink) { s with
        logging := { s.logging with logger := s.logging.logger.addSink sink } }
  | went {a : Action} {b : AsyncLogging.Action} {l l' : AsyncLogging} : a.inner = some b →
      s.asyncLogging = some l → l.step b = some l' →
      Change s a { s with asyncLogging := some l' }
  | returned {caller promise : Nat} {calls : List Call} : s.callers caller = ⟨calls, some promise⟩ →
      s.returns promise → Change s (.goOn caller) (s.leave caller ⟨calls, none⟩)
  | made {caller : Nat} {c : Call} {calls : List Call} {asyncLogging : Option AsyncLogging}
      {waits : Option Nat} : s.callers caller = ⟨c :: calls, none⟩ →
      Performed s.asyncLogging c asyncLogging waits →
      Change s (.goOn caller)
        ({ s with asyncLogging, made := s.made ++ [(caller, c)] }.leave caller ⟨calls, waits⟩)

theorem performed_of_perform {c : Call} {asyncLogging asyncLogging' : Option AsyncLogging} {waits : Option Nat}
    (performed : c.perform asyncLogging = some (asyncLogging', waits)) :
    Performed asyncLogging c asyncLogging' waits := by
  unfold Call.perform at performed
  split at performed
  · rename_i here
    obtain ⟨l, there, pushed⟩ := Option.bind_eq_some_iff.mp performed
    cases c with
    | record sink e =>
        cases (show sink = asyncSink from here)
        obtain ⟨l', stepped, same⟩ := Option.map_eq_some_iff.mp pushed
        cases same
        exact .record there stepped
    | flush sink =>
        cases (show sink = asyncSink from here)
        obtain ⟨l', stepped, same⟩ := Option.map_eq_some_iff.mp pushed
        cases same
        exact .flush there stepped
  · rename_i other
    cases performed
    exact .plain other

variable {s s' : Instance} {a : Action}

theorem change_of_step (stepped : s.step a = some s') : Change s a s' := by
  have within : ∀ (l : AsyncLogging) (b : AsyncLogging.Action), a.inner = some b → s.asyncLogging = some l →
      ((l.step b).map fun l' => { s with asyncLogging := some l' }) = some s' → Change s a s' := by
    intro l b inner there went
    obtain ⟨l', goes, rfl⟩ := Option.map_eq_some_iff.mp went
    exact .went inner there goes
  cases a with
  | call caller a =>
      simp only [step, call] at stepped
      split at stepped
      · rename_i may
        obtain ⟨logging, logged, rfl⟩ := Option.map_eq_some_iff.mp stepped
        exact .called may.1 may.2.1 may.2.2 logged
      · cases stepped
  | async =>
      simp only [step, async] at stepped
      split at stepped
      · cases stepped
        exact .nothing
      · rename_i nothing
        split at stepped
        · rename_i free
          cases stepped
          exact .began nothing free
        · cases stepped
  | add sink =>
      simp only [step, add] at stepped
      split at stepped
      · cases stepped
      · rename_i other
        split at stepped
        · rename_i l there
          unfold setUp at stepped
          split at stepped
          · exact within l (.add sink) rfl there stepped
          · cases stepped
        · rename_i nothing
          split at stepped
          · rename_i free
            cases stepped
            exact .added nothing free other
          · cases stepped
  | remove sink =>
      obtain ⟨l, there, removed⟩ := Option.bind_eq_some_iff.mp stepped
      unfold setUp at removed
      split at removed
      · exact within l (.remove sink) rfl there removed
      · cases removed
  | goOn caller =>
      simp only [step, goOn] at stepped
      split at stepped
      · rename_i calls promise here
        split at stepped
        · rename_i set
          cases stepped
          exact .returned here set
        · cases stepped
      · cases stepped
      · rename_i c calls here
        obtain ⟨⟨asyncLogging, waits⟩, performed, rfl⟩ := Option.map_eq_some_iff.mp stepped
        exact .made here (performed_of_perform performed)
  | background b =>
      simp only [step, background] at stepped
      split at stepped
      · cases stepped
      · cases stepped
      · cases stepped
      · cases stepped
      · rename_i notRecord notAdd notRemove notFlush
        obtain ⟨l, there, went⟩ := Option.bind_eq_some_iff.mp stepped
        cases b with
        | record e => exact absurd rfl (notRecord e)
        | add sink => exact absurd rfl (notAdd sink)
        | remove sink => exact absurd rfl (notRemove sink)
        | flush => exact absurd rfl notFlush
        | _ => exact within l _ rfl there went

end Instance

end AlpacaCore.Jalog
