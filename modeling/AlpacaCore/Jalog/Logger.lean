import AlpacaCore.System.Run
import AlpacaCore.System.SlotTable
import Mathlib.Logic.Function.Basic
import Mathlib.Data.List.Count

/-!
`Logger` and `Scope`: which sinks an entry goes to.

A scope is an object somewhere, known to the logger by its address. It records to the sinks that
it was given when the logger was initialized, or, if that was before, when it was registered; until
then it is off. The registry is a sparse vector, whose slots are used again. What all this comes to
is said by `Book`, which has neither a registry nor sinks of its own for each scope.

Each function that locks `m_mutex` is one step. Whoever makes a scope does so where there is none,
and uses a scope only while it exists.
-/

namespace AlpacaCore.Jalog

open AlpacaCore.System (place run)
open Function (update update_self update_of_ne)

inductive Level where
  | debug
  | info
  | warning
  | error
  | critical
  | off
deriving DecidableEq

def Level.value : Level → Nat
  | debug => 0
  | info => 1
  | warning => 2
  | error => 3
  | critical => 4
  | off => 5

/-- `ScopeDesc`. The label has room for 15 bytes and a zero. -/
structure ScopeDesc where
  label : List UInt8
  short : label.length ≤ 15
  id : Nat
  userData : Int
deriving DecidableEq

/-- The constructor of `Scope`. -/
def ScopeDesc.make (lbl : List UInt8) (id : Nat) (userData : Int) : ScopeDesc :=
  ⟨lbl.take (min lbl.length 15), by rw [List.length_take]; omega, id, userData⟩

structure Entry where
  scope : ScopeDesc
  level : Level
  timestamp : Int
  text : List UInt8
deriving DecidableEq

/-- What is called of a sink. -/
inductive Call where
  | record (sink : Nat) (e : Entry)
  | flush (sink : Nat)
deriving DecidableEq

structure Scope where
  level : Level
  desc : ScopeDesc
  /-- A view of `m_scopeSinks`, which does not change any more. -/
  sinks : List Nat

namespace Scope

def enabled (s : Scope) (lvl : Level) : Bool := s.level.value ≤ lvl.value

def addEntryUnchecked (s : Scope) (lvl : Level) (text : List UInt8) (now : Int) : List Call :=
  s.sinks.map fun sink => .record sink ⟨s.desc, lvl, now, text⟩

def addEntry (s : Scope) (lvl : Level) (text : List UInt8) (now : Int) : List Call :=
  if s.enabled lvl then s.addEntryUnchecked lvl text now else []

end Scope

structure Logger where
  sinks : List Nat
  scopeSinks : List Nat
  initialized : Bool
  defaultLevel : Level
  /-- the sparse vector, with the addresses of scopes -/
  scopes : List (Option Nat)

/-- `*pfind(m_scopes, &scope) = nullptr`; where `pfind` finds nothing, it is undefined. -/
def vacate (scope : Nat) : List (Option Nat) → Option (List (Option Nat))
  | [] => none
  | slot :: rest =>
      if slot = some scope then some (none :: rest) else (vacate scope rest).map (slot :: ·)

namespace Logger

def initScope (l : Logger) (s : Scope) : Scope := { s with sinks := l.scopeSinks, level := l.defaultLevel }

def addSink (l : Logger) (sink : Nat) : Logger :=
  if l.initialized then l else { l with sinks := l.sinks ++ [sink] }

/-- `initScope` of each scope of the registry, where there is one. -/
def initScopes (l : Logger) : List (Option Nat) → (Nat → Option Scope) → Option (Nat → Option Scope)
  | [], scopes => some scopes
  | none :: rest, scopes => l.initScopes rest scopes
  | some a :: rest, scopes =>
      match scopes a with
      | some s => l.initScopes rest (update scopes a (some (l.initScope s)))
      | none => none

/-- Which scopes the functor gets, if `f` tells at which one it stops. -/
def foreachScope (f : Nat → Bool) : List (Option Nat) → List Nat
  | [] => []
  | none :: rest => foreachScope f rest
  | some a :: rest => a :: if f a then [] else foreachScope f rest

end Logger

/-- A logger, the scopes there are by their addresses, and what was called of the sinks so far. -/
structure Logging where
  logger : Logger
  scopes : Nat → Option Scope
  calls : List Call

inductive Action where
  | addSink (sink : Nat)
  | initializeLogger
  | setDefaultLevel (lvl : Level)
  | flush
  | construct (scope : Nat) (lbl : List UInt8) (id : Nat) (userData : Int)
  | destroy (scope : Nat)
  | setLevel (scope : Nat) (lvl : Level)
  | addEntry (scope : Nat) (lvl : Level) (text : List UInt8) (now : Int)
  | addEntryUnchecked (scope : Nat) (lvl : Level) (text : List UInt8) (now : Int)

namespace Logging

def start : Logging := ⟨⟨[], [], false, .debug, []⟩, fun _ => none, []⟩

def initializeLogger (s : Logging) : Option Logging :=
  if s.logger.initialized then some s
  else
    let logger := { s.logger with
      initialized := true, scopeSinks := s.logger.scopeSinks ++ s.logger.sinks }
    (logger.initScopes logger.scopes s.scopes).map fun scopes => { s with logger, scopes }

def registerScope (s : Logging) (scope : Nat) (object : Scope) : Logging :=
  let object := if s.logger.initialized then s.logger.initScope object
    else { object with level := .off }
  { s with
    logger := { s.logger with scopes := place Option.isNone (some scope) s.logger.scopes }
    scopes := update s.scopes scope (some object) }

def unregisterScope (s : Logging) (scope : Nat) : Option Logging :=
  (vacate scope s.logger.scopes).map fun scopes =>
    { s with logger := { s.logger with scopes }, scopes := update s.scopes scope none }

def flush (s : Logging) : Logging :=
  if s.logger.initialized then { s with calls := s.calls ++ s.logger.sinks.map .flush } else s

def step (s : Logging) : Action → Option Logging
  | .addSink sink => some { s with logger := s.logger.addSink sink }
  | .initializeLogger => s.initializeLogger
  | .setDefaultLevel lvl => some { s with logger := { s.logger with defaultLevel := lvl } }
  | .flush => some s.flush
  | .construct scope lbl id userData =>
      match s.scopes scope with
      | none => some (s.registerScope scope ⟨.debug, .make lbl id userData, []⟩)
      | some _ => none
  | .destroy scope =>
      match s.scopes scope with
      | some _ => s.unregisterScope scope
      | none => none
  | .setLevel scope lvl => (s.scopes scope).map fun object =>
      { s with scopes := update s.scopes scope (some { object with level := lvl }) }
  | .addEntry scope lvl text now => (s.scopes scope).map fun object =>
      { s with calls := s.calls ++ object.addEntry lvl text now }
  | .addEntryUnchecked scope lvl text now => (s.scopes scope).map fun object =>
      { s with calls := s.calls ++ object.addEntryUnchecked lvl text now }

end Logging

/-! ### What the registry comes to -/

/-- The logger and its scopes without a registry: every scope records to all sinks of the logger,
once that is initialized. -/
structure Book where
  sinks : List Nat
  initialized : Bool
  defaultLevel : Level
  scopes : Nat → Option (Level × ScopeDesc)
  calls : List Call

namespace Book

def start : Book := ⟨[], false, .debug, fun _ => none, []⟩

/-- The sinks that the scopes record to. -/
def heard (b : Book) : List Nat := if b.initialized then b.sinks else []

def record (b : Book) (lvl : Level) (desc : ScopeDesc) (text : List UInt8) (now : Int) : Book :=
  { b with calls := b.calls ++ b.heard.map fun sink => .record sink ⟨desc, lvl, now, text⟩ }

def step (b : Book) : Action → Option Book
  | .addSink sink => some (if b.initialized then b else { b with sinks := b.sinks ++ [sink] })
  | .initializeLogger => some (if b.initialized then b else { b with
      initialized := true, scopes := fun a => (b.scopes a).map fun (_, desc) => (b.defaultLevel, desc) })
  | .setDefaultLevel lvl => some { b with defaultLevel := lvl }
  | .flush => some { b with calls := b.calls ++ b.heard.map .flush }
  | .construct scope lbl id userData =>
      match b.scopes scope with
      | none =>
          let lvl := if b.initialized then b.defaultLevel else .off
          some { b with scopes := update b.scopes scope (some (lvl, .make lbl id userData)) }
      | some _ => none
  | .destroy scope => (b.scopes scope).map fun _ => { b with scopes := update b.scopes scope none }
  | .setLevel scope lvl => (b.scopes scope).map fun (_, desc) =>
      { b with scopes := update b.scopes scope (some (lvl, desc)) }
  | .addEntry scope lvl text now => (b.scopes scope).map fun (least, desc) =>
      if least.value ≤ lvl.value then b.record lvl desc text now else b
  | .addEntryUnchecked scope lvl text now => (b.scopes scope).map fun (_, desc) =>
      b.record lvl desc text now

end Book

/-- The object that stands for a scope. -/
def Book.object (b : Book) (scope : Nat) : Option Scope :=
  (b.scopes scope).map fun (level, desc) => ⟨level, desc, b.heard⟩

structure Stands (s : Logging) (b : Book) : Prop where
  sinks : s.logger.sinks = b.sinks
  initialized : s.logger.initialized = b.initialized
  defaultLevel : s.logger.defaultLevel = b.defaultLevel
  calls : s.calls = b.calls
  /-- The view that a scope has of the sinks stays valid. -/
  scopeSinks : s.logger.scopeSinks = b.heard
  scopes : ∀ a, s.scopes a = b.object a
  /-- A scope that exists is in one slot of the registry, and nothing else is. -/
  slots : ∀ a, s.logger.scopes.count (some a) = if (b.scopes a).isSome then 1 else 0

theorem stands_start : Stands .start .start :=
  ⟨rfl, rfl, rfl, rfl, rfl, fun _ => rfl, fun _ => rfl⟩

theorem vacate_of_mem {scope : Nat} {slots : List (Option Nat)} (member : some scope ∈ slots) :
    ∃ before after, slots = before ++ some scope :: after ∧
      vacate scope slots = some (before ++ none :: after) := by
  induction slots with
  | nil => cases member
  | cons slot rest ih =>
      by_cases here : slot = some scope
      · exact ⟨[], rest, by rw [here]; rfl, by rw [vacate, if_pos here]; rfl⟩
      · have later : some scope ∈ rest := (List.mem_cons.mp member).resolve_left (Ne.symm here)
        obtain ⟨before, after, split, vacated⟩ := ih later
        refine ⟨slot :: before, after, by rw [split]; rfl, ?_⟩
        rw [vacate, if_neg here, vacated]
        rfl

/-- Every scope that there is in the registry is given the sinks and the level, and no other one. -/
theorem initScopes_eq (l : Logger) (slots : List (Option Nat)) (scopes : Nat → Option Scope)
    (there : ∀ a, some a ∈ slots → (scopes a).isSome) :
    l.initScopes slots scopes = some fun a =>
      if some a ∈ slots then (scopes a).map l.initScope else scopes a := by
  induction slots generalizing scopes with
  | nil => simp [Logger.initScopes]
  | cons slot rest ih =>
      cases slot with
      | none =>
          rw [Logger.initScopes, ih scopes fun a member => there a (List.mem_cons_of_mem _ member)]
          simp
      | some b =>
          obtain ⟨object, found⟩ := Option.isSome_iff_exists.mp (there b List.mem_cons_self)
          simp only [Logger.initScopes, found]
          rw [ih]
          · congr 1
            funext a
            by_cases same : a = b
            · subst same
              -- it may have another slot, and be initialized again
              simp only [update_self, found, Option.map_some, List.mem_cons, true_or, if_true]
              split <;> rfl
            · simp [same]
          · intro a member
            by_cases same : a = b
            · rw [same, update_self]
              rfl
            · rw [update_of_ne same]
              exact there a (List.mem_cons_of_mem _ member)

variable {s : Logging} {b : Book}

theorem Stands.member_iff (stands : Stands s b) (a : Nat) :
    some a ∈ s.logger.scopes ↔ (b.scopes a).isSome := by
  rw [← List.count_pos_iff, stands.slots a]
  split <;> simp_all

theorem Stands.addSink (stands : Stands s b) (sink : Nat) :
    Stands { s with logger := s.logger.addSink sink }
      (if b.initialized then b else { b with sinks := b.sinks ++ [sink] }) := by
  have same := stands.initialized
  unfold Logger.addSink
  rw [same]
  split
  · exact stands
  · rename_i early
    have heard : { b with sinks := b.sinks ++ [sink] }.heard = b.heard := by simp [Book.heard, early]
    constructor
    · simp only [stands.sinks]
    · rfl
    · exact stands.defaultLevel
    · exact stands.calls
    · exact stands.scopeSinks.trans heard.symm
    · intro a
      rw [Book.object, heard]
      exact stands.scopes a
    · exact stands.slots

/-- The scopes that were registered before are given the sinks; those that are gone are not touched. -/
theorem Stands.initializeLogger (stands : Stands s b) :
    ∃ s', s.initializeLogger = some s' ∧ Stands s' (if b.initialized then b else { b with
      initialized := true, scopes := fun a => (b.scopes a).map fun (_, desc) => (b.defaultLevel, desc) }) := by
  unfold Logging.initializeLogger
  rw [stands.initialized]
  split
  · exact ⟨s, rfl, stands⟩
  · rename_i early
    have none : s.logger.scopeSinks = [] := by rw [stands.scopeSinks, Book.heard, if_neg early]
    dsimp only
    rw [initScopes_eq]
    · refine ⟨_, rfl, ⟨stands.sinks, rfl, stands.defaultLevel, stands.calls, ?_, ?_, ?_⟩⟩
      · simp only [none, List.nil_append, stands.sinks, Book.heard, if_true]
      · intro a
        simp only [stands.member_iff a, stands.scopes a, Book.object, none, List.nil_append]
        cases found : b.scopes a with
        | none => simp
        | some scope =>
            simp only [Option.isSome_some, if_true, Option.map_some, Logger.initScope,
              stands.defaultLevel, Book.heard, stands.sinks]
      · intro a
        rw [stands.slots a]
        simp only [Option.isSome_map]
    · intro a member
      rw [stands.scopes a, Book.object, Option.isSome_map]
      exact (stands.member_iff a).mp member

theorem Stands.construct (stands : Stands s b) {scope : Nat} (free : b.scopes scope = none)
    (desc : ScopeDesc) (level : Level) :
    let lvl := if b.initialized then b.defaultLevel else .off
    Stands (s.registerScope scope ⟨level, desc, []⟩)
      { b with scopes := update b.scopes scope (some (lvl, desc)) } := by
  refine ⟨stands.sinks, stands.initialized, stands.defaultLevel, stands.calls, stands.scopeSinks, ?_, ?_⟩
  · intro a
    by_cases same : a = scope
    · subst same
      simp only [Logging.registerScope, update_self, Book.object, Option.map_some, Logger.initScope,
        stands.initialized, stands.defaultLevel, stands.scopeSinks, Book.heard]
      split <;> rfl
    · simp only [Logging.registerScope, update_of_ne same, Book.object]
      exact stands.scopes a
  · intro a
    have counted : (place Option.isNone (some scope) s.logger.scopes).count (some a) = _ :=
      System.count_place rfl
    simp only [Logging.registerScope, counted, stands.slots a]
    by_cases same : a = scope
    · subst same
      simp [free]
    · simp [update_of_ne same, Ne.symm same]

theorem Stands.destroy (stands : Stands s b) {scope : Nat} (there : (b.scopes scope).isSome) :
    ∃ s', s.unregisterScope scope = some s' ∧ Stands s' { b with scopes := update b.scopes scope none } := by
  obtain ⟨before, after, split, vacated⟩ := vacate_of_mem ((stands.member_iff scope).mpr there)
  unfold Logging.unregisterScope
  rw [vacated]
  refine ⟨_, rfl, ⟨stands.sinks, stands.initialized, stands.defaultLevel, stands.calls,
    stands.scopeSinks, ?_, ?_⟩⟩
  · intro a
    by_cases same : a = scope
    · subst same
      simp only [update_self, Book.object, Option.map_none]
    · simp only [update_of_ne same, Book.object]
      exact stands.scopes a
  · intro a
    have counted := stands.slots a
    rw [split] at counted
    by_cases same : a = scope
    · subst same
      rw [if_pos there] at counted
      simp at counted ⊢
      omega
    · simpa [update_of_ne same, Ne.symm same] using counted

/-- A scope is changed, but not what it records to. -/
theorem Stands.setLevel (stands : Stands s b) {scope : Nat} {level lvl : Level} {desc : ScopeDesc}
    (there : b.scopes scope = some (level, desc)) :
    Stands { s with scopes := update s.scopes scope (some ⟨lvl, desc, b.heard⟩) }
      { b with scopes := update b.scopes scope (some (lvl, desc)) } := by
  refine ⟨stands.sinks, stands.initialized, stands.defaultLevel, stands.calls, stands.scopeSinks, ?_, ?_⟩
  · intro a
    by_cases same : a = scope
    · subst same
      simp only [update_self, Book.object, Option.map_some]
      rfl
    · simp only [update_of_ne same, Book.object]
      exact stands.scopes a
  · intro a
    rw [stands.slots a]
    by_cases same : a = scope
    · subst same
      simp [there]
    · simp only [update_of_ne same]

theorem Stands.called (stands : Stands s b) (calls : List Call) :
    Stands { s with calls := s.calls ++ calls } { b with calls := b.calls ++ calls } :=
  ⟨stands.sinks, stands.initialized, stands.defaultLevel, by rw [stands.calls],
    stands.scopeSinks, stands.scopes, stands.slots⟩

/-- Logger and book do the same. -/
theorem Stands.step (stands : Stands s b) (a : Action) : Option.Rel Stands (s.step a) (b.step a) := by
  cases a with
  | addSink sink => exact .some (stands.addSink sink)
  | initializeLogger =>
      obtain ⟨s', stepped, stands'⟩ := stands.initializeLogger
      simp only [Logging.step, Book.step, stepped]
      exact .some stands'
  | setDefaultLevel lvl =>
      exact .some ⟨stands.sinks, stands.initialized, rfl, stands.calls, stands.scopeSinks,
        stands.scopes, stands.slots⟩
  | flush =>
      simp only [Logging.step, Book.step]
      have flushed := stands.called (b.heard.map .flush)
      unfold Logging.flush
      unfold Book.heard at flushed ⊢
      rw [stands.initialized, stands.sinks]
      split
      · rename_i late
        rw [if_pos late] at flushed
        exact .some flushed
      · rename_i early
        rw [if_neg early] at flushed
        exact .some (by simpa using flushed)
  | construct scope lbl id userData =>
      simp only [Logging.step, Book.step, stands.scopes scope, Book.object]
      cases there : b.scopes scope with
      | none => exact .some (stands.construct there _ _)
      | some found => exact .none
  | destroy scope =>
      simp only [Logging.step, Book.step, stands.scopes scope, Book.object]
      cases there : b.scopes scope with
      | none => exact .none
      | some found =>
          have isSome : (b.scopes scope).isSome := by rw [there]; rfl
          obtain ⟨s', stepped, stands'⟩ := stands.destroy isSome
          simp only [Option.map_some, stepped]
          exact .some stands'
  | setLevel scope lvl =>
      simp only [Logging.step, Book.step, stands.scopes scope, Book.object]
      cases there : b.scopes scope with
      | none => exact .none
      | some found => exact .some (stands.setLevel there)
  | addEntry scope lvl text now =>
      simp only [Logging.step, Book.step, stands.scopes scope, Book.object]
      cases there : b.scopes scope with
      | none => exact .none
      | some found =>
          obtain ⟨level, desc⟩ := found
          by_cases enough : level.value ≤ lvl.value
          · simp only [Option.map_some, Scope.addEntry, Scope.enabled, enough, decide_true, if_true]
            exact .some (stands.called _)
          · have silent := stands.called []
            simp only [List.append_nil] at silent
            simp only [Option.map_some, Scope.addEntry, Scope.enabled, enough, decide_false,
              Bool.false_eq_true, if_false, List.append_nil]
            exact .some silent
  | addEntryUnchecked scope lvl text now =>
      simp only [Logging.step, Book.step, stands.scopes scope, Book.object]
      cases there : b.scopes scope with
      | none => exact .none
      | some found => exact .some (stands.called _)

theorem stands_of_run (actions : List Action) :
    Option.Rel Stands (run Logging.step .start actions) (run Book.step .start actions) :=
  System.run_rel (fun _ _ a stands => stands.step a) stands_start actions

/-- **What a logger comes to.** Whatever is done, in any order, the sinks are called as the book
says, no function meets a scope that is gone, and the registry has the scopes that exist. -/
theorem logger_keeps_book (actions : List Action) :
    Option.Rel Stands (run Logging.step .start actions) (run Book.step .start actions) :=
  stands_of_run actions

/-! ### The sparse vector -/

/-- What `foreachScope` visits if nothing stops it. -/
abbrev registered (slots : List (Option Nat)) : List Nat := Logger.foreachScope (fun _ => false) slots

theorem count_registered (slots : List (Option Nat)) (a : Nat) :
    (registered slots).count a = slots.count (some a) := by
  induction slots with
  | nil => rfl
  | cons slot rest ih =>
      cases slot with
      | none => simp [registered, Logger.foreachScope, ← ih]
      | some b => simp [registered, Logger.foreachScope, List.count_cons, ← ih]

/-- Up to the first scope that the functor stops at. -/
theorem foreachScope_eq (f : Nat → Bool) (slots : List (Option Nat)) :
    ∃ rest, registered slots = Logger.foreachScope f slots ++ rest ∧
      (rest = [] ∨ ∃ before last, Logger.foreachScope f slots = before ++ [last] ∧ f last = true) ∧
      ∀ before a after, Logger.foreachScope f slots = before ++ a :: after → after ≠ [] → f a = false := by
  induction slots with
  | nil => exact ⟨[], rfl, .inl rfl, by simp [Logger.foreachScope]⟩
  | cons slot rest ih =>
      cases slot with
      | none => exact ih
      | some b =>
          cases stops : f b with
          | true =>
              refine ⟨registered rest, ?_, .inr ⟨[], b, ?_, stops⟩, ?_⟩
              · simp [registered, Logger.foreachScope, stops]
              · simp [Logger.foreachScope, stops]
              · intro before a after split more
                rw [Logger.foreachScope, stops, if_pos rfl] at split
                cases before with
                | nil => exact absurd (List.cons.inj split).2.symm more
                | cons c before => exact absurd (List.cons.inj split).2 (by simp)
          | false =>
              obtain ⟨later, whole, ends, goesOn⟩ := ih
              have visited : Logger.foreachScope f (some b :: rest) = b :: Logger.foreachScope f rest := by
                simp [Logger.foreachScope, stops]
              refine ⟨later, ?_, ?_, ?_⟩
              · rw [visited, List.cons_append, ← whole]
                simp [registered, Logger.foreachScope]
              · rcases ends with none | ⟨before, last, split, stopped⟩
                · exact .inl none
                · exact .inr ⟨b :: before, last, by rw [visited, split]; rfl, stopped⟩
              · intro before a after split more
                rw [visited] at split
                cases before with
                | nil =>
                    obtain ⟨rfl, -⟩ := List.cons.inj split
                    exact stops
                | cons c before => exact goesOn before a after (List.cons.inj split).2 more

/-- With a slot that is free there are fewer scopes than slots. -/
theorem length_registered_iff (slots : List (Option Nat)) :
    (registered slots).length ≤ slots.length ∧
      ((∀ slot ∈ slots, slot.isNone = false) → (registered slots).length = slots.length) := by
  induction slots with
  | nil => simp [registered, Logger.foreachScope]
  | cons slot rest ih =>
      cases slot with
      | none =>
          constructor
          · exact Nat.le_succ_of_le ih.1
          · intro taken
            cases taken none List.mem_cons_self
      | some b =>
          have length : (registered (some b :: rest)).length = (registered rest).length + 1 := by
            simp [registered, Logger.foreachScope]
          rw [length, List.length_cons]
          constructor
          · exact Nat.succ_le_succ ih.1
          · intro taken
            rw [ih.2 fun slot member => taken slot (List.mem_cons_of_mem _ member)]

theorem length_vacate {scope : Nat} {slots slots' : List (Option Nat)}
    (vacated : vacate scope slots = some slots') : slots'.length = slots.length := by
  induction slots generalizing slots' with
  | nil => cases vacated
  | cons slot rest ih =>
      rw [vacate] at vacated
      split at vacated
      · cases vacated
        rfl
      · obtain ⟨rest', later, rfl⟩ := Option.map_eq_some_iff.mp vacated
        rw [List.length_cons, List.length_cons, ih later]

/-- The number of scopes. -/
def Logging.scopeCount (s : Logging) : Nat := (registered s.logger.scopes).length

/-- Slots are used again: there is a new one only where all are taken. -/
theorem Logging.slots_grow {s s' : Logging} {a : Action} (stepped : s.step a = some s') :
    s'.logger.scopes.length ≤ s.logger.scopes.length ∨ s'.logger.scopes.length ≤ s'.scopeCount := by
  cases a with
  | addSink sink =>
      cases stepped
      left
      unfold Logger.addSink
      split <;> exact Nat.le_refl _
  | initializeLogger =>
      simp only [Logging.step, Logging.initializeLogger] at stepped
      split at stepped
      · cases stepped
        exact .inl (Nat.le_refl _)
      · obtain ⟨scopes, -, rfl⟩ := Option.map_eq_some_iff.mp stepped
        exact .inl (Nat.le_refl _)
  | setDefaultLevel lvl =>
      cases stepped
      exact .inl (Nat.le_refl _)
  | flush =>
      cases stepped
      left
      unfold Logging.flush
      split <;> exact Nat.le_refl _
  | construct scope lbl id userData =>
      simp only [Logging.step] at stepped
      split at stepped
      · cases stepped
        rcases System.length_place Option.isNone (some scope) s.logger.scopes with same | ⟨taken, grown⟩
        · exact .inl (Nat.le_of_eq same)
        · right
          apply Nat.le_of_eq
          apply ((length_registered_iff _).2 _).symm
          intro slot member
          rcases System.mem_of_mem_place member with rfl | member
          · rfl
          · exact taken slot member
      · cases stepped
  | destroy scope =>
      simp only [Logging.step] at stepped
      split at stepped
      · obtain ⟨scopes, vacated, rfl⟩ := Option.map_eq_some_iff.mp stepped
        exact .inl (Nat.le_of_eq (length_vacate vacated))
      · cases stepped
  | setLevel scope lvl =>
      obtain ⟨object, -, rfl⟩ := Option.map_eq_some_iff.mp stepped
      exact .inl (Nat.le_refl _)
  | addEntry scope lvl text now =>
      obtain ⟨object, -, rfl⟩ := Option.map_eq_some_iff.mp stepped
      exact .inl (Nat.le_refl _)
  | addEntryUnchecked scope lvl text now =>
      obtain ⟨object, -, rfl⟩ := Option.map_eq_some_iff.mp stepped
      exact .inl (Nat.le_refl _)

/-- What can be said of the registry after these actions. -/
structure Registry (actions : List Action) (s : Logging) : Prop where
  /-- `foreachScope` visits the scopes that exist, each once. -/
  visits : ∀ a, a ∈ registered s.logger.scopes ↔ (s.scopes a).isSome
  once : (registered s.logger.scopes).Nodup
  /-- If the functor stops it, then behind the first scope where it does. -/
  stops : ∀ f, ∃ rest, registered s.logger.scopes = Logger.foreachScope f s.logger.scopes ++ rest ∧
    (rest = [] ∨ ∃ before last, Logger.foreachScope f s.logger.scopes = before ++ [last] ∧ f last = true) ∧
    ∀ before a after, Logger.foreachScope f s.logger.scopes = before ++ a :: after → after ≠ [] → f a = false
  /-- There are never more slots than there were scopes at once. -/
  small : s.logger.scopes.length ≤ System.peak Logging.step Logging.scopeCount .start actions

/-- **The sparse vector is a registry.** Whatever is done with the logger and its scopes, the
vector has exactly the scopes that exist, each of them once; a visit stops behind the first for
which the functor returns true; and a slot is made only when none is free. -/
theorem registry_of_run (actions : List Action) {s : Logging}
    (computed : run Logging.step .start actions = some s) : Registry actions s := by
  have both := stands_of_run actions
  rw [computed] at both
  generalize run Book.step .start actions = after at both
  cases both with
  | @some _ b stands =>
      constructor
      · intro a
        rw [← List.count_pos_iff, count_registered, List.count_pos_iff, stands.member_iff, stands.scopes a,
          Book.object, Option.isSome_map]
      · rw [List.nodup_iff_count_le_one]
        intro a
        rw [count_registered, stands.slots a]
        split <;> omega
      · exact fun f => foreachScope_eq f _
      · exact @System.le_peak _ _ Logging.step .start s (fun _ => True) (fun s => s.logger.scopes.length)
          Logging.scopeCount actions trivial (Nat.le_refl _) (fun _ _ _ _ _ => trivial)
          (fun _ _ _ _ stepped => Logging.slots_grow stepped) computed

/-- The third scope gets the slot of the first. -/
theorem registry_of_run_again :
    ∃ s, run Logging.step .start [.construct 3 [97] 1 0, .construct 5 [98] 2 0, .destroy 3,
        .construct 9 [99] 3 0] = some s ∧
      Registry [.construct 3 [97] 1 0, .construct 5 [98] 2 0, .destroy 3, .construct 9 [99] 3 0] s :=
  ⟨_, rfl, registry_of_run [.construct 3 [97] 1 0, .construct 5 [98] 2 0, .destroy 3, .construct 9 [99] 3 0] rfl⟩

end AlpacaCore.Jalog
