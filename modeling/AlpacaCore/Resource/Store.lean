import AlpacaCore.System.Run
import AlpacaCore.System.SlotTable

/-!
`ResourceManager`, the `ResourceCache`s that share it, and the `ResourceLock`s they
give out.

A resource is named by the number of resources added before it. Who owns it can be
read off the state: the slots of the manager and the locks are `std::shared_ptr`s, the
slots of a cache `std::weak_ptr`s. `added` is not kept by the code; it records which
cache each resource was added to and under which key.
-/

namespace AlpacaCore.Resource

open AlpacaCore.System (place)

/-- `Resource`, with times and durations in one unit. -/
structure Data where
  maxAge : Int
  expireTime : Int
deriving DecidableEq, Repr

/-- `time_point_t::min()`, the least of 64 bits. -/
def timePointMin : Int := -0x8000000000000000

/-- `ResourceData`: the resource the weak pointer names. -/
structure Slot (Key : Type) where
  key : Key
  resource : Nat
deriving DecidableEq, Repr

structure Store (Key : Type) where
  /-- `ResourceManager::m_resources` -/
  manager : List (Option Nat)
  /-- `ResourceCache::m_resources` of each cache -/
  caches : Nat → List (Slot Key)
  /-- `m_resource` of each lock made so far; a lock that was destroyed holds nothing -/
  locks : List (Option Nat)
  data : Nat → Data
  added : List (Nat × Key)

inductive Action (Key : Type) where
  | find (cache : Nat) (key : Key)
  /-- `add` of a new resource with this `maxAge` -/
  | add (cache : Nat) (key : Key) (maxAge : Int)
  | findOrCreate (cache : Nat) (key : Key) (maxAge : Int)
  /-- `lock->maxAge = maxAge` -/
  | setMaxAge (lock : Nat) (maxAge : Int)
  /-- copy construction -/
  | copy (lock : Nat)
  /-- move construction -/
  | move (lock : Nat)
  /-- `lock = other` -/
  | assign (lock other : Nat)
  /-- `lock = std::move(other)` -/
  | moveAssign (lock other : Nat)
  | reset (lock : Nat) (now : Int)
  /-- the lock is destroyed -/
  | drop (lock : Nat) (now : Int)
  | garbageCollect (force : Bool) (now : Int)

namespace Store

variable {Key : Type}

def start : Store Key := ⟨[], fun _ => [], [], fun _ => ⟨10, timePointMin⟩, []⟩

/-- `use_count` of the pointers that own the resource. -/
def useCount (s : Store Key) (resource : Nat) : Nat :=
  s.manager.count (some resource) + s.locks.count (some resource)

/-- `weak_ptr::expired`. -/
def expired (s : Store Key) (resource : Nat) : Bool := s.useCount resource == 0

/-- The resource exists: something owns it. -/
abbrev Alive (s : Store Key) (resource : Nat) : Prop := 0 < s.useCount resource

/-- What the lock holds. -/
def held (s : Store Key) (lock : Nat) : Option Nat := (s.locks[lock]?).join

/-- A lock is made that holds this. -/
def lock (s : Store Key) (resource : Option Nat) : Store Key :=
  { s with locks := s.locks ++ [resource] }

/-- The lock holds this from now on. -/
def setLock (s : Store Key) (lock : Nat) (resource : Option Nat) : Store Key :=
  { s with locks := s.locks.set lock resource }

/-- `Resource::touch`. -/
def touch (s : Store Key) (resource : Nat) (now : Int) : Store Key :=
  let data := s.data resource
  { s with data := Function.update s.data resource { data with expireTime := now + data.maxAge } }

/-- `ResourceLock::reset`. -/
def reset (s : Store Key) (lock : Nat) (now : Int) : Store Key :=
  match s.held lock with
  | some resource => s.touch resource now
  | none => s

/-- `ResourceCache::find`. -/
def find [DecidableEq Key] (s : Store Key) (cache : Nat) (key : Key) : Option Nat :=
  match (s.caches cache).find? fun slot => slot.key = key with
  | none => none
  | some slot => if s.expired slot.resource then none else some slot.resource

/-- `ResourceManager::add`. -/
def managerAdd (s : Store Key) (resource : Nat) : Store Key :=
  { s with manager := place Option.isNone (some resource) s.manager }

/-- `ResourceCache::add`, past its assertion. -/
def add (s : Store Key) (cache : Nat) (key : Key) (maxAge : Int) : Store Key :=
  let resource := s.added.length
  let slots := place (fun slot => s.expired slot.resource) ⟨key, resource⟩ (s.caches cache)
  let s := { s with
    caches := Function.update s.caches cache slots
    data := Function.update s.data resource ⟨maxAge, timePointMin⟩
    added := s.added ++ [(cache, key)] }
  (s.managerAdd resource).lock (some resource)

/-- The loop of `garbageCollect` over the slots that follow `before`; `due` tells
whether `expireTime() <= now`. -/
def collectFrom (locks : List (Option Nat)) (due : Nat → Bool) (before : List (Option Nat)) :
    List (Option Nat) → List (Option Nat) × Nat
  | [] => (before, 0)
  | rd :: after =>
      match rd with
      | none => collectFrom locks due (before ++ [none]) after
      | some resource =>
          if (before ++ some resource :: after).count (some resource) +
              locks.count (some resource) ≠ 1 then
            collectFrom locks due (before ++ [some resource]) after
          else if due resource then
            let (slots, count) := collectFrom locks due (before ++ [none]) after
            (slots, count + 1)
          else collectFrom locks due (before ++ [some resource]) after

/-- `garbageCollect`: when forced, now is the end of time and everything is due. -/
def garbageCollect (s : Store Key) (force : Bool) (now : Int) : Store Key × Nat :=
  let due := fun resource => force || (s.data resource).expireTime ≤ now
  let (manager, count) := collectFrom s.locks due [] s.manager
  ({ s with manager }, count)

def step [DecidableEq Key] (s : Store Key) : Action Key → Option (Store Key)
  | .find cache key => some (s.lock (s.find cache key))
  | .add cache key maxAge =>
      if s.find cache key = none then some (s.add cache key maxAge) else none
  | .findOrCreate cache key maxAge =>
      match s.find cache key with
      | some resource => some (s.lock (some resource))
      | none => some (s.add cache key maxAge)
  | .setMaxAge lock maxAge =>
      match s.held lock with
      | some resource => some { s with
          data := Function.update s.data resource { s.data resource with maxAge := maxAge } }
      | none => none
  | .copy lock => some (s.lock (s.held lock))
  | .move lock => some ((s.setLock lock none).lock (s.held lock))
  | .assign lock other => some (s.setLock lock (s.held other))
  | .moveAssign lock other =>
      if lock = other then some s
      else some ((s.setLock lock (s.held other)).setLock other none)
  | .reset lock now => some (s.reset lock now)
  | .drop lock now => some ((s.reset lock now).setLock lock none)
  | .garbageCollect force now => some (s.garbageCollect force now).1

/-! ### Collection -/

/-- What a collection can do to a slot: nothing, or empty it when no lock holds its
resource. -/
def Collects (locks : List (Option Nat)) (slot slot' : Option Nat) : Prop :=
  slot' = slot ∨ slot' = none ∧ ∀ resource, slot = some resource → some resource ∉ locks

theorem collectFrom_collects (locks : List (Option Nat)) (due : Nat → Bool)
    (before slots : List (Option Nat)) :
    ∃ slots', (collectFrom locks due before slots).1 = before ++ slots' ∧
      List.Forall₂ (Collects locks) slots slots' := by
  induction slots generalizing before with
  | nil => exact ⟨[], by simp [collectFrom], .nil⟩
  | cons rd after ih =>
      -- the loop goes on behind the slot
      have keeps : ∀ slot, Collects locks rd slot → ∃ slots',
          (collectFrom locks due (before ++ [slot]) after).1 = before ++ slots' ∧
            List.Forall₂ (Collects locks) (rd :: after) slots' := by
        intro slot collects
        obtain ⟨slots', same, rest⟩ := ih (before ++ [slot])
        exact ⟨slot :: slots', by simp [same], .cons collects rest⟩
      unfold collectFrom
      cases rd with
      | none => exact keeps none (.inl rfl)
      | some resource =>
          simp only
          split
          · exact keeps _ (.inl rfl)
          · rename_i once
            split
            · refine keeps none (.inr ⟨rfl, ?_⟩)
              rintro _ ⟨⟩ member
              have inLocks := List.count_pos_iff.mpr member
              simp only [List.count_append, List.count_cons_self] at once
              omega
            · exact keeps _ (.inl rfl)

end Store

end AlpacaCore.Resource
