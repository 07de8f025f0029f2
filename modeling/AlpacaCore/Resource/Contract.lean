import AlpacaCore.Resource.Lookup
import Mathlib.Data.List.Perm.Subperm

/-!
What the caches and their manager promise over a whole run, in any order of calls.

The slot tables never shrink, so that they stay small is about the whole run: a table
grows only when each of its slots names a live resource, and no two name the same one.
-/

namespace AlpacaCore.Resource

open AlpacaCore.System (place run peak le_peak run_invariant length_place mem_of_mem_place)

namespace Store

variable {Key : Type}

/-- The resources that are alive. -/
def live (s : Store Key) : List Nat :=
  (List.range s.added.length).filter fun resource => 0 < s.useCount resource

/-- Those added to the cache. -/
def liveIn (s : Store Key) (cache : Nat) : List Nat :=
  s.live.filter fun resource => (s.added[resource]?).map Prod.fst = some cache

theorem Inv.mem_live {s : Store Key} (inv : Inv s) (r : Nat) : r ∈ s.live ↔ s.Alive r := by
  simp only [live, List.mem_filter, List.mem_range, decide_eq_true_eq]
  constructor
  · exact And.right
  · exact fun alive => ⟨inv.alive_known alive, alive⟩

theorem Inv.mem_liveIn {s : Store Key} (inv : Inv s) (c r : Nat) :
    r ∈ s.liveIn c ↔ s.Alive r ∧ (s.added[r]?).map Prod.fst = some c := by
  simp only [liveIn, List.mem_filter, inv.mem_live, decide_eq_true_eq]

/-! ### The tables -/

/-- A manager with no empty slot has one for each live resource. -/
theorem Inv.manager_length {s : Store Key} (inv : Inv s) (full : ∀ slot ∈ s.manager, slot ≠ none) :
    s.manager.length ≤ s.live.length := by
  have distinct : s.manager.Nodup := by
    rw [List.nodup_iff_count_le_one]
    intro slot
    cases slot with
    | none =>
        rw [List.count_eq_zero.mpr fun member => full none member rfl]
        exact Nat.zero_le 1
    | some r => exact inv.once r
  have inside : s.manager ⊆ s.live.map some := by
    intro slot member
    cases slot with
    | none => exact absurd rfl (full none member)
    | some r =>
        apply List.mem_map_of_mem
        rw [inv.mem_live, inv.alive_iff]
        exact member
  have := (List.subperm_of_subset distinct inside).length_le
  rwa [List.length_map] at this

/-- So has a cache whose slots all name live resources, for those added to it. -/
theorem Inv.cache_length {s : Store Key} (inv : Inv s) (c : Nat)
    (full : ∀ slot ∈ s.caches c, s.Alive slot.resource) :
    (s.caches c).length ≤ (s.liveIn c).length := by
  have distinct : ((s.caches c).map Slot.resource).Nodup := by
    rw [List.nodup_iff_pairwise_ne, List.pairwise_map]
    apply (inv.clean c).imp_of_mem
    intro a b first second different same
    have key := inv.slots c a first
    rw [same, inv.slots c b second] at key
    apply different (full b second)
    simpa [eq_comm] using key
  have inside : (s.caches c).map Slot.resource ⊆ s.liveIn c := by
    intro r member
    obtain ⟨slot, inCache, rfl⟩ := List.mem_map.mp member
    rw [inv.mem_liveIn, inv.slots c slot inCache]
    exact ⟨full slot inCache, rfl⟩
  have := (List.subperm_of_subset distinct inside).length_le
  rwa [List.length_map] at this

/-- Only an addition changes a table other than by emptying slots of the manager. -/
theorem step_tables [DecidableEq Key] {s s' : Store Key} {a : Action Key}
    (stepped : step s a = some s') :
    (s'.manager.length = s.manager.length ∧ s'.caches = s.caches) ∨
      ∃ c k maxAge, s.find c k = none ∧ s' = s.add c k maxAge := by
  rcases step_cases stepped with ⟨manager, caches, -, -⟩ | added | ⟨force, now, rfl⟩
  · exact .inl ⟨congrArg List.length manager, caches⟩
  · exact .inr added
  · exact .inl ⟨(garbageCollect_manager s force now).length_eq.symm, rfl⟩

theorem manager_grows [DecidableEq Key] {s s' : Store Key} {a : Action Key} (inv : Inv s)
    (stepped : step s a = some s') :
    s'.manager.length ≤ s.manager.length ∨ s'.manager.length ≤ s'.live.length := by
  rcases step_tables stepped with ⟨same, -⟩ | ⟨c, k, maxAge, none, rfl⟩
  · exact .inl (Nat.le_of_eq same)
  · rcases length_place Option.isNone (some s.added.length) s.manager with same | ⟨taken, -⟩
    · exact .inl (Nat.le_of_eq same)
    · right
      apply (inv.add none maxAge).manager_length
      intro slot member
      rcases mem_of_mem_place member with rfl | before
      · exact Option.some_ne_none _
      · rintro rfl
        cases taken Option.none before

theorem cache_grows [DecidableEq Key] {s s' : Store Key} {a : Action Key} (c : Nat) (inv : Inv s)
    (stepped : step s a = some s') :
    (s'.caches c).length ≤ (s.caches c).length ∨ (s'.caches c).length ≤ (s'.liveIn c).length := by
  rcases step_tables stepped with ⟨-, same⟩ | ⟨c', k, maxAge, none, rfl⟩
  · exact .inl (Nat.le_of_eq (by rw [same]))
  · by_cases here : c = c'
    · subst here
      rcases length_place (fun slot => s.expired slot.resource) ⟨k, s.added.length⟩ (s.caches c)
        with same | ⟨taken, -⟩
      · left
        rw [caches_add_self]
        exact Nat.le_of_eq same
      · right
        apply (inv.add none maxAge).cache_length
        intro slot member
        rw [caches_add_self] at member
        rw [alive_add]
        rcases mem_of_mem_place member with rfl | before
        · exact .inr rfl
        · exact .inl (expired_false.mp (taken slot before))
    · exact .inl (Nat.le_of_eq (by rw [caches_add_ne s k maxAge here]))

/-! ### The contract -/

structure Contract [DecidableEq Key] (actions : List (Action Key)) (s : Store Key) : Prop where
  /-- Every live resource sits in exactly one slot of the manager. -/
  oneSlot : ∀ r, s.Alive r → s.manager.count (some r) = 1
  /-- A collection destroys only resources that no lock holds; -/
  collects : ∀ force now r, s.Alive r → ¬ (s.garbageCollect force now).1.Alive r → some r ∉ s.locks
  /-- the others keep their slot. -/
  keeps : ∀ force now r, some r ∈ s.locks → some r ∈ (s.garbageCollect force now).1.manager
  /-- A cache finds the live resource added to it under the key, whenever there is one, -/
  finds : ∀ c k r, s.find c k = some r ↔ s.added[r]? = some (c, k) ∧ s.Alive r
  /-- and there is one at most. -/
  unique : ∀ c k r r', s.added[r]? = some (c, k) → s.Alive r → s.added[r']? = some (c, k) →
    s.Alive r' → r = r'
  /-- The manager never has more slots than there were live resources at one time, -/
  managerTable : s.manager.length ≤ peak step (fun s => s.live.length) start actions
  /-- and a cache never more than there were live ones of its own. -/
  cacheTable : ∀ c, (s.caches c).length ≤ peak step (fun s => (s.liveIn c).length) start actions

/-- Whatever the order of calls, the contract holds after them. -/
theorem run_contract [DecidableEq Key] (actions : List (Action Key)) (s : Store Key)
    (computed : run step start actions = some s) : Contract actions s := by
  have inv : Inv s := run_invariant inv_start step_inv computed
  refine ⟨?_, ?_, ?_, inv.find_iff, ?_, ?_, ?_⟩
  · intro r alive
    have := List.count_pos_iff.mpr ((inv.alive_iff r).mp alive)
    have := inv.once r
    omega
  · intro force now r _ destroyed member
    apply destroyed
    exact Nat.add_pos_right _ (List.count_pos_iff.mpr member)
  · exact fun force now r member => (inv.garbageCollect force now).locked r member
  · intro c k r r' added alive added' alive'
    have found := (inv.find_iff c k r).mpr ⟨added, alive⟩
    rw [(inv.find_iff c k r').mpr ⟨added', alive'⟩] at found
    exact (Option.some.inj found).symm
  · exact le_peak inv_start (Nat.zero_le _) step_inv (fun s a s' => manager_grows) computed
  · exact fun c => le_peak inv_start (Nat.zero_le _) step_inv (fun s a s' => cache_grows c) computed

/-- Two models are loaded, released and collected; the second is loaded again, into the
slot of the first, before its own expired one. -/
def reload : List (Action String) :=
  [.add 0 "first" 10, .add 0 "second" 10, .drop 0 0, .drop 1 0, .garbageCollect true 0,
    .findOrCreate 0 "second" 5, .find 0 "second"]

def reloaded : Store String := ((run step start reload).getD start)

theorem run_contract_reload :
    (reloaded.caches 0 = [⟨"second", 2⟩, ⟨"second", 1⟩] ∧ reloaded.manager = [some 2, none]) ∧
      Contract reload reloaded :=
  ⟨⟨rfl, rfl⟩, run_contract reload reloaded rfl⟩

end Store

end AlpacaCore.Resource
