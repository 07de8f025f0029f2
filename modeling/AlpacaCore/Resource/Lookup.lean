import AlpacaCore.Resource.Store

/-!
What a cache finds.

`find` stops at the first slot with the key, and an expired resource there would hide
a live one behind it. It does not happen: `add` puts a resource into the first slot
that is expired, and it is called only when no live slot has its key, so no slot with
the key of a live slot ever precedes it. `Inv.clean` says so, and every operation
keeps it because resources only ever expire.
-/

namespace AlpacaCore.Resource

open AlpacaCore.System (place run mem_place_self mem_place_of_mem mem_of_mem_place length_place
  count_place pairwise_place)

namespace Store

variable {Key : Type}

structure Inv (s : Store Key) : Prop where
  /-- a resource is in one slot of the manager at most, -/
  once : ∀ r, s.manager.count (some r) ≤ 1
  /-- in one when a lock holds it, -/
  locked : ∀ r, some r ∈ s.locks → some r ∈ s.manager
  /-- and only once it was added. -/
  known : ∀ r, some r ∈ s.manager → r < s.added.length
  /-- A slot of a cache is for a resource added to it under the slot's key. -/
  slots : ∀ c slot, slot ∈ s.caches c → s.added[slot.resource]? = some (c, slot.key)
  /-- A live resource has its slot. -/
  kept : ∀ c k r, s.added[r]? = some (c, k) → s.Alive r → ⟨k, r⟩ ∈ s.caches c
  /-- No slot with the key of a live slot precedes it. -/
  clean : ∀ c, (s.caches c).Pairwise fun a b => s.Alive b.resource → a.key ≠ b.key

theorem inv_start : Inv (start : Store Key) := by
  refine ⟨?_, ?_, ?_, ?_, ?_, ?_⟩ <;> simp [start]

/-- What lives is in the manager. -/
theorem Inv.alive_iff {s : Store Key} (inv : Inv s) (r : Nat) : s.Alive r ↔ some r ∈ s.manager := by
  unfold Alive useCount
  rw [Nat.add_pos_iff_pos_or_pos, List.count_pos_iff, List.count_pos_iff]
  constructor
  · rintro (member | member)
    · exact member
    · exact inv.locked r member
  · exact .inl

theorem Inv.alive_known {s : Store Key} (inv : Inv s) {r : Nat} (alive : s.Alive r) :
    r < s.added.length := inv.known r ((inv.alive_iff r).mp alive)

theorem expired_false {s : Store Key} {r : Nat} : s.expired r = false ↔ s.Alive r := by
  simp [expired, Alive, Nat.pos_iff_ne_zero]

/-! ### Finding -/

/-- `find` gives the live resource that was added under the key, if there is one. -/
theorem Inv.find_iff [DecidableEq Key] {s : Store Key} (inv : Inv s) (c : Nat) (k : Key) (r : Nat) :
    s.find c k = some r ↔ s.added[r]? = some (c, k) ∧ s.Alive r := by
  unfold find
  constructor
  · intro found
    split at found
    · cases found
    · rename_i slot first
      split at found
      · cases found
      · rename_i live
        obtain rfl := Option.some.inj found
        have key : slot.key = k := by simpa using List.find?_some first
        rw [inv.slots c slot (List.mem_of_find?_eq_some first), key]
        exact ⟨rfl, expired_false.mp (by simpa using live)⟩
  · rintro ⟨added, alive⟩
    have member := inv.kept c k r added alive
    have first : (s.caches c).find? (fun slot => slot.key = k) = some ⟨k, r⟩ := by
      cases found : (s.caches c).find? fun slot => slot.key = k with
      | none =>
          have absent := List.find?_eq_none.mp found ⟨k, r⟩ member
          simp at absent
      | some slot =>
          obtain ⟨key, before, after, split, earlier⟩ := List.find?_eq_some_iff_append.mp found
          have key : slot.key = k := by simpa using key
          have clean := inv.clean c
          rw [split] at member clean
          rw [List.pairwise_append, List.pairwise_cons] at clean
          obtain ⟨-, ⟨later, -⟩, -⟩ := clean
          rcases List.mem_append.mp member with inside | inside
          · simpa using earlier _ inside
          · rcases List.mem_cons.mp inside with same | inside
            · rw [same]
            · exact absurd key (later _ inside alive)
    simp only [first]
    simp [expired_false.mpr alive]

/-- Nothing found: no live slot has the key. -/
theorem Inv.find_none [DecidableEq Key] {s : Store Key} (inv : Inv s) {c : Nat} {k : Key}
    (none : s.find c k = none) {slot : Slot Key} (member : slot ∈ s.caches c)
    (alive : s.Alive slot.resource) : slot.key ≠ k := by
  rintro rfl
  have found := (inv.find_iff c slot.key slot.resource).mpr ⟨inv.slots c slot member, alive⟩
  rw [none] at found
  cases found

/-! ### Every operation keeps the invariant -/

/-- Locks come and go, and resources are touched. -/
theorem Inv.relock {s s' : Store Key} (inv : Inv s) (manager : s'.manager = s.manager)
    (caches : s'.caches = s.caches) (added : s'.added = s.added)
    (locks : ∀ r, some r ∈ s'.locks → some r ∈ s.locks ∨ some r ∈ s.manager) : Inv s' := by
  have locked : ∀ r, some r ∈ s'.locks → some r ∈ s'.manager := by
    intro r member
    rw [manager]
    rcases locks r member with before | owned
    · exact inv.locked r before
    · exact owned
  have alive : ∀ r, s'.Alive r → s.Alive r := by
    intro r live
    rw [inv.alive_iff, ← manager]
    rcases Nat.add_pos_iff_pos_or_pos.mp live with member | member
    · exact List.count_pos_iff.mp member
    · exact locked r (List.count_pos_iff.mp member)
  refine ⟨?_, locked, ?_, ?_, ?_, ?_⟩
  · rw [manager]
    exact inv.once
  · rw [manager, added]
    exact inv.known
  · rw [caches, added]
    exact inv.slots
  · rw [caches, added]
    exact fun c k r was live => inv.kept c k r was (alive r live)
  · rw [caches]
    exact fun c => (inv.clean c).imp fun different live => different (alive _ live)

theorem held_mem {s : Store Key} {lock r : Nat} (holds : s.held lock = some r) :
    some r ∈ s.locks := by
  unfold held at holds
  obtain ⟨content, found, rfl⟩ : ∃ content, s.locks[lock]? = some content ∧ content = some r := by
    cases found : s.locks[lock]? with
    | none => simp [found] at holds
    | some content => exact ⟨content, rfl, by simpa [found] using holds⟩
  exact List.mem_of_getElem? found

theorem mem_set_locks {locks : List (Option Nat)} {lock r : Nat} {content : Option Nat}
    (member : some r ∈ locks.set lock content) : some r ∈ locks ∨ content = some r := by
  rcases List.mem_or_eq_of_mem_set member with before | same
  · exact .inl before
  · exact .inr same.symm

theorem count_add (s : Store Key) (c : Nat) (k : Key) (maxAge : Int) (r : Nat) :
    (s.add c k maxAge).manager.count (some r) =
      s.manager.count (some r) + if r = s.added.length then 1 else 0 := by
  change (place Option.isNone (some s.added.length) s.manager).count (some r) = _
  rw [count_place (by rfl)]
  simp only [beq_iff_eq, Option.some.injEq, eq_comm (a := s.added.length)]

/-- What lives after an addition lived before or is the new resource. -/
theorem alive_add (s : Store Key) (c : Nat) (k : Key) (maxAge : Int) (r : Nat) :
    (s.add c k maxAge).Alive r ↔ s.Alive r ∨ r = s.added.length := by
  unfold Alive useCount
  rw [count_add]
  simp only [Store.add, managerAdd, lock, List.count_append, List.count_singleton, beq_iff_eq,
    Option.some.injEq, @eq_comm _ s.added.length r]
  by_cases new : r = s.added.length
  · simp only [new, if_true, or_true, iff_true]
    omega
  · simp only [new, if_false, Nat.add_zero, or_false]

/-- The addition is recorded after the earlier ones. -/
theorem added_add (s : Store Key) (c : Nat) (k : Key) (maxAge : Int) (r : Nat) (entry : Nat × Key) :
    (s.add c k maxAge).added[r]? = some entry ↔
      s.added[r]? = some entry ∨ r = s.added.length ∧ entry = (c, k) := by
  change (s.added ++ [(c, k)])[r]? = some entry ↔ _
  rcases Nat.lt_trichotomy r s.added.length with below | rfl | beyond
  · rw [List.getElem?_append_left below]
    constructor
    · exact .inl
    · rintro (before | ⟨rfl, -⟩)
      · exact before
      · exact absurd below (Nat.lt_irrefl _)
  · simp [eq_comm]
  · have length : (s.added ++ [(c, k)]).length ≤ r := by
      simp only [List.length_append, List.length_singleton]
      omega
    have other : r ≠ s.added.length := Nat.ne_of_gt beyond
    rw [List.getElem?_eq_none length, List.getElem?_eq_none (Nat.le_of_lt beyond)]
    simp [other]

/-- An earlier resource that lives after an addition lived before. -/
theorem alive_of_alive_add {s : Store Key} {c : Nat} {k : Key} {maxAge : Int} {r : Nat}
    {entry : Nat × Key} (was : s.added[r]? = some entry) (live : (s.add c k maxAge).Alive r) :
    s.Alive r := by
  rcases (alive_add s c k maxAge r).mp live with lived | rfl
  · exact lived
  · simp at was

theorem caches_add_self (s : Store Key) (c : Nat) (k : Key) (maxAge : Int) :
    (s.add c k maxAge).caches c =
      place (fun slot => s.expired slot.resource) ⟨k, s.added.length⟩ (s.caches c) := by
  simp [Store.add, managerAdd, lock]

theorem caches_add_ne (s : Store Key) {c c' : Nat} (k : Key) (maxAge : Int) (other : c' ≠ c) :
    (s.add c k maxAge).caches c' = s.caches c' := by
  simp [Store.add, managerAdd, lock, Function.update_of_ne other]

/-- A resource is added: it is new, and nothing alive has its key. -/
theorem Inv.add [DecidableEq Key] {s : Store Key} (inv : Inv s) {c : Nat} {k : Key}
    (none : s.find c k = none) (maxAge : Int) : Inv (s.add c k maxAge) := by
  have freshManager : some s.added.length ∉ s.manager := fun member =>
    absurd (inv.known _ member) (Nat.lt_irrefl _)
  have freshLocks : some s.added.length ∉ s.locks := fun member =>
    freshManager (inv.locked _ member)
  refine ⟨?_, ?_, ?_, ?_, ?_, ?_⟩
  · intro r
    rw [count_add]
    split
    · rename_i same
      have none := List.count_eq_zero.mpr freshManager
      rw [← same] at none
      omega
    · simpa using inv.once r
  · intro r member
    have member : some r ∈ s.locks ++ [some s.added.length] := member
    rw [← List.count_pos_iff, count_add]
    rcases List.mem_append.mp member with before | last
    · have := List.count_pos_iff.mpr (inv.locked r before)
      omega
    · obtain rfl : r = s.added.length := by simpa using last
      simp
  · intro r member
    have length : (s.add c k maxAge).added.length = s.added.length + 1 := by
      simp [Store.add, managerAdd, lock]
    rw [length]
    rcases mem_of_mem_place member with same | before
    · obtain rfl := Option.some.inj same
      omega
    · have := inv.known r before
      omega
  · intro c' slot member
    rw [added_add]
    by_cases here : c' = c
    · subst here
      rw [caches_add_self] at member
      rcases mem_of_mem_place member with rfl | before
      · exact .inr ⟨rfl, rfl⟩
      · exact .inl (inv.slots c' slot before)
    · rw [caches_add_ne s k maxAge here] at member
      exact .inl (inv.slots c' slot member)
  · intro c' k' r was live
    rw [added_add] at was
    by_cases here : c' = c
    · subst here
      rw [caches_add_self]
      rcases was with before | ⟨rfl, same⟩
      · have lived := alive_of_alive_add before live
        exact mem_place_of_mem (inv.kept c' k' r before lived) (expired_false.mpr lived)
      · obtain rfl : k' = k := congrArg Prod.snd same
        exact mem_place_self ..
    · rcases was with before | ⟨-, same⟩
      · rw [caches_add_ne s k maxAge here]
        exact inv.kept c' k' r before (alive_of_alive_add before live)
      · exact absurd (congrArg Prod.fst same) here
  · intro c'
    -- slots hold old resources, so only old ones can live in them
    have lived : ∀ slot ∈ s.caches c', (s.add c k maxAge).Alive slot.resource → s.Alive slot.resource :=
      fun slot member live => alive_of_alive_add (inv.slots c' slot member) live
    have old : (s.caches c').Pairwise fun a b =>
        (s.add c k maxAge).Alive b.resource → a.key ≠ b.key :=
      (inv.clean c').imp_of_mem fun _ member different live => different (lived _ member live)
    by_cases here : c' = c
    · subst here
      rw [caches_add_self]
      refine pairwise_place old (fun slot member live => ?_) fun slot member taken _ => ?_
      · exact (inv.find_none none member (lived slot member live)).symm
      · exact inv.find_none none member (expired_false.mp taken)
    · rw [caches_add_ne s k maxAge here]
      exact old

theorem garbageCollect_manager (s : Store Key) (force : Bool) (now : Int) :
    List.Forall₂ (Collects s.locks) s.manager (s.garbageCollect force now).1.manager := by
  obtain ⟨slots', same, collects⟩ := collectFrom_collects s.locks
    (fun resource => force || decide ((s.data resource).expireTime ≤ now)) [] s.manager
  have manager : (s.garbageCollect force now).1.manager = slots' := by
    simpa [garbageCollect] using same
  rwa [manager]

/-- A collection empties slots, and none whose resource a lock holds. -/
theorem count_collects {locks slots slots' : List (Option Nat)}
    (collects : List.Forall₂ (Collects locks) slots slots') (r : Nat) :
    slots'.count (some r) ≤ slots.count (some r) ∧
      (some r ∈ locks → slots'.count (some r) = slots.count (some r)) := by
  induction collects with
  | nil => simp
  | @cons slot slot' slots slots' first _ ih =>
      obtain ⟨fewer, same⟩ := ih
      rcases first with rfl | ⟨rfl, free⟩
      · constructor
        · simp only [List.count_cons]
          omega
        · intro member
          simp only [List.count_cons, same member]
      · constructor
        · simp only [List.count_cons]
          split
          · rename_i absurd
            simp at absurd
          · omega
        · intro member
          have other : slot ≠ some r := fun same => free r same member
          simp [same member, other]

theorem Inv.garbageCollect {s : Store Key} (inv : Inv s) (force : Bool) (now : Int) :
    Inv (s.garbageCollect force now).1 := by
  have collects := count_collects (garbageCollect_manager s force now)
  have owned : ∀ r, some r ∈ (s.garbageCollect force now).1.manager → some r ∈ s.manager := by
    intro r member
    exact List.count_pos_iff.mp
      (Nat.lt_of_lt_of_le (List.count_pos_iff.mpr member) (collects r).1)
  have alive : ∀ r, (s.garbageCollect force now).1.Alive r → s.Alive r := by
    intro r live
    rw [inv.alive_iff]
    rcases Nat.add_pos_iff_pos_or_pos.mp live with member | member
    · exact owned r (List.count_pos_iff.mp member)
    · exact inv.locked r (List.count_pos_iff.mp member)
  refine ⟨?_, ?_, ?_, inv.slots, ?_, ?_⟩
  · exact fun r => Nat.le_trans (collects r).1 (inv.once r)
  · intro r member
    rw [← List.count_pos_iff, (collects r).2 member, List.count_pos_iff]
    exact inv.locked r member
  · exact fun r member => inv.known r (owned r member)
  · exact fun c k r was live => inv.kept c k r was (alive r live)
  · exact fun c => (inv.clean c).imp fun different live => different (alive _ live)

theorem reset_locks (s : Store Key) (lock : Nat) (now : Int) : (s.reset lock now).manager = s.manager ∧
    (s.reset lock now).caches = s.caches ∧ (s.reset lock now).added = s.added ∧
      (s.reset lock now).locks = s.locks := by
  unfold reset
  split <;> exact ⟨rfl, rfl, rfl, rfl⟩

/-- What a step can do: locks come and go, a resource is added under a key that finds
nothing, or the manager collects. -/
theorem step_cases [DecidableEq Key] {s s' : Store Key} {a : Action Key}
    (stepped : step s a = some s') :
    (s'.manager = s.manager ∧ s'.caches = s.caches ∧ s'.added = s.added ∧
      ∀ r, some r ∈ s'.locks → some r ∈ s.locks ∨ ∃ c k, s.find c k = some r) ∨
    (∃ c k maxAge, s.find c k = none ∧ s' = s.add c k maxAge) ∨
    ∃ force now, s' = (s.garbageCollect force now).1 := by
  cases a with
  | find c k =>
      cases stepped
      refine .inl ⟨rfl, rfl, rfl, fun r member => ?_⟩
      rcases List.mem_append.mp member with before | last
      · exact .inl before
      · exact .inr ⟨c, k, by simpa [eq_comm] using last⟩
  | add c k maxAge =>
      simp only [step] at stepped
      split at stepped
      · rename_i none
        cases stepped
        exact .inr (.inl ⟨c, k, maxAge, none, rfl⟩)
      · cases stepped
  | findOrCreate c k maxAge =>
      simp only [step] at stepped
      split at stepped
      · rename_i r found
        cases stepped
        refine .inl ⟨rfl, rfl, rfl, fun r' member => ?_⟩
        rcases List.mem_append.mp member with before | last
        · exact .inl before
        · obtain rfl : r' = r := by simpa using last
          exact .inr ⟨c, k, found⟩
      · rename_i none
        cases stepped
        exact .inr (.inl ⟨c, k, maxAge, none, rfl⟩)
  | setMaxAge lock maxAge =>
      simp only [step] at stepped
      split at stepped
      · cases stepped
        exact .inl ⟨rfl, rfl, rfl, fun _ => .inl⟩
      · cases stepped
  | copy lock =>
      cases stepped
      refine .inl ⟨rfl, rfl, rfl, fun r member => .inl ?_⟩
      rcases List.mem_append.mp member with before | last
      · exact before
      · exact held_mem (by simpa [eq_comm] using last)
  | move lock =>
      cases stepped
      refine .inl ⟨rfl, rfl, rfl, fun r member => .inl ?_⟩
      rcases List.mem_append.mp member with before | last
      · rcases mem_set_locks before with before | absurd
        · exact before
        · cases absurd
      · exact held_mem (by simpa [eq_comm] using last)
  | assign lock other =>
      cases stepped
      refine .inl ⟨rfl, rfl, rfl, fun r member => .inl ?_⟩
      rcases mem_set_locks member with before | holds
      · exact before
      · exact held_mem holds
  | moveAssign lock other =>
      simp only [step] at stepped
      split at stepped
      · cases stepped
        exact .inl ⟨rfl, rfl, rfl, fun _ => .inl⟩
      · cases stepped
        refine .inl ⟨rfl, rfl, rfl, fun r member => .inl ?_⟩
        rcases mem_set_locks member with before | absurd
        · rcases mem_set_locks before with before | holds
          · exact before
          · exact held_mem holds
        · cases absurd
  | reset lock now =>
      cases stepped
      obtain ⟨manager, caches, added, locks⟩ := reset_locks s lock now
      exact .inl ⟨manager, caches, added, fun r member => .inl (locks ▸ member)⟩
  | drop lock now =>
      cases stepped
      obtain ⟨manager, caches, added, locks⟩ := reset_locks s lock now
      refine .inl ⟨manager, caches, added, fun r member => .inl ?_⟩
      rcases mem_set_locks member with before | absurd
      · exact locks ▸ before
      · cases absurd
  | garbageCollect force now =>
      cases stepped
      exact .inr (.inr ⟨force, now, rfl⟩)

theorem step_inv [DecidableEq Key] (s : Store Key) (a : Action Key) (s' : Store Key) (inv : Inv s)
    (stepped : step s a = some s') : Inv s' := by
  rcases step_cases stepped with ⟨manager, caches, added, locks⟩ | ⟨c, k, maxAge, none, rfl⟩ |
    ⟨force, now, rfl⟩
  · apply inv.relock manager caches added
    intro r member
    rcases locks r member with before | ⟨c, k, found⟩
    · exact .inl before
    · exact .inr ((inv.alive_iff r).mp ((inv.find_iff c k r).mp found).2)
  · exact inv.add none maxAge
  · exact inv.garbageCollect force now

end Store

end AlpacaCore.Resource
