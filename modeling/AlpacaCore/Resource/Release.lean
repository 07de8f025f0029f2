import AlpacaCore.Resource.Lookup

/-!
How long a resource outlives its last lock.

`reset` and the destructor of a lock touch the resource, which sets its expiry to
`maxAge` from then. Only the destructor also gives up the pointer, and an assignment gives
it up without a touch. `Timed` puts a clock over the store and notes beside each lock what
it would hold if `reset` emptied it, and when the last such lock on a resource ended.
-/

namespace AlpacaCore.Resource

open AlpacaCore.System (Meets run)

variable {Key : Type}

/-- The action, performed at this time. -/
def Action.at (now : Int) : Action Key → Action Key
  | .reset lock _ => .reset lock now
  | .drop lock _ => .drop lock now
  | .garbageCollect force _ => .garbageCollect force now
  | a => a

/-- The locks that the action is about. -/
def Action.names : Action Key → List Nat
  | .setMaxAge lock _ | .copy lock | .move lock | .reset lock _ | .drop lock _ => [lock]
  | .assign lock other | .moveAssign lock other => [lock, other]
  | .find _ _ | .add _ _ _ | .findOrCreate _ _ _ | .garbageCollect _ _ => []

/-- What the lock holds, in a list of what locks hold. -/
def content (locks : List (Option Nat)) (lock : Nat) : Option Nat := (locks[lock]?).join

structure Timed (Key : Type) where
  store : Store Key
  clock : Int
  /-- what the locks would hold if `reset` emptied them -/
  holds : List (Option Nat)
  /-- when the last lock on a resource ended -/
  ended : Nat → Int

namespace Timed

def start (clock : Int) : Timed Key := ⟨.start, clock, [], fun _ => clock⟩

/-- What the locks would hold next. -/
def next [DecidableEq Key] (s : Timed Key) : Action Key → List (Option Nat)
  | .find cache key => s.holds ++ [s.store.find cache key]
  | .add _ _ _ => s.holds ++ [some s.store.added.length]
  | .findOrCreate cache key _ =>
      s.holds ++ [some ((s.store.find cache key).getD s.store.added.length)]
  | .setMaxAge _ _ => s.holds
  | .copy lock => s.holds ++ [content s.holds lock]
  | .move lock => s.holds.set lock none ++ [content s.holds lock]
  | .assign lock other => s.holds.set lock (content s.holds other)
  | .moveAssign lock other =>
      if lock = other then s.holds
      else (s.holds.set lock (content s.holds other)).set other none
  | .reset lock _ => s.holds.set lock none
  | .drop lock _ => s.holds.set lock none
  | .garbageCollect _ _ => s.holds

/-- Time does not go back, and the locks have been made. -/
def Possible (s : Timed Key) (now : Int) (a : Action Key) : Prop :=
  s.clock ≤ now ∧ ∀ lock ∈ a.names, lock < s.store.locks.length

instance (s : Timed Key) (now : Int) (a : Action Key) : Decidable (s.Possible now a) :=
  inferInstanceAs (Decidable (_ ∧ _))

def step [DecidableEq Key] (s : Timed Key) (event : Int × Action Key) : Option (Timed Key) :=
  let (now, a) := event
  if s.Possible now a then
    (s.store.step (a.at now)).map fun store =>
      { store, clock := now, holds := s.next a
        ended := fun r => if some r ∈ s.holds ∧ some r ∉ s.next a then now else s.ended r }
  else none

end Timed

/-! ### What a collection destroys -/

theorem mem_collectFrom {locks before slots : List (Option Nat)} {due : Nat → Bool} {r : Nat}
    (once : (before ++ slots).count (some r) ≤ 1) :
    some r ∈ (Store.collectFrom locks due before slots).1 ↔
      some r ∈ before ∨ some r ∈ slots ∧ (some r ∈ locks ∨ due r = false) := by
  induction slots generalizing before with
  | nil => simp [Store.collectFrom]
  | cons rd after ih =>
      -- the loop goes on, with another slot before it
      have other : ∀ slot, slot ≠ some r → rd ≠ some r →
          (some r ∈ (Store.collectFrom locks due (before ++ [slot]) after).1 ↔
            some r ∈ before ∨ some r ∈ rd :: after ∧ (some r ∈ locks ∨ due r = false)) := by
        intro slot different different'
        have once : (before ++ [slot] ++ after).count (some r) ≤ 1 := by
          simp only [List.count_append, List.count_cons_of_ne different'] at once
          simp only [List.count_append, List.count_singleton, beq_iff_eq, different, if_false]
          omega
        rw [ih once]
        simp [different.symm, different'.symm]
      unfold Store.collectFrom
      cases rd with
      | none => exact other none (by simp) (by simp)
      | some q =>
          by_cases same : q = r
          · subst same
            have absent : some q ∉ before ∧ some q ∉ after := by
              rw [List.count_append, List.count_cons_self] at once
              constructor <;> rw [← List.count_eq_zero] <;> omega
            obtain ⟨notBefore, notAfter⟩ := absent
            have alone : (before ++ some q :: after).count (some q) = 1 := by
              rw [List.count_append, List.count_cons_self, List.count_eq_zero.mpr notBefore,
                List.count_eq_zero.mpr notAfter]
            -- the slot stays
            have kept : some q ∈ (Store.collectFrom locks due (before ++ [some q]) after).1 := by
              rw [ih (by simpa using once)]
              exact .inl (by simp)
            have emptied : some q ∉ (Store.collectFrom locks due (before ++ [none]) after).1 := by
              have fewer : (before ++ [none] ++ after).count (some q) ≤ 1 := by
                simp [List.count_eq_zero.mpr notBefore, List.count_eq_zero.mpr notAfter]
              rw [ih fewer]
              simp [notBefore, notAfter]
            simp only [alone]
            split
            · rename_i shared
              have locked : some q ∈ locks := List.count_pos_iff.mp (by omega)
              simp [kept, locked]
            · rename_i unshared
              have unlocked : some q ∉ locks := by
                rw [← List.count_eq_zero]
                omega
              split
              · rename_i isDue
                simp [emptied, notBefore, unlocked, isDue]
              · rename_i notDue
                simp [kept, notDue]
          · simp only
            split
            · exact other _ (by simpa using same) (by simpa using same)
            · split
              · exact other none (by simp) (by simpa using same)
              · exact other _ (by simpa using same) (by simpa using same)

/-- A collection destroys what no lock holds and, unless it is forced, has expired. -/
theorem Store.Inv.alive_garbageCollect {s : Store Key} (inv : s.Inv) (force : Bool) (now : Int)
    (r : Nat) : (s.garbageCollect force now).1.Alive r ↔
      s.Alive r ∧ (some r ∈ s.locks ∨ force = false ∧ now < (s.data r).expireTime) := by
  rw [(inv.garbageCollect force now).alive_iff, inv.alive_iff]
  have exact := @mem_collectFrom s.locks [] s.manager
    (fun resource => force || decide ((s.data resource).expireTime ≤ now)) r (inv.once r)
  simpa [Store.garbageCollect] using exact

/-! ### The contract -/

namespace Timed

/-- The release law, as far as it is about this state: a resource without a lock is
destroyed by a forced collection, and by another one from `maxAge` after the end of its
last lock. -/
def Lawful (s : Timed Key) : Prop :=
  ∀ r, s.store.Alive r → some r ∉ s.holds →
    (∀ now, ¬ (s.store.garbageCollect true now).1.Alive r) ∧
    ∀ now, s.clock ≤ now →
      (¬ (s.store.garbageCollect false now).1.Alive r ↔ s.ended r + (s.store.data r).maxAge ≤ now)

/-- The last lock on the resource ends. -/
def Ends [DecidableEq Key] (s : Timed Key) (a : Action Key) (r : Nat) : Prop :=
  some r ∈ s.holds ∧ some r ∉ s.next a

/-- No other lock holds it: there is none that was `reset` and has held it since. -/
def Alone (s : Timed Key) (lock r : Nat) : Prop :=
  ∀ other, other ≠ lock → content s.store.locks other ≠ some r

/-- A touch would make no difference from now on. -/
def UpToDate (s : Timed Key) (now : Int) (r : Nat) : Prop :=
  max (s.store.data r).expireTime now = max (now + (s.store.data r).maxAge) now

/-- How the last lock on a resource may end: it is destroyed, or overwritten when the
resource expires as if it was. -/
def Frees (s : Timed Key) (now : Int) (r : Nat) : Action Key → Prop
  | .drop lock _ => s.Alone lock r
  | .assign lock _ => s.Alone lock r ∧ s.UpToDate now r
  | .moveAssign lock _ => s.Alone lock r ∧ s.UpToDate now r
  | _ => False

def Releases [DecidableEq Key] (s : Timed Key) (event : Int × Action Key) : Prop :=
  s.Possible event.1 event.2 → ∀ r, s.Ends event.2 r → s.Frees event.1 r event.2

/-! ### What the locks would hold, and do -/

end Timed

theorem content_append (locks : List (Option Nat)) (x : Option Nat) (i : Nat) :
    content (locks ++ [x]) i = if i = locks.length then x else content locks i := by
  unfold content
  rcases Nat.lt_trichotomy i locks.length with below | rfl | beyond
  · rw [List.getElem?_append_left below, if_neg (Nat.ne_of_lt below)]
  · simp
  · rw [List.getElem?_eq_none (by simp; omega), if_neg (Nat.ne_of_gt beyond),
      List.getElem?_eq_none (Nat.le_of_lt beyond)]

theorem content_set (locks : List (Option Nat)) (lock : Nat) (x : Option Nat) (i : Nat) :
    content (locks.set lock x) i = if i = lock ∧ lock < locks.length then x else content locks i := by
  unfold content
  rw [List.getElem?_set]
  by_cases here : lock = i
  · subst here
    by_cases inside : lock < locks.length
    · simp [inside]
    · simp [inside]
  · rw [if_neg here, if_neg fun both => here both.1.symm]

theorem lt_of_content {locks : List (Option Nat)} {lock r : Nat}
    (holding : content locks lock = some r) : lock < locks.length := by
  by_contra beyond
  rw [content, List.getElem?_eq_none (Nat.le_of_not_lt beyond)] at holding
  cases holding

theorem mem_iff_content {locks : List (Option Nat)} {r : Nat} :
    some r ∈ locks ↔ ∃ lock, content locks lock = some r := by
  unfold content
  simp only [List.mem_iff_getElem?, Option.join_eq_some_iff]

/-- A lock is set to hold something else: whether another one holds the resource. -/
theorem not_mem_set {locks : List (Option Nat)} {lock r : Nat} {x : Option Nat}
    (inside : lock < locks.length) (different : x ≠ some r) :
    some r ∉ locks.set lock x ↔ ∀ other, other ≠ lock → content locks other ≠ some r := by
  simp only [mem_iff_content, not_exists]
  apply forall_congr'
  intro other
  rw [content_set]
  by_cases same : other = lock
  · rw [if_pos ⟨same, inside⟩]
    exact iff_of_true different fun apart => absurd same apart
  · rw [if_neg fun both => same both.1]
    simp [same]

/-- What the locks hold is what they would hold, where that is anything. -/
structure Below (holds locks : List (Option Nat)) : Prop where
  length : holds.length = locks.length
  held : ∀ lock r, content holds lock = some r → content locks lock = some r

namespace Below

variable {holds locks : List (Option Nat)}

theorem append (below : Below holds locks) {x y : Option Nat} (same : ∀ r, x = some r → y = some r) :
    Below (holds ++ [x]) (locks ++ [y]) := by
  constructor
  · simp [below.length]
  · intro lock r holding
    rw [content_append] at holding ⊢
    rw [← below.length]
    split at holding
    · rw [if_pos ‹_›]
      exact same r holding
    · rw [if_neg ‹_›]
      exact below.held lock r holding

theorem set (below : Below holds locks) (lock : Nat) {x y : Option Nat}
    (same : ∀ r, x = some r → y = some r) : Below (holds.set lock x) (locks.set lock y) := by
  constructor
  · simp [below.length]
  · intro i r holding
    rw [content_set] at holding ⊢
    rw [← below.length]
    split at holding
    · rw [if_pos ‹_›]
      exact same r holding
    · rw [if_neg ‹_›]
      exact below.held i r holding

/-- `reset`: the lock holds on. -/
theorem clear (below : Below holds locks) (lock : Nat) : Below (holds.set lock none) locks := by
  constructor
  · simp [below.length]
  · intro i r holding
    rw [content_set] at holding
    split at holding
    · cases holding
    · exact below.held i r holding

end Below

namespace Timed

structure Inv (s : Timed Key) : Prop where
  store : s.store.Inv
  below : Below s.holds s.store.locks

theorem inv_start (clock : Int) : Inv (start clock : Timed Key) :=
  ⟨Store.inv_start, rfl, fun lock r holding => by simp [start, content] at holding⟩

theorem step_eq [DecidableEq Key] {s s' : Timed Key} {now : Int} {a : Action Key}
    (stepped : step s (now, a) = some s') : s.Possible now a ∧ s'.clock = now ∧ s'.holds = s.next a ∧
      (s'.ended = fun r => if some r ∈ s.holds ∧ some r ∉ s.next a then now else s.ended r) ∧
      s.store.step (a.at now) = some s'.store := by
  simp only [step] at stepped
  split at stepped
  · rename_i possible
    obtain ⟨store, performed, rfl⟩ := Option.map_eq_some_iff.mp stepped
    exact ⟨possible, rfl, rfl, rfl, performed⟩
  · cases stepped

theorem step_below [DecidableEq Key] {s : Timed Key} {store : Store Key} {now : Int}
    {a : Action Key} (below : Below s.holds s.store.locks)
    (performed : s.store.step (a.at now) = some store) : Below (s.next a) store.locks := by
  cases a with
  | find cache key =>
      cases performed
      exact below.append fun _ found => found
  | add cache key maxAge =>
      simp only [Action.at, Store.step] at performed
      split at performed
      · cases performed
        exact below.append fun _ new => new
      · cases performed
  | findOrCreate cache key maxAge =>
      simp only [Action.at, Store.step] at performed
      simp only [next]
      split at performed
      · rename_i found
        cases performed
        rw [found]
        exact below.append fun _ same => same
      · rename_i none
        cases performed
        rw [none]
        exact below.append fun _ new => new
  | setMaxAge lock maxAge =>
      simp only [Action.at, Store.step] at performed
      split at performed
      · cases performed
        exact below
      · cases performed
  | copy lock =>
      cases performed
      exact below.append (below.held lock)
  | move lock =>
      cases performed
      exact (below.set lock fun _ none => none).append (below.held lock)
  | assign lock other =>
      cases performed
      exact below.set lock (below.held other)
  | moveAssign lock other =>
      simp only [Action.at, Store.step] at performed
      simp only [next]
      split at performed
      · cases performed
        rw [if_pos ‹_›]
        exact below
      · cases performed
        rw [if_neg ‹_›]
        exact (below.set lock (below.held other)).set other fun _ none => none
  | reset lock t =>
      cases performed
      rw [(Store.reset_locks s.store lock now).2.2.2]
      exact below.clear lock
  | drop lock t =>
      cases performed
      change Below (s.holds.set lock none) ((s.store.reset lock now).locks.set lock none)
      rw [(Store.reset_locks s.store lock now).2.2.2]
      exact below.set lock fun _ none => none
  | garbageCollect force t =>
      cases performed
      exact below

theorem step_inv [DecidableEq Key] {s s' : Timed Key} {event : Int × Action Key} (inv : Inv s)
    (stepped : step s event = some s') : Inv s' := by
  obtain ⟨now, a⟩ := event
  obtain ⟨-, -, holds, -, performed⟩ := step_eq stepped
  constructor
  · exact Store.step_inv _ _ _ inv.store performed
  · rw [holds]
    exact step_below inv.below performed

theorem lawful_iff {s : Timed Key} (inv : Inv s) :
    Lawful s ↔ ∀ r, s.store.Alive r → some r ∉ s.holds → some r ∉ s.store.locks ∧
      ∀ now, s.clock ≤ now →
        ((s.store.data r).expireTime ≤ now ↔ s.ended r + (s.store.data r).maxAge ≤ now) := by
  unfold Lawful
  apply forall_congr'
  intro r
  apply forall_congr'
  intro alive
  apply forall_congr'
  intro _
  simp only [inv.store.alive_garbageCollect, alive, true_and, reduceCtorEq, false_and, or_false,
    forall_const]
  apply and_congr_right
  intro unlocked
  simp only [unlocked, false_or, Int.not_lt]

/-- A resource that nothing held, and nothing would, is not touched by a step that leaves
it so. -/
theorem step_untouched [DecidableEq Key] {s : Timed Key} {store : Store Key} {now : Int}
    {a : Action Key} (inv : s.store.Inv) (performed : s.store.step (a.at now) = some store) {r : Nat}
    (alive : store.Alive r) (unlocked : some r ∉ s.store.locks) (unheld : some r ∉ s.next a) :
    s.store.Alive r ∧ some r ∉ store.locks ∧ store.data r = s.store.data r := by
  have free : ∀ lock, s.store.held lock ≠ some r :=
    fun lock holding => unlocked (Store.held_mem holding)
  -- where the manager and the data stay as they are, only the locks are to be looked at
  have still : store.manager = s.store.manager → some r ∉ store.locks →
      store.data r = s.store.data r →
        s.store.Alive r ∧ some r ∉ store.locks ∧ store.data r = s.store.data r := by
    intro manager absent same
    refine ⟨?_, absent, same⟩
    unfold Store.Alive Store.useCount at alive ⊢
    rw [manager, List.count_eq_zero.mpr absent] at alive
    omega
  have added : ∀ cache key maxAge, r ≠ s.store.added.length →
      store = s.store.add cache key maxAge →
        s.store.Alive r ∧ some r ∉ store.locks ∧ store.data r = s.store.data r := by
    rintro cache key maxAge other rfl
    refine ⟨?_, ?_, ?_⟩
    · rcases (Store.alive_add s.store cache key maxAge r).mp alive with lived | new
      · exact lived
      · exact absurd new other
    · change some r ∉ s.store.locks ++ [some s.store.added.length]
      simp [unlocked, other]
    · exact Function.update_of_ne other _ _
  have touched : ∀ lock, (s.store.reset lock now).data r = s.store.data r := by
    intro lock
    unfold Store.reset
    split
    · rename_i other holding
      have different : r ≠ other := by
        rintro rfl
        exact free lock holding
      exact Function.update_of_ne different _ _
    · rfl
  cases a with
  | find cache key =>
      cases performed
      simp only [next, List.mem_append, List.mem_singleton, not_or] at unheld
      refine still rfl ?_ rfl
      simp [Store.lock, unlocked, unheld.2]
  | add cache key maxAge =>
      simp only [next, List.mem_append, List.mem_singleton, Option.some.injEq, not_or] at unheld
      simp only [Action.at, Store.step] at performed
      split at performed
      · cases performed
        exact added cache key maxAge unheld.2 rfl
      · cases performed
  | findOrCreate cache key maxAge =>
      simp only [next, List.mem_append, List.mem_singleton, Option.some.injEq, not_or] at unheld
      simp only [Action.at, Store.step] at performed
      split at performed
      · rename_i other found
        cases performed
        rw [found] at unheld
        refine still rfl ?_ rfl
        simpa [Store.lock, unlocked] using unheld.2
      · rename_i none
        cases performed
        rw [none] at unheld
        exact added cache key maxAge unheld.2 rfl
  | setMaxAge lock maxAge =>
      simp only [Action.at, Store.step] at performed
      split at performed
      · rename_i other holding
        cases performed
        have different : r ≠ other := by
          rintro rfl
          exact free lock holding
        exact still rfl unlocked (Function.update_of_ne different _ _)
      · cases performed
  | copy lock =>
      cases performed
      refine still rfl ?_ rfl
      simpa [Store.lock, unlocked] using (free lock).symm
  | move lock =>
      cases performed
      refine still rfl ?_ rfl
      intro member
      rcases List.mem_append.mp member with before | last
      · rcases Store.mem_set_locks before with before | none
        · exact unlocked before
        · cases none
      · exact free lock (List.mem_singleton.mp last).symm
  | assign lock other =>
      cases performed
      refine still rfl ?_ rfl
      intro member
      rcases Store.mem_set_locks member with before | holding
      · exact unlocked before
      · exact free other holding
  | moveAssign lock other =>
      simp only [Action.at, Store.step] at performed
      split at performed
      · cases performed
        exact still rfl unlocked rfl
      · cases performed
        refine still rfl ?_ rfl
        intro member
        rcases Store.mem_set_locks member with before | none
        · rcases Store.mem_set_locks before with before | holding
          · exact unlocked before
          · exact free other holding
        · cases none
  | reset lock t =>
      cases performed
      obtain ⟨manager, -, -, locks⟩ := Store.reset_locks s.store lock now
      exact still manager (by rwa [locks]) (touched lock)
  | drop lock t =>
      cases performed
      obtain ⟨manager, -, -, locks⟩ := Store.reset_locks s.store lock now
      refine still manager ?_ (touched lock)
      intro member
      rcases Store.mem_set_locks member with before | none
      · exact unlocked (locks ▸ before)
      · cases none
  | garbageCollect force t =>
      cases performed
      exact ⟨((inv.alive_garbageCollect force now r).mp alive).1, unlocked, rfl⟩

/-- What ends the last lock on a resource: it is emptied or overwritten. -/
theorem Ends.cases [DecidableEq Key] {s : Timed Key} {a : Action Key} {r : Nat} (ends : s.Ends a r)
    (made : ∀ lock ∈ a.names, lock < s.holds.length) :
    ∃ lock, content s.holds lock = some r ∧
      ((∃ t, a = .reset lock t) ∨ (∃ t, a = .drop lock t) ∨
        ∃ other, other ≠ lock ∧ content s.holds other ≠ some r ∧
          (a = .assign lock other ∨ a = .moveAssign lock other)) := by
  obtain ⟨holding, free⟩ := ends
  obtain ⟨lock, held⟩ := mem_iff_content.mp holding
  have inside := lt_of_content held
  simp only [mem_iff_content, not_exists] at free
  -- what a list with more locks or with another lock set still holds
  have appended : ∀ x, s.next a = s.holds ++ [x] → False := by
    intro x same
    apply free lock
    rw [same, content_append, if_neg (Nat.ne_of_lt inside), held]
  have unset : ∀ lock' x, s.next a = s.holds.set lock' x → lock' = lock := by
    intro lock' x same
    by_contra other
    apply free lock
    rw [same, content_set, if_neg fun both => other both.1.symm, held]
  cases a with
  | find | add | findOrCreate | copy => exact (appended _ rfl).elim
  | setMaxAge | garbageCollect => exact absurd held (free lock)
  | move lock' =>
      exfalso
      by_cases same : lock' = lock
      · subst same
        apply free s.holds.length
        rw [next, content_append, List.length_set, if_pos rfl, held]
      · apply free lock
        rw [next, content_append, List.length_set, if_neg (Nat.ne_of_lt inside), content_set,
          if_neg fun both => same both.1.symm, held]
  | assign lock' other =>
      obtain rfl := unset _ _ rfl
      have taken := free lock'
      rw [next, content_set, if_pos ⟨rfl, inside⟩] at taken
      refine ⟨lock', held, .inr (.inr ⟨other, ?_, taken, .inl rfl⟩)⟩
      rintro rfl
      exact taken held
  | moveAssign lock' other =>
      simp only [next] at free
      split at free
      · exact absurd held (free lock)
      · rename_i different
        have exists' : lock' < s.holds.length := made lock' (by simp [Action.names])
        have moved := free lock'
        rw [content_set, if_neg fun both => different both.1, content_set,
          if_pos ⟨rfl, exists'⟩] at moved
        have same : lock = lock' := by
          by_contra differs
          apply free lock
          have apart : lock ≠ other := by
            rintro rfl
            exact moved held
          rw [content_set, if_neg fun both => apart both.1, content_set,
            if_neg fun both => differs both.1, held]
        subst same
        exact ⟨lock, held, .inr (.inr ⟨other, Ne.symm different, moved, .inr rfl⟩)⟩
  | reset lock' t =>
      obtain rfl := unset _ _ rfl
      exact ⟨lock', held, .inl ⟨t, rfl⟩⟩
  | drop lock' t =>
      obtain rfl := unset _ _ rfl
      exact ⟨lock', held, .inr (.inl ⟨t, rfl⟩)⟩

/-- Which readings a touch would make no difference to. -/
theorem upToDate_iff {s : Timed Key} {now : Int} {r : Nat} : s.UpToDate now r ↔
    ∀ later, now ≤ later →
      ((s.store.data r).expireTime ≤ later ↔ now + (s.store.data r).maxAge ≤ later) := by
  unfold UpToDate
  constructor
  · intro same later after
    omega
  · intro same
    have here := same (max (s.store.data r).expireTime now) (Int.le_max_right _ _)
    have there := same (max (now + (s.store.data r).maxAge) now) (Int.le_max_right _ _)
    omega

/-- A step ends the last lock on a resource lawfully exactly if it frees it. -/
theorem step_ends [DecidableEq Key] {s : Timed Key} {store : Store Key} {now : Int}
    {a : Action Key} (inv : Inv s) (possible : s.Possible now a)
    (performed : s.store.step (a.at now) = some store) {r : Nat} (ends : s.Ends a r) :
    store.Alive r ∧
      ((some r ∉ store.locks ∧ ∀ later, now ≤ later →
        ((store.data r).expireTime ≤ later ↔ now + (store.data r).maxAge ≤ later)) ↔
      s.Frees now r a) := by
  obtain ⟨lock, held, ended⟩ := ends.cases (inv.below.length ▸ possible.2)
  have locked := inv.below.held lock r held
  have alive : some r ∈ s.store.manager := inv.store.locked r (mem_iff_content.mpr ⟨lock, locked⟩)
  have lives : ∀ store : Store Key, store.manager = s.store.manager → store.Alive r := by
    intro store same
    unfold Store.Alive Store.useCount
    rw [same]
    have := List.count_pos_iff.mpr alive
    omega
  have inside := lt_of_content locked
  rcases ended with ⟨t, rfl⟩ | ⟨t, rfl⟩ | ⟨other, apart, -, rfl | rfl⟩
  · -- `reset`: the lock holds on
    cases performed
    obtain ⟨manager, -, -, locks⟩ := Store.reset_locks s.store lock now
    constructor
    · exact lives _ manager
    · simp only [locks, mem_iff_content.mpr ⟨lock, locked⟩, not_true_eq_false, false_and, Frees]
  · cases performed
    obtain ⟨manager, -, -, locks⟩ := Store.reset_locks s.store lock now
    constructor
    · exact lives _ manager
    · have touched : ((s.store.reset lock now).setLock lock none).data r =
          { s.store.data r with expireTime := now + (s.store.data r).maxAge } := by
        change (s.store.reset lock now).data r = _
        rw [Store.reset, show s.store.held lock = some r from locked]
        exact Function.update_self ..
      have absent : some r ∉ s.store.locks.set lock none ↔ s.Alone lock r :=
        not_mem_set inside (by simp)
      rw [touched, Frees, ← absent]
      change some r ∉ (s.store.reset lock now).locks.set lock none ∧ _ ↔ _
      rw [locks]
      simp
  · cases performed
    constructor
    · exact lives _ rfl
    · rw [Frees, upToDate_iff]
      apply and_congr_left
      intro _
      change some r ∉ s.store.locks.set lock (content s.store.locks other) ↔ _
      by_cases taken : content s.store.locks other = some r
      · rw [taken]
        refine iff_of_false (fun absent => absent ?_) fun alone => alone other apart taken
        exact List.mem_iff_getElem?.mpr ⟨lock, by simp [inside]⟩
      · exact not_mem_set inside taken
  · simp only [Action.at, Store.step, if_neg apart.symm, Option.some.injEq] at performed
    subst performed
    refine ⟨lives _ rfl, ?_⟩
    rw [Frees, upToDate_iff]
    apply and_congr_left
    intro _
    change some r ∉ (s.store.locks.set lock (content s.store.locks other)).set other none ↔ _
    by_cases taken : content s.store.locks other = some r
    · refine iff_of_false (fun absent => absent ?_) fun alone => alone other apart taken
      rw [mem_iff_content]
      refine ⟨lock, ?_⟩
      rw [content_set, if_neg fun both => apart both.1.symm, content_set, if_pos ⟨rfl, inside⟩, taken]
    · rw [Alone, ← not_mem_set inside taken]
      simp only [mem_iff_content, not_exists]
      apply forall_congr'
      intro i
      rw [content_set]
      split
      · rename_i here
        obtain ⟨rfl, -⟩ := here
        rw [content_set, if_neg fun both => apart both.1]
        exact iff_of_true (by simp) taken
      · rfl

theorem step_lawful [DecidableEq Key] {s s' : Timed Key} {event : Int × Action Key} (inv : Inv s)
    (lawful : Lawful s) (stepped : step s event = some s') : Lawful s' ↔ Releases s event := by
  have inv' := step_inv inv stepped
  obtain ⟨now, a⟩ := event
  obtain ⟨possible, clock, holds, ended, performed⟩ := step_eq stepped
  rw [lawful_iff inv] at lawful
  rw [lawful_iff inv', Releases]
  simp only [possible, forall_const, clock, holds, ended]
  constructor
  · intro lawful' r ends
    obtain ⟨alive, iff⟩ := step_ends inv possible performed ends
    have law := lawful' r alive ends.2
    rw [if_pos ⟨ends.1, ends.2⟩] at law
    exact iff.mp law
  · intro releases r alive unheld
    by_cases holding : some r ∈ s.holds
    · obtain ⟨-, iff⟩ := step_ends inv possible performed ⟨holding, unheld⟩
      rw [if_pos ⟨holding, unheld⟩]
      exact iff.mpr (releases r ⟨holding, unheld⟩)
    · rw [if_neg fun ends => holding ends.1]
      have unlocked : some r ∉ s.store.locks := by
        intro locked
        have lived : s.store.Alive r :=
          Nat.add_pos_iff_pos_or_pos.mpr (.inr (List.count_pos_iff.mpr locked))
        exact (lawful r lived holding).1 locked
      obtain ⟨lived, absent, same⟩ := step_untouched inv.store performed alive unlocked unheld
      rw [same]
      refine ⟨absent, fun t after => (lawful r lived holding).2 t ?_⟩
      exact Int.le_trans possible.1 after

/-- **The release law.** It holds all along a run exactly if the last lock on a resource
is destroyed every time, or overwritten when a touch would make no difference, and no
lock that was reset still holds the resource. -/
theorem lawful_iff_releases [DecidableEq Key] (clock : Int) (events : List (Int × Action Key)) :
    (∀ before after s, before ++ after = events → run step (start clock) before = some s →
      Lawful s) ↔ Meets step Releases (start clock) events := by
  refine System.holds_iff_meets (inv_start clock) ?_ (fun _ _ _ inv _ stepped => step_inv inv stepped)
    (fun _ _ _ inv lawful stepped => step_lawful inv lawful stepped)
    (fun s event inv unlawful => ?_) events
  · intro r alive
    simp [start, Store.start, Store.Alive, Store.useCount] at alive
  · obtain ⟨now, a⟩ := event
    simp only [Releases, Classical.not_imp, not_forall] at unlawful
    obtain ⟨possible, r, ends, -⟩ := unlawful
    obtain ⟨lock, -, ended⟩ := ends.cases (inv.below.length ▸ possible.2)
    obtain ⟨store, performed⟩ : ∃ store, s.store.step (a.at now) = some store := by
      rcases ended with ⟨t, rfl⟩ | ⟨t, rfl⟩ | ⟨other, apart, -, rfl | rfl⟩
      · exact ⟨_, rfl⟩
      · exact ⟨_, rfl⟩
      · exact ⟨_, rfl⟩
      · exact ⟨_, if_neg apart.symm⟩
    simp only [step, if_pos possible, performed]
    exact ⟨_, rfl⟩

/-- `reset` gives nothing up. -/
theorem not_lawful_reset : ¬ ∀ (events : List (Int × Action Nat)) (s : Timed Nat),
    run step (start 0) events = some s → Lawful s := by
  intro always
  have lawful := always [(0, .add 0 7 10), (1, .reset 0 0)] _ rfl 0 (by decide) (by decide)
  exact lawful.1 0 (by decide)

end Timed

end AlpacaCore.Resource
