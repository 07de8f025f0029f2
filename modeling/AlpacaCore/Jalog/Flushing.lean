import AlpacaCore.Jalog.Arrival
import Mathlib.Algebra.BigOperators.Group.Finset.Basic

/-!
`Logger::flush` with an asynchronous logging among the sinks, and the end of the instance.

A flush has the mutex of the logger while it waits for the thread of the asynchronous logging. It
returns as long as there is the thread; all that had come to the asynchronous logging before is
recorded by then. Once the instance is destroyed there is no thread any more, and the logger still
has the sink.
-/

namespace AlpacaCore.Jalog

open AlpacaCore.System (Reachable Inevitable run under pick)
open Function (update update_self update_of_ne)

/-! ### What only grows -/

theorem Sinks.execute_grows {x x' : Sinks} {buffer : List UInt8} {task : Task}
    (executed : x.execute buffer task = some x') : x.recorded <+: x'.recorded := by
  cases task with
  | logEntry le =>
      obtain ⟨text, -, rfl⟩ := Option.map_eq_some_iff.mp executed
      exact List.prefix_append _ _
  | addSink sink =>
      cases executed
      exact List.prefix_refl _
  | removeSink sink =>
      cases executed
      exact List.prefix_refl _
  | synchronize promise =>
      cases executed
      exact List.prefix_refl _

/-- What has been done of the sinks is changed by the thread alone, and only while it is there. -/
theorem AsyncLogging.step_sinks {s s' : AsyncLogging} {a : AsyncLogging.Action} (stepped : s.step a = some s') :
    s.sinks.recorded <+: s'.sinks.recorded ∧
      (s.worker = .ended → s'.worker = .ended ∧ s'.sinks = s.sinks) := by
  have kept : s.sinks.recorded <+: s.sinks.recorded := List.prefix_refl _
  have notified : s.notifyOne.sinks = s.sinks ∧ (s.worker = .ended → s.notifyOne.worker = .ended) := by
    rw [notifyOne_eq]
    exact ⟨rfl, fun ended => Worker.woken_ended.mpr ended⟩
  cases a with
  | record e =>
      cases stepped
      exact ⟨kept, fun ended => ⟨ended, rfl⟩⟩
  | add sink =>
      cases stepped
      exact ⟨kept, fun ended => ⟨ended, rfl⟩⟩
  | remove sink =>
      cases stepped
      exact ⟨kept, fun ended => ⟨ended, rfl⟩⟩
  | flush =>
      cases stepped
      exact ⟨kept, fun ended => ⟨ended, rfl⟩⟩
  | notify =>
      simp only [step] at stepped
      split at stepped
      · cases stepped
      · cases stepped
        exact ⟨notified.1 ▸ kept, fun ended => ⟨notified.2 ended, notified.1⟩⟩
  | destroy =>
      simp only [step, destroy] at stepped
      split at stepped
      · cases stepped
        exact ⟨kept, fun ended => ⟨ended, rfl⟩⟩
      · cases stepped
        exact ⟨kept, fun ended => ⟨ended, rfl⟩⟩
      · cases stepped
        exact ⟨notified.1 ▸ kept, fun ended => ⟨notified.2 ended, notified.1⟩⟩
      · split at stepped
        · cases stepped
          exact ⟨kept, fun ended => ⟨ended, rfl⟩⟩
        · cases stepped
      · cases stepped
  | work =>
      simp only [step, work] at stepped
      split at stepped
      · rename_i tests
        cases stepped
        exact ⟨kept, fun ended => by cases tests.symm.trans ended⟩
      · rename_i looks
        split at stepped
        · cases stepped
          exact ⟨kept, fun ended => by cases looks.symm.trans ended⟩
        · cases stepped
          exact ⟨kept, fun ended => by cases looks.symm.trans ended⟩
      · cases stepped
      · rename_i next last executes
        unfold execute at stepped
        split at stepped
        · obtain ⟨sinks, executed, rfl⟩ := Option.map_eq_some_iff.mp stepped
          exact ⟨Sinks.execute_grows executed, fun ended => by cases executes.symm.trans ended⟩
        · cases stepped
          exact ⟨kept, fun ended => by cases executes.symm.trans ended⟩
      · rename_i finalizes
        cases stepped
        exact ⟨kept, fun ended => by cases finalizes.symm.trans ended⟩
      · cases stepped
  | wake =>
      simp only [step] at stepped
      split at stepped
      · rename_i sleeps
        cases stepped
        exact ⟨kept, fun ended => by cases sleeps.symm.trans ended⟩
      · cases stepped

namespace Instance

variable {k : Nat} {s s' : Instance} {a : Action}

/-- The asynchronous logging does what it does by itself, or nothing. -/
theorem Change.component (changed : Change s a s') (fits : s.Fits a) {l : AsyncLogging}
    (there : s.asyncLogging = some l) :
    ∃ l', s'.asyncLogging = some l' ∧ (l' = l ∨ ∃ b, l.Fits b ∧ l.step b = some l') := by
  cases changed with
  | called => exact ⟨l, there, .inl rfl⟩
  | nothing => exact ⟨l, there, .inl rfl⟩
  | began none => cases there.symm.trans none
  | added none => cases there.symm.trans none
  | @went _ b l₀ l' inner found stepped =>
      cases there.symm.trans found
      have fitting : l.Fits b := by
        cases b with
        | record e => exact absurd rfl (Action.inner_ne_record inner e)
        | _ => trivial
      exact ⟨l', rfl, .inr ⟨b, fitting, stepped⟩⟩
  | returned => exact ⟨l, there, .inl rfl⟩
  | made here performed =>
      cases performed with
      | plain => exact ⟨l, there, .inl rfl⟩
      | @record _ l' e found stepped =>
          cases there.symm.trans found
          have fitting : l.Fits (.record e) := by
            apply fits _ l there
            rw [here]
            rfl
          exact ⟨l', rfl, .inr ⟨_, fitting, stepped⟩⟩
      | @flush _ l' found stepped =>
          cases there.symm.trans found
          exact ⟨l', rfl, .inr ⟨.flush, trivial, stepped⟩⟩

/-- A run of the instance is one of its asynchronous logging. -/
theorem component_of_reachable {guard : Instance → Action → Prop} {s₁ : Instance} {l₁ : AsyncLogging}
    (fits : ∀ s a, guard s a → s.Fits a) (there : s₁.asyncLogging = some l₁) (later : Reachable step guard s₁ s) :
    ∃ l, s.asyncLogging = some l ∧ Reachable AsyncLogging.step AsyncLogging.Fits l₁ l := by
  induction later with
  | start => exact ⟨l₁, there, .start⟩
  | next _ met stepped ih =>
      obtain ⟨l, found, reached⟩ := ih
      obtain ⟨l', found', rfl | ⟨b, fitting, went⟩⟩ := (change_of_step stepped).component (fits _ _ met) found
      · exact ⟨l', found', reached⟩
      · exact ⟨l', found', reached.next fitting went⟩

theorem Change.behind_grows (changed : Change s a s') (fits : s.Fits a) (k : Nat) : s.behind k <+: s'.behind k := by
  cases there : s.asyncLogging with
  | none =>
      rw [behind, there]
      exact List.nil_prefix
  | some l =>
      obtain ⟨l', there', rfl | ⟨b, -, went⟩⟩ := changed.component fits there
      · have same : s.behind k = s'.behind k := by rw [behind, behind, there, there']
        exact same ▸ List.prefix_refl _
      · rw [behind, behind, there, there']
        exact System.under_mono k (AsyncLogging.step_sinks went).1

theorem Change.received_grows (changed : Change s a s') (sink : Nat) : s.received sink <+: s'.received sink := by
  cases changed with
  | @made caller c =>
      show s.received sink <+: pick (Call.entryFor sink) (s.made ++ [(caller, c)])
      rw [System.pick_append]
      exact List.prefix_append _ _
  | _ => exact List.prefix_refl _

/-! ### What a flush waits for -/

/-- Where the flush of this thread is, before which these entries had come. -/
inductive Flushes (k t : Nat) (entries : List Entry) (s : Instance) : Prop where
  /-- It is still to call the asynchronous logging. -/
  | comes : s.mutex = some t → .flush asyncSink ∈ (s.callers t).calls →
      entries <+: (s.received asyncSink).map Prod.snd → Flushes k t entries s
  /-- It waits for the promise that it has made. -/
  | waits {l₁ l₂ l : AsyncLogging} : s.mutex = some t → (s.callers t).waits = some l₁.promises →
      Reachable AsyncLogging.step AsyncLogging.Fits .start l₁ → l₁.step .flush = some l₂ →
      s.asyncLogging = some l → Reachable AsyncLogging.step AsyncLogging.Fits l₂ l →
      entries <+: recordsOf l₁.accepted → Flushes k t entries s
  | done : entries <+: s.behind k → Flushes k t entries s

theorem mutex_leave_of_ne (s : Instance) {caller : Nat} {next : Caller} (more : next ≠ .idle) :
    (s.leave caller next).mutex = s.mutex :=
  if_neg fun last => more last.1

/-- The thread that has the mutex is not disturbed by others. -/
theorem Change.undisturbed (changed : Change s a s') {t : Nat} (locked : s.mutex = some t)
    (busy : s.callers t ≠ .idle) (other : a ≠ .goOn t) : s'.mutex = some t ∧ s'.callers t = s.callers t := by
  have leaves : ∀ {x : Instance} {caller : Nat} {next : Caller}, x.mutex = some t → x.callers t = s.callers t →
      a = .goOn caller → (x.leave caller next).mutex = some t ∧ (x.leave caller next).callers t = s.callers t := by
    intro x caller next mutex same goesOn
    have elsewhere : t ≠ caller := by
      rintro rfl
      exact other goesOn
    constructor
    · have notHis : ¬(next = .idle ∧ x.mutex = some caller) := by
        rw [mutex]
        rintro ⟨-, his⟩
        exact elsewhere (Option.some.inj his)
      exact (if_neg notHis).trans mutex
    · rw [callers_leave_of_ne _ elsewhere, same]
  cases changed with
  | @called caller a _ idle free =>
      have elsewhere : t ≠ caller := by
        rintro rfl
        exact busy idle
      constructor
      · have notLocks : ¬ a.locks := by
          intro locks
          cases locked.symm.trans (free locks)
        exact (if_neg fun locks => notLocks locks.1).trans locked
      · exact update_of_ne elsewhere ..
  | nothing => exact ⟨locked, rfl⟩
  | began _ free => cases locked.symm.trans free
  | added _ free => cases locked.symm.trans free
  | went => exact ⟨locked, rfl⟩
  | returned => exact leaves locked rfl rfl
  | made => exact leaves locked rfl rfl

/-- Once its promise is set, what had come before has been recorded. -/
theorem Has.recorded_of_flush {entries : List Entry} {l₁ l₂ l : AsyncLogging} (has : Has k s)
    (before : Reachable AsyncLogging.step AsyncLogging.Fits .start l₁) (flushes : l₁.step .flush = some l₂)
    (there : s.asyncLogging = some l) (later : Reachable AsyncLogging.step AsyncLogging.Fits l₂ l)
    (come : entries <+: recordsOf l₁.accepted) (returns : l₁.promises ∈ l.sinks.promises) : entries <+: s.behind k := by
  obtain ⟨done, replayed, included, initial⟩ := done_of_flush before flushes later returns
  rw [has.behind_eq there initial replayed]
  exact come.trans (recordsOf_mono included)

/-- A thread that is to call the asynchronous logging in a flush has still to do so, or waits. -/
theorem Change.flush_comes (changed : Change s a s') {t : Nat} (locked : s.mutex = some t)
    (queued : .flush asyncSink ∈ (s.callers t).calls) :
    s'.mutex = some t ∧ (.flush asyncSink ∈ (s'.callers t).calls ∨
      ∃ l l', s.asyncLogging = some l ∧ l.step .flush = some l' ∧ s'.asyncLogging = some l' ∧
        (s'.callers t).waits = some l.promises) := by
  by_cases his : a = .goOn t
  · subst his
    cases changed with
    | went inner => cases inner
    | @returned _ promise calls here =>
        rw [here] at queued
        have more : (⟨calls, none⟩ : Caller) ≠ .idle := by
          rintro ⟨⟩
          cases queued
        rw [mutex_leave_of_ne s more, callers_leave_self]
        exact ⟨locked, .inl queued⟩
    | @made _ c calls _ waits here performed =>
        rw [here] at queued
        have more : (⟨calls, waits⟩ : Caller) ≠ .idle := by
          rintro ⟨⟩
          rcases List.mem_cons.mp queued with rfl | later
          · cases performed with
            | plain other => exact other rfl
          · cases later
        rw [mutex_leave_of_ne _ more, callers_leave_self]
        rcases List.mem_cons.mp queued with rfl | later
        · cases performed with
          | plain other => exact absurd rfl other
          | @flush l l' there stepped => exact ⟨locked, .inr ⟨l, l', there, stepped, rfl, rfl⟩⟩
        · exact ⟨locked, .inl later⟩
  · have busy : s.callers t ≠ .idle := by
      intro idle
      rw [idle] at queued
      cases queued
    obtain ⟨locked', same⟩ := changed.undisturbed locked busy his
    exact ⟨locked', .inl (same ▸ queued)⟩

/-- A thread that waits goes on waiting, unless its promise is set. -/
theorem Change.flush_waits (changed : Change s a s') {t promise : Nat} (locked : s.mutex = some t)
    (waits : (s.callers t).waits = some promise) :
    s.returns promise ∨ s'.mutex = some t ∧ (s'.callers t).waits = some promise := by
  by_cases his : a = .goOn t
  · left
    subst his
    cases changed with
    | went inner => cases inner
    | returned here set =>
        rw [here] at waits
        cases waits
        exact set
    | made here =>
        rw [here] at waits
        cases waits
  · have busy : s.callers t ≠ .idle := by
      intro idle
      rw [idle] at waits
      cases waits
    obtain ⟨locked', same⟩ := changed.undisturbed locked busy his
    exact .inr ⟨locked', same ▸ waits⟩

theorem Flushes.change {t : Nat} {entries : List Entry} (flushes : Flushes k t entries s) (inv : Inv s) (has : Has k s)
    (fits : s.Fits a) (changed : Change s a s') : Flushes k t entries s' := by
  cases flushes with
  | comes locked queued come =>
      obtain ⟨locked', queued' | ⟨l, l', there, stepped, there', waits⟩⟩ := changed.flush_comes locked queued
      · exact .comes locked' queued' (come.trans ((changed.received_grows asyncSink).map Prod.snd))
      · exact .waits locked' waits (inv.component l there) stepped there' .start (inv.accepted l there ▸ come)
  | waits locked waits before flushed there later come =>
      rcases changed.flush_waits locked waits with set | ⟨locked', waits'⟩
      · rw [returns, there] at set
        have recorded := has.recorded_of_flush before flushed there later come (by simpa using set)
        exact .done (recorded.trans (changed.behind_grows fits k))
      · obtain ⟨l', there', rfl | ⟨b, fitting, went⟩⟩ := changed.component fits there
        · exact .waits locked' waits' before flushed there' later come
        · exact .waits locked' waits' before flushed there' (later.next fitting went) come
  | done recorded => exact .done (recorded.trans (changed.behind_grows fits k))

/-- The thread that flushes has the mutex, and is to call the asynchronous logging. -/
theorem Inv.flush_begins (inv : Inv s) {t : Nat} (flushes : s.step (.call t .flush) = some s')
    (late : s.logging.logger.initialized = true) (heard : asyncSink ∈ s.logging.logger.sinks) :
    s'.mutex = some t ∧ .flush asyncSink ∈ (s'.callers t).calls ∧ s'.asyncLogging = s.asyncLogging := by
  have changed := change_of_step flushes
  obtain ⟨b, stands⟩ := inv.stands
  cases changed with
  | @called _ _ logging idle free foreign stepped =>
      have fresh : logging.calls.drop s.logging.calls.length = s.logging.issued .flush := by
        rw [stands.issued stepped, List.drop_left]
      have member : .flush asyncSink ∈ s.logging.issued .flush := by
        rw [Logging.issued, if_pos late]
        exact List.mem_map_of_mem heard
      have caller : (s.called t .flush logging).callers t = ⟨s.logging.issued .flush, none⟩ := by
        rw [← fresh]
        exact update_self ..
      constructor
      · apply if_pos
        rw [fresh]
        exact ⟨rfl, List.ne_nil_of_mem member⟩
      · rw [caller]
        exact ⟨member, rfl⟩
  | went inner => cases inner

/-- What is kept while a flush is followed. -/
structure Followed (k t : Nat) (entries : List Entry) (s : Instance) : Prop where
  inv : Inv s
  has : Has k s
  flushes : Flushes k t entries s

theorem Followed.change {t : Nat} {entries : List Entry} (followed : Followed k t entries s) (leaves : Leaves k s a)
    (changed : Change s a s') : Followed k t entries s' :=
  ⟨followed.inv.change leaves.1 changed, followed.has.change leaves changed,
    followed.flushes.change followed.inv followed.has leaves.1 changed⟩

/-- What had been logged in the first of these states the sink has recorded in the second. -/
structure Caught (k : Nat) (s₁ s : Instance) : Prop where
  come : (s₁.received asyncSink).map Prod.snd <+: s.behind k
  /-- The entries of a thread whose calls had returned, in the order in which it logged them. -/
  returned : ∀ t, (s₁.callers t).calls = [] → (under t s₁.logged).Sublist (s.behind k)

theorem caught {s₁ : Instance} (inv : Inv s₁) (has : Has k s₁)
    (come : (s₁.received asyncSink).map Prod.snd <+: s.behind k) : Caught k s₁ s := by
  constructor
  · exact come
  · intro t nothing
    have arrived := inv.delivered asyncSink has.1 t
    rw [Caller.entriesFor, nothing, List.filterMap_nil, List.append_nil] at arrived
    rw [arrived]
    exact (System.under_sublist t _).trans come.sublist

/-- **A flush of the logger waits for all that was logged before it.** When it has returned, a sink
behind the asynchronous logging has recorded it. -/
theorem flush_records {s₀ s₁ s₂ : Instance} (t : Nat) (setUp : SetUp k s₀)
    (before : Reachable step (Leaves k) s₀ s₁) (flushes : s₁.step (.call t .flush) = some s₂)
    (later : Reachable step (Leaves k) s₂ s) (returned : s.mutex ≠ some t) : Caught k s₁ s := by
  have inv := setUp.inv_later before
  have has := setUp.has.reachable before
  have leaves : Leaves k s₁ (.call t .flush) := ⟨trivial, rfl⟩
  have changed := change_of_step flushes
  have begun : Flushes k t ((s₁.received asyncSink).map Prod.snd) s₂ := by
    cases late : s₁.logging.logger.initialized with
    | false =>
        apply Flushes.done
        rw [received, (inv.early late).2.1]
        exact List.nil_prefix
    | true =>
        have heard : asyncSink ∈ s₁.logging.logger.sinks :=
          List.count_pos_iff.mp (by rw [has.1]; exact Nat.one_pos)
        obtain ⟨locked, queued, -⟩ := inv.flush_begins flushes late heard
        exact .comes locked queued ((changed.received_grows asyncSink).map Prod.snd)
  have followed : Followed k t ((s₁.received asyncSink).map Prod.snd) s :=
    later.invariant ⟨inv.change leaves.1 changed, has.change leaves changed, begun⟩
      fun _ _ _ held leaves stepped => held.change leaves (change_of_step stepped)
  apply caught inv has
  cases followed.flushes with
  | comes locked => exact absurd locked returned
  | waits locked => exact absurd locked returned
  | done recorded => exact recorded

/-- Another thread logs while the flush waits. -/
theorem flush_records_waiting :
    ∃ s₀ s₁ s₂ s, run step start [.async, .add 7] = some s₀ ∧
      run step s₀ [.call 1 .initializeLogger, .call 1 (.construct 3 [97] 1 0),
        .call 1 (.addEntry 3 .info [104] 5), .goOn 1] = some s₁ ∧
      s₁.step (.call 2 .flush) = some s₂ ∧
      run step s₂ [.goOn 2, .call 1 (.addEntry 3 .info [105] 6), .background .work, .background .work,
        .goOn 1, .background .work, .background .work, .background .work, .goOn 2] = some s ∧
      Caught 7 s₁ s :=
  ⟨_, _, _, _, rfl, rfl, rfl, rfl, flush_records 2
    ⟨System.reachable_of_meets [.async, .add 7] (by decide) rfl, rfl, _, rfl, rfl⟩
    (System.reachable_of_meets [.call 1 .initializeLogger, .call 1 (.construct 3 [97] 1 0),
      .call 1 (.addEntry 3 .info [104] 5), .goOn 1] (by decide) rfl) rfl
    (System.reachable_of_meets [.goOn 2, .call 1 (.addEntry 3 .info [105] 6), .background .work,
      .background .work, .goOn 1, .background .work, .background .work, .background .work, .goOn 2]
      (by decide) rfl) (by decide)⟩

/-! ### The end of the instance -/

/-- **`~Instance` waits for all that was logged before it.** -/
theorem join_records {s₀ s₁ : Instance} {l₁ l : AsyncLogging} (setUp : SetUp k s₀)
    (before : Reachable step (Leaves k) s₀ s₁) (there : s₁.asyncLogging = some l₁) (alive : l₁.destructor = .alive)
    (later : Reachable step (Leaves k) s₁ s) (found : s.asyncLogging = some l) (joined : l.destructor = .joined) :
    Caught k s₁ s := by
  have inv := setUp.inv_later before
  have has := setUp.has.reachable before
  obtain ⟨l', found', reached⟩ := component_of_reachable (fun _ _ leaves => leaves.1) there later
  cases found.symm.trans found'
  obtain ⟨done, replayed, included, initial⟩ := done_of_join (inv.component l₁ there) alive reached joined
  apply caught inv has
  rw [(has.reachable later).behind_eq found initial replayed, ← inv.accepted l₁ there]
  exact recordsOf_mono included

/-- The thread of the asynchronous logging sleeps when the entry comes and the instance is destroyed. -/
theorem join_records_sleeping :
    ∃ s₀ s₁ s, run step start [.async, .add 7] = some s₀ ∧
      run step s₀ [.call 1 .initializeLogger, .call 1 (.construct 3 [97] 1 0), .background .work,
        .background .work, .background .work, .background .work, .background .work, .background .work,
        .call 1 (.addEntry 3 .info [104] 5), .goOn 1] = some s₁ ∧
      run step s₁ [.background .destroy, .background .destroy, .background .destroy, .background .work,
        .background .work, .background .work, .background .work, .background .work, .background .work,
        .background .work, .background .destroy] = some s ∧
      Caught 7 s₁ s :=
  ⟨_, _, _, rfl, rfl, rfl, join_records
    ⟨System.reachable_of_meets [.async, .add 7] (by decide) rfl, rfl, _, rfl, rfl⟩
    (System.reachable_of_meets [.call 1 .initializeLogger, .call 1 (.construct 3 [97] 1 0), .background .work,
      .background .work, .background .work, .background .work, .background .work, .background .work,
      .call 1 (.addEntry 3 .info [104] 5), .goOn 1] (by decide) rfl) rfl rfl
    (System.reachable_of_meets [.background .destroy, .background .destroy, .background .destroy,
      .background .work, .background .work, .background .work, .background .work, .background .work,
      .background .work, .background .work, .background .destroy] (by decide) rfl) rfl rfl⟩

/-- The thread flushes though the thread of the asynchronous logging has ended, with the sinks left so. -/
structure Hangs (t : Nat) (x : Sinks) (s : Instance) : Prop where
  inv : Inv s
  ended : ∃ l, s.asyncLogging = some l ∧ l.worker = .ended ∧ l.sinks = x
  locked : s.mutex = some t
  stuck : .flush asyncSink ∈ (s.callers t).calls ∨ ∃ promise, (s.callers t).waits = some promise ∧ promise ∉ x.promises

/-- A promise that is set was made. -/
theorem promise_lt {l : AsyncLogging} (reached : Reachable AsyncLogging.step AsyncLogging.Fits .start l)
    {promise : Nat} (set : promise ∈ l.sinks.promises) : promise < l.promises := by
  have numbered : Numbered l :=
    reached.invariant (fun _ member => by cases member) fun _ _ _ held _ stepped => held.step stepped
  obtain ⟨done, current, waiting, split, -, -⟩ := accounted_start.reachable reached
  rw [split.sinks, Sinks.promises_replay, mem_promisesOf] at set
  exact numbered promise (split.done_prefix.subset set)

theorem Hangs.change {t : Nat} {x : Sinks} (hangs : Hangs t x s) (fits : s.Fits a) (changed : Change s a s') :
    Hangs t x s' := by
  obtain ⟨l, there, ended, left⟩ := hangs.ended
  have ended' : ∃ l, s'.asyncLogging = some l ∧ l.worker = .ended ∧ l.sinks = x := by
    obtain ⟨l', there', rfl | ⟨b, -, went⟩⟩ := changed.component fits there
    · exact ⟨l', there', ended, left⟩
    · obtain ⟨still, same⟩ := (AsyncLogging.step_sinks went).2 ended
      exact ⟨l', there', still, same.trans left⟩
  have inv' := hangs.inv.change fits changed
  rcases hangs.stuck with queued | ⟨promise, waits, unset⟩
  · obtain ⟨locked', queued' | ⟨l₁, l', there₁, -, -, waits⟩⟩ := changed.flush_comes hangs.locked queued
    · exact ⟨inv', ended', locked', .inl queued'⟩
    · cases there.symm.trans there₁
      have unset : l.promises ∉ x.promises := by
        rw [← left]
        exact fun set => absurd (promise_lt (hangs.inv.component l there) set) (Nat.lt_irrefl _)
      exact ⟨inv', ended', locked', .inr ⟨_, waits, unset⟩⟩
  · rcases changed.flush_waits hangs.locked waits with set | ⟨locked', waits'⟩
    · rw [returns, there, Option.any_some, left] at set
      exact absurd (by simpa using set) unset
    · exact ⟨inv', ended', locked', .inr ⟨promise, waits', unset⟩⟩

/-- **A flush after the end of the instance never returns**, nothing is recorded any more, and as the
mutex stays locked no function that locks it is ever entered again: no scope can be made or destroyed. -/
theorem flush_hangs {s₁ s₂ : Instance} {l₁ : AsyncLogging} (t : Nat) (before : Reachable step Fits start s₁)
    (there : s₁.asyncLogging = some l₁) (joined : l₁.destructor = .joined)
    (late : s₁.logging.logger.initialized = true) (heard : asyncSink ∈ s₁.logging.logger.sinks)
    (flushes : s₁.step (.call t .flush) = some s₂) (later : Reachable step Fits s₂ s) :
    s.mutex = some t ∧ (∀ k, s.behind k = s₁.behind k) ∧ ∀ t' a, a.locks → s.step (.call t' a) = none := by
  have inv := inv_of_reachable inv_start (fun _ _ met => met) before
  have ended := (Control.reachable (inv.component l₁ there)).ended joined
  obtain ⟨locked, queued, same⟩ := inv.flush_begins flushes late heard
  have fits : s₁.Fits (.call t .flush) := trivial
  have begun : Hangs t l₁.sinks s₂ :=
    ⟨inv.change fits (change_of_step flushes), ⟨l₁, same.trans there, ended, rfl⟩, locked, .inl queued⟩
  have hangs : Hangs t l₁.sinks s :=
    later.invariant begun fun _ _ _ held fits stepped => held.change fits (change_of_step stepped)
  obtain ⟨l, found, -, left⟩ := hangs.ended
  refine ⟨hangs.locked, ?_, ?_⟩
  · intro k
    rw [behind, behind, found, there, Option.elim_some, Option.elim_some, left]
  · intro t' a locks
    have taken : ¬(s.callers t' = .idle ∧ (a.locks → s.mutex = none) ∧ a.foreign) := by
      rintro ⟨-, free, -⟩
      cases hangs.locked.symm.trans (free locks)
    exact if_neg taken

/-- The instance is destroyed at once; later another thread still logs. -/
theorem flush_hangs_logging :
    ∃ s₁ s₂ s, run step start [.async, .add 7, .call 1 .initializeLogger, .call 1 (.construct 3 [97] 1 0),
        .background .destroy, .background .destroy, .background .destroy, .background .work, .background .work,
        .background .work, .background .work, .background .work, .background .destroy] = some s₁ ∧
      s₁.step (.call 1 .flush) = some s₂ ∧
      run step s₂ [.goOn 1, .call 2 (.addEntry 3 .info [104] 5), .goOn 2] = some s ∧
      s.mutex = some 1 ∧ (∀ k, s.behind k = s₁.behind k) ∧ ∀ t' a, a.locks → s.step (.call t' a) = none :=
  ⟨_, _, _, rfl, rfl, rfl, flush_hangs 1
    (System.reachable_of_meets [.async, .add 7, .call 1 .initializeLogger, .call 1 (.construct 3 [97] 1 0),
      .background .destroy, .background .destroy, .background .destroy, .background .work, .background .work,
      .background .work, .background .work, .background .work, .background .destroy] (by decide) rfl)
    rfl rfl rfl (by decide) rfl
    (System.reachable_of_meets [.goOn 1, .call 2 (.addEntry 3 .info [104] 5), .goOn 2] (by decide) rfl)⟩

end Instance

end AlpacaCore.Jalog
