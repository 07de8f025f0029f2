import AlpacaCore.Jalog.Flushing

/-!
A flush of the logger returns.

While the instance is there, and nobody calls anything more, what has been begun goes on: the thread
of the asynchronous logging, and the threads that have calls of sinks still to make. Each step of
this leaves less to be done, and the thread that flushes is not left waiting.
-/

namespace AlpacaCore.Jalog

open AlpacaCore.System (Reachable Inevitable run)
open Function (update update_self update_of_ne)

/-- The tasks that are pushed leave more to be done. -/
theorem AsyncLogging.size_pushTask (s : AsyncLogging) (event : Event) (promises : Nat) :
    ({ s.pushTask event with promises } : AsyncLogging).size = s.size + 8 := by
  have longer : (s.impl.pushTask event).taskQueue.length = s.impl.taskQueue.length + 1 := by
    cases event <;> simp [AsyncLoggingImpl.pushTask]
  have kept : (s.impl.pushTask event).executingTasks = s.impl.executingTasks := by cases event <;> rfl
  simp only [size, pushTask, push, remaining, longer, kept]
  omega

namespace Instance

/-- What goes on when nobody calls anything more. -/
def proceed (s : Instance) : Action → Option Instance
  | .goOn caller => if s.Fits (.goOn caller) then s.goOn caller else none
  | .background b => s.asyncLogging.bind fun l => (l.proceed b).map fun l' => { s with asyncLogging := some l' }
  | _ => none

variable {s s' : Instance} {a : Action}

/-- Who has the mutex, and who waits. -/
structure Locked (s : Instance) : Prop where
  waiting : ∀ t promise, (s.callers t).waits = some promise → s.mutex = some t ∧
    ∃ l, s.asyncLogging = some l ∧ .synchronize promise ∈ l.accepted
  flushing : ∀ t, ∀ c ∈ (s.callers t).calls, c.records = false → s.mutex = some t
  holder : ∀ t, s.mutex = some t → s.callers t ≠ .idle ∧ ∀ c ∈ (s.callers t).calls, c.records = false
  /-- There are not infinitely many threads that have something to do. -/
  few : ∃ busy : Finset Nat, ∀ t ∉ busy, s.callers t = .idle

theorem locked_start : Locked start := by
  constructor
  · intro t promise waits
    cases waits
  · intro t c member
    cases member
  · intro t holds
    cases holds
  · exact ⟨∅, fun _ _ => rfl⟩

/-- A function that locks the mutex has calls of `flush` to make, and others have calls of `record`. -/
theorem records_of_issued {s : Logging} {a : Jalog.Action} {c : Call} (issued : c ∈ s.issued a) :
    c.records = !a.locks := by
  have recorded : c ∈ ((s.entry a).toList.flatMap fun e => s.logger.sinks.map (Call.record · e)) →
      c.records = true := by
    intro member
    obtain ⟨e, -, made⟩ := List.mem_flatMap.mp member
    obtain ⟨sink, -, rfl⟩ := List.mem_map.mp made
    rfl
  cases a with
  | flush =>
      simp only [Logging.issued] at issued
      split at issued
      · obtain ⟨sink, -, rfl⟩ := List.mem_map.mp issued
        rfl
      · cases issued
  | addEntry => exact recorded issued
  | addEntryUnchecked => exact recorded issued
  | _ => cases issued

theorem busy_of_mem {t : Nat} {c : Call} (member : c ∈ (s.callers t).calls) : s.callers t ≠ .idle := by
  intro idle
  rw [idle] at member
  cases member

theorem busy_of_waits {t promise : Nat} (waits : (s.callers t).waits = some promise) : s.callers t ≠ .idle := by
  intro idle
  rw [idle] at waits
  cases waits

theorem Change.accepted_grows (changed : Change s a s') (fits : s.Fits a) {l : AsyncLogging} {event : Event}
    (there : s.asyncLogging = some l) (member : event ∈ l.accepted) :
    ∃ l', s'.asyncLogging = some l' ∧ event ∈ l'.accepted := by
  obtain ⟨l', there', rfl | ⟨b, -, went⟩⟩ := changed.component fits there
  · exact ⟨l', there', member⟩
  · have grown := (AsyncLogging.step_pushes went).1
    exact ⟨l', there', by rw [grown]; exact List.mem_append_left _ member⟩

/-- What `leave` makes of the mutex. -/
theorem mutex_leave_eq_some {caller t : Nat} {next : Caller} (holds : (s.leave caller next).mutex = some t) :
    s.mutex = some t ∧ (t = caller → next ≠ .idle) := by
  simp only [leave] at holds
  split at holds
  · cases holds
  · rename_i goesOn
    exact ⟨holds, fun same idle => goesOn ⟨idle, same ▸ holds⟩⟩

namespace Locked

/-- The flush of a thread that goes on is kept. -/
theorem kept (locked : Locked s) (fits : s.Fits a) (changed : Change s a s') {t promise : Nat} (other : a ≠ .goOn t)
    (waits : (s.callers t).waits = some promise) :
    s'.mutex = some t ∧ ∃ l, s'.asyncLogging = some l ∧ .synchronize promise ∈ l.accepted := by
  obtain ⟨holds, l, there, member⟩ := locked.waiting t promise waits
  exact ⟨(changed.undisturbed holds (busy_of_waits waits) other).1, changed.accepted_grows fits there member⟩

theorem called (locked : Locked s) (inv : Inv s) {caller : Nat} {a : Jalog.Action} {logging : Logging}
    (changed : Change s (.call caller a) (s.called caller a logging)) (idle : s.callers caller = .idle)
    (stepped : s.logging.step a = some logging) : Locked (s.called caller a logging) := by
  obtain ⟨b, stands⟩ := inv.stands
  have fresh : logging.calls.drop s.logging.calls.length = s.logging.issued a := by
    rw [stands.issued stepped, List.drop_left]
  have here : (s.called caller a logging).callers caller = ⟨s.logging.issued a, none⟩ := by
    rw [← fresh]
    exact update_self ..
  have elsewhere : ∀ {t}, t ≠ caller → (s.called caller a logging).callers t = s.callers t :=
    fun other => update_of_ne other ..
  constructor
  · intro t promise waits
    by_cases this : t = caller
    · rw [this, here] at waits
      cases waits
    · rw [elsewhere this] at waits
      have fits : s.Fits (.call caller a) := trivial
      exact locked.kept fits changed (by simp) waits
  · intro t c member flushes
    by_cases this : t = caller
    · rw [this, here] at member
      have locks : a.locks = true := by simpa [flushes] using records_of_issued member
      rw [this]
      apply if_pos
      rw [fresh]
      exact ⟨locks, List.ne_nil_of_mem member⟩
    · rw [elsewhere this] at member
      exact (changed.undisturbed (locked.flushing t c member flushes) (busy_of_mem member) (by simp)).1
  · intro t holds
    simp only [Instance.called] at holds
    split at holds
    · rename_i locks
      cases holds
      rw [fresh] at locks
      rw [here]
      constructor
      · intro idle
        exact locks.2 (congrArg Caller.calls idle)
      · intro c member
        rw [records_of_issued member, locks.1]
        rfl
    · have other : t ≠ caller := by
        rintro rfl
        exact (locked.holder t holds).1 idle
      rw [elsewhere other]
      exact locked.holder t holds
  · obtain ⟨busy, few⟩ := locked.few
    refine ⟨insert caller busy, fun t absent => ?_⟩
    rw [Finset.mem_insert, not_or] at absent
    rw [elsewhere absent.1]
    exact few t absent.2

/-- A thread goes on: it is left with fewer calls, or its promise is set. -/
theorem leave (locked : Locked s) {caller : Nat} (fits : s.Fits (.goOn caller)) {x : Instance} {next : Caller}
    (changed : Change s (.goOn caller) (x.leave caller next)) (mutex : x.mutex = s.mutex)
    (callers : x.callers = s.callers) (fewer : ∀ c ∈ next.calls, c ∈ (s.callers caller).calls)
    (waits : ∀ promise, next.waits = some promise → (x.leave caller next).mutex = some caller ∧
      ∃ l, x.asyncLogging = some l ∧ .synchronize promise ∈ l.accepted) : Locked (x.leave caller next) := by
  have elsewhere : ∀ {t}, t ≠ caller → (x.leave caller next).callers t = s.callers t := by
    intro t other
    rw [callers_leave_of_ne x other, callers]
  constructor
  · intro t promise waiting
    by_cases this : t = caller
    · subst this
      rw [callers_leave_self] at waiting
      exact waits promise waiting
    · rw [elsewhere this] at waiting
      exact locked.kept fits changed (by simpa using Ne.symm this) waiting
  · intro t c member flushes
    by_cases this : t = caller
    · subst this
      rw [callers_leave_self] at member
      have more : next ≠ .idle := by
        rintro rfl
        cases member
      rw [mutex_leave_of_ne x more, mutex]
      exact locked.flushing t c (fewer c member) flushes
    · rw [elsewhere this] at member
      exact (changed.undisturbed (locked.flushing t c member flushes) (busy_of_mem member)
        (by simpa using Ne.symm this)).1
  · intro t holds
    obtain ⟨before, more⟩ := mutex_leave_eq_some holds
    rw [mutex] at before
    obtain ⟨busy, flushes⟩ := locked.holder t before
    by_cases this : t = caller
    · subst this
      rw [callers_leave_self]
      exact ⟨more rfl, fun c member => flushes c (fewer c member)⟩
    · rw [elsewhere this]
      exact ⟨busy, flushes⟩
  · obtain ⟨busy, few⟩ := locked.few
    refine ⟨insert caller busy, fun t absent => ?_⟩
    rw [Finset.mem_insert, not_or] at absent
    rw [elsewhere absent.1]
    exact few t absent.2

/-- Neither the mutex nor what the threads do is changed. -/
theorem aside (locked : Locked s) (fits : s.Fits a) (changed : Change s a s') (other : ∀ t, a ≠ .goOn t)
    (mutex : s'.mutex = s.mutex) (callers : s'.callers = s.callers) : Locked s' := by
  constructor
  · intro t promise waits
    rw [callers] at waits
    exact locked.kept fits changed (other t) waits
  · rw [mutex, callers]
    exact locked.flushing
  · rw [mutex, callers]
    exact locked.holder
  · rw [callers]
    exact locked.few

theorem change (locked : Locked s) (inv : Inv s) (fits : s.Fits a) (changed : Change s a s') : Locked s' := by
  cases id changed with
  | called idle _ _ stepped => exact locked.called inv changed idle stepped
  | nothing => exact locked
  | began => exact locked.aside fits changed (by simp) rfl rfl
  | added => exact locked.aside fits changed (by simp) rfl rfl
  | went inner =>
      have other : ∀ t, a ≠ .goOn t := by
        rintro t rfl
        cases inner
      exact locked.aside fits changed other rfl rfl
  | returned here =>
      apply locked.leave fits changed rfl rfl
      · intro c member
        rw [here]
        exact member
      · intro promise waits
        cases waits
  | @made caller c calls _ waits here performed =>
      apply locked.leave fits changed rfl rfl
      · intro c' member
        rw [here]
        exact List.mem_cons_of_mem _ member
      · intro promise waiting
        cases performed with
        | plain => cases waiting
        | record => cases waiting
        | @flush l l' there stepped =>
            cases waiting
            constructor
            · rw [mutex_leave_of_ne]
              · apply locked.flushing caller (.flush asyncSink) _ rfl
                rw [here]
                exact List.mem_cons_self
              · rintro ⟨⟩
            · refine ⟨l', rfl, ?_⟩
              rw [(AsyncLogging.step_pushes stepped).1]
              exact List.mem_append_right _ List.mem_cons_self

end Locked

/-! ### What is left to be done -/

/-- The calls that these threads are still to make. -/
def pending (busy : Finset Nat) (s : Instance) : Nat := ∑ t ∈ busy, (s.callers t).calls.length

/-- Whether who has the mutex waits for a promise. -/
def waiting (s : Instance) : Nat := (s.mutex.bind fun t => (s.callers t).waits).toList.length

/-- More than what is still to be done: a call leaves at most a task and its notification. -/
def measure (busy : Finset Nat) (s : Instance) : Nat :=
  10 * s.pending busy + s.asyncLogging.elim 0 AsyncLogging.size + s.waiting

theorem pending_leave {busy : Finset Nat} {caller : Nat} (member : caller ∈ busy) (next : Caller) :
    (s.leave caller next).pending busy + (s.callers caller).calls.length = s.pending busy + next.calls.length := by
  have others : ∑ t ∈ busy.erase caller, ((s.leave caller next).callers t).calls.length =
      ∑ t ∈ busy.erase caller, (s.callers t).calls.length := by
    apply Finset.sum_congr rfl
    intro t there
    rw [callers_leave_of_ne s (Finset.ne_of_mem_erase there)]
  rw [pending, pending, ← Finset.add_sum_erase busy _ member, ← Finset.add_sum_erase busy _ member, others,
    callers_leave_self]
  omega

/-- Where nobody else waits, a thread that goes on waits at most itself. -/
theorem waiting_leave (s : Instance) (caller : Nat) (next : Caller) :
    (s.leave caller next).waiting ≤ next.waits.toList.length + if s.mutex = some caller then 0 else s.waiting := by
  simp only [waiting]
  cases holds : (s.leave caller next).mutex with
  | none => exact Nat.zero_le _
  | some t =>
      obtain ⟨before, -⟩ := mutex_leave_eq_some holds
      rw [Option.bind_some]
      by_cases this : t = caller
      · rw [this, callers_leave_self]
        exact Nat.le_add_right _ _
      · rw [callers_leave_of_ne s this, before, if_neg (by simpa using this)]
        exact Nat.le_add_left _ _

/-- What is kept while what has been begun goes on. -/
structure Going (busy : Finset Nat) (size : Nat) (s : Instance) : Prop where
  inv : Inv s
  locked : Locked s
  idle : ∀ t ∉ busy, s.callers t = .idle
  alive : ∀ l, s.asyncLogging = some l → l.destructor = .alive
  size : s.measure busy = size

theorem step_of_proceed (proceeded : s.proceed a = some s') : s.step a = some s' ∧ s.Fits a := by
  cases a with
  | goOn caller =>
      simp only [proceed] at proceeded
      split at proceeded
      · rename_i fits
        exact ⟨proceeded, fits⟩
      · cases proceeded
  | background b =>
      obtain ⟨l, there, went⟩ := Option.bind_eq_some_iff.mp proceeded
      obtain ⟨l', goes, rfl⟩ := Option.map_eq_some_iff.mp went
      obtain ⟨stepped, -⟩ := AsyncLogging.step_of_proceed goes
      cases b with
      | record e => cases goes
      | add sink => cases goes
      | remove sink => cases goes
      | flush => cases goes
      | wake => cases goes
      | _ => exact ⟨by simp [step, background, there, stepped], trivial⟩
  | _ => cases proceeded

theorem Performed.size {c : Call} {asyncLogging asyncLogging' : Option AsyncLogging} {waits : Option Nat}
    (performed : Performed asyncLogging c asyncLogging' waits) :
    asyncLogging'.elim 0 AsyncLogging.size ≤ asyncLogging.elim 0 AsyncLogging.size + 8 ∧ waits.toList.length ≤ 1 := by
  cases performed with
  | plain => exact ⟨Nat.le_add_right _ _, Nat.zero_le _⟩
  | @record l _ e there stepped =>
      cases stepped
      rw [there]
      exact ⟨Nat.le_of_eq (l.size_pushTask (.record e) l.promises), Nat.zero_le _⟩
  | @flush l _ there stepped =>
      cases stepped
      rw [there]
      exact ⟨Nat.le_of_eq (l.size_pushTask _ _), Nat.le_refl _⟩

/-- Each step leaves less to be done. -/
theorem Going.measure_lt {busy : Finset Nat} {size : Nat} (going : Going busy size s)
    (proceeded : s.proceed a = some s') (changed : Change s a s') : s'.measure busy < s.measure busy := by
  cases changed with
  | @went _ b l l' inner there =>
      cases a with
      | background b' =>
          obtain ⟨l₁, there₁, went⟩ := Option.bind_eq_some_iff.mp proceeded
          cases there.symm.trans there₁
          obtain ⟨l₂, goes, same⟩ := Option.map_eq_some_iff.mp went
          cases congrArg Instance.asyncLogging same
          obtain ⟨done, current, queued, split, -, -⟩ := accounted_start.reachable (going.inv.component l there)
          have less := AsyncLogging.size_proceed_lt split goes
          have kept : pending busy { s with asyncLogging := some l' } = s.pending busy ∧
              waiting { s with asyncLogging := some l' } = s.waiting := ⟨rfl, rfl⟩
          simp only [measure, kept, there, Option.elim_some]
          omega
      | add => cases proceeded
      | remove => cases proceeded
      | _ => cases inner
  | called => cases proceeded
  | nothing => cases proceeded
  | began => cases proceeded
  | added => cases proceeded
  | @returned caller promise calls here =>
      have member : caller ∈ busy := by
        by_contra absent
        cases here.symm.trans (going.idle caller absent)
      have waits : (s.callers caller).waits = some promise := by rw [here]
      have holds := (going.locked.waiting caller promise waits).1
      have before : s.waiting = 1 := by
        rw [waiting, holds, Option.bind_some, waits]
        rfl
      have after := s.waiting_leave caller ⟨calls, none⟩
      rw [if_pos holds] at after
      have same := pending_leave (s := s) member ⟨calls, none⟩
      rw [here] at same
      dsimp only at same
      have kept : (s.leave caller ⟨calls, none⟩).asyncLogging = s.asyncLogging := rfl
      simp only [measure, kept, before]
      simp only [Option.toList_none, List.length_nil] at after
      omega
  | @made caller c calls asyncLogging waits here performed =>
      have member : caller ∈ busy := by
        by_contra absent
        cases here.symm.trans (going.idle caller absent)
      obtain ⟨more, atMost⟩ := performed.size
      generalize pushed : ({ s with asyncLogging, made := s.made ++ [(caller, c)] } : Instance) = x at proceeded ⊢
      have same : x.pending busy = s.pending busy ∧ x.waiting = s.waiting ∧ x.callers = s.callers ∧
          (x.leave caller ⟨calls, waits⟩).asyncLogging = asyncLogging := by
        subst pushed
        exact ⟨rfl, rfl, rfl, rfl⟩
      have fewer := pending_leave (s := x) member ⟨calls, waits⟩
      rw [same.1, same.2.2.1, here, List.length_cons] at fewer
      have after := x.waiting_leave caller ⟨calls, waits⟩
      rw [same.2.1] at after
      dsimp only at fewer after
      have bound : (x.leave caller ⟨calls, waits⟩).waiting ≤ 1 + s.waiting := by
        split at after <;> omega
      simp only [measure, same.2.2.2]
      omega

/-- A thread that has nothing to do does nothing. -/
theorem idle_of_proceed {t : Nat} (proceeded : s.proceed a = some s') (changed : Change s a s')
    (idle : s.callers t = .idle) : s'.callers t = .idle := by
  cases changed with
  | called => cases proceeded
  | nothing => cases proceeded
  | began => cases proceeded
  | added => cases proceeded
  | went => exact idle
  | @returned caller promise calls here =>
      have other : t ≠ caller := by
        rintro rfl
        cases here.symm.trans idle
      rw [callers_leave_of_ne s other]
      exact idle
  | @made caller c calls _ _ here =>
      have other : t ≠ caller := by
        rintro rfl
        cases here.symm.trans idle
      rw [callers_leave_of_ne _ other]
      exact idle

theorem alive_of_proceed (proceeded : s.proceed a = some s') (changed : Change s a s')
    (alive : ∀ l, s.asyncLogging = some l → l.destructor = .alive) {l' : AsyncLogging}
    (there' : s'.asyncLogging = some l') : l'.destructor = .alive := by
  cases changed with
  | called => cases proceeded
  | nothing => cases proceeded
  | began => cases proceeded
  | added => cases proceeded
  | went inner there =>
      cases there'
      cases a with
      | background b' =>
          obtain ⟨l₁, there₁, went⟩ := Option.bind_eq_some_iff.mp proceeded
          obtain ⟨l₂, goes, same⟩ := Option.map_eq_some_iff.mp went
          cases congrArg Instance.asyncLogging same
          exact (AsyncLogging.alive_of_proceed goes).mpr (alive l₁ there₁)
      | add => cases proceeded
      | remove => cases proceeded
      | _ => cases inner
  | returned => exact alive l' there'
  | made here performed =>
      cases performed with
      | plain => exact alive l' there'
      | @record l _ e there stepped =>
          cases stepped
          cases there'
          exact alive l there
      | @flush l _ there stepped =>
          cases stepped
          cases there'
          exact alive l there

theorem Going.proceed {busy : Finset Nat} {size : Nat} (going : Going busy size s)
    (proceeded : s.proceed a = some s') : ∃ size' < size, Going busy size' s' := by
  obtain ⟨stepped, fits⟩ := step_of_proceed proceeded
  have changed := change_of_step stepped
  have less := going.measure_lt proceeded changed
  rw [going.size] at less
  exact ⟨_, less, going.inv.change fits changed, going.locked.change going.inv fits changed,
    fun t absent => idle_of_proceed proceeded changed (going.idle t absent),
    fun l' there' => alive_of_proceed proceeded changed going.alive there', rfl⟩

/-- The thread that has the mutex goes on, or what it waits for does. -/
theorem Going.proceeds {busy : Finset Nat} {size t : Nat} (going : Going busy size s) (holds : s.mutex = some t) :
    ∃ a s', s.proceed a = some s' := by
  obtain ⟨notIdle, flushes⟩ := going.locked.holder t holds
  have fits : s.Fits (.goOn t) := by
    intro records
    cases calls : (s.callers t).calls with
    | nil => rw [calls] at records; cases records
    | cons c rest =>
        rw [calls] at records
        have flush := flushes c (by rw [calls]; exact List.mem_cons_self)
        rw [List.head?_cons, Option.any_some, flush] at records
        cases records
  have goesOn : s.proceed (.goOn t) = s.goOn t := if_pos fits
  cases here : s.callers t with
  | mk calls waits =>
      cases waits with
      | some promise =>
          obtain ⟨-, l, there, made⟩ := going.locked.waiting t promise (by rw [here])
          have reached := going.inv.component l there
          have looks := (Control.reachable reached).not_last (going.alive l there)
          have proceeding := proceeding_of_reachable reached ((accounted_start.reachable reached).of_reachable looks)
          rcases proceeding.proceeds with ⟨done, replayed, included, -⟩ | ⟨b, l', went⟩
          · have set : s.returns promise = true := by
              have member : promise ∈ l.sinks.promises := by
                rw [replayed, Sinks.promises_replay, mem_promisesOf]
                exact included.subset made
              simpa [returns, there] using member
            exact ⟨.goOn t, _, goesOn.trans (by simp only [goOn, here]; exact if_pos set)⟩
          · exact ⟨.background b, _, by simp only [Instance.proceed, there, Option.bind_some, went]; rfl⟩
      | none =>
          cases calls with
          | nil => exact absurd here notIdle
          | cons c rest =>
              have performed : ∃ after, c.perform s.asyncLogging = some after := by
                unfold Call.perform
                split
                · rename_i asynchronous
                  have heard := going.inv.known t c (by rw [here]; exact List.mem_cons_self)
                  rw [asynchronous, ← List.count_pos_iff] at heard
                  have once := going.inv.once
                  cases there : s.asyncLogging with
                  | none =>
                      rw [there] at once
                      exact absurd (Nat.lt_of_lt_of_le heard once) (Nat.lt_irrefl _)
                  | some l => cases c <;> exact ⟨_, rfl⟩
                · exact ⟨_, rfl⟩
              obtain ⟨after, performed⟩ := performed
              exact ⟨.goOn t, _, goesOn.trans (by simp only [goOn, here, performed]; rfl)⟩

theorem inv_and_locked (reached : Reachable step Fits start s) : Inv s ∧ Locked s := by
  induction reached with
  | start => exact ⟨inv_start, locked_start⟩
  | next _ fits stepped ih =>
      have changed := change_of_step stepped
      exact ⟨ih.1.change fits changed, ih.2.change ih.1 fits changed⟩

/-- **A flush of the logger returns**, while the instance is there: whatever the other threads have begun,
and however it goes on, the mutex is free again. -/
theorem flush_returns (reached : Reachable step Fits start s)
    (alive : ∀ l, s.asyncLogging = some l → l.destructor = .alive) :
    Inevitable proceed (fun s => s.mutex = none) s := by
  obtain ⟨inv, locked⟩ := inv_and_locked reached
  obtain ⟨busy, idle⟩ := locked.few
  suffices progress : ∀ size s, Going busy size s → s.mutex = none ∨
      (∃ a s', s.proceed a = some s') ∧ ∀ a s', s.proceed a = some s' → ∃ size' < size, Going busy size' s' by
    exact Inevitable.of_measure Nat.lt_wfRel.wf progress ⟨inv, locked, idle, alive, rfl⟩
  intro size s going
  cases holds : s.mutex with
  | none => exact .inl rfl
  | some t => exact .inr ⟨going.proceeds holds, fun a s' proceeded => going.proceed proceeded⟩

/-- The thread of the asynchronous logging sleeps, and another thread is about to record. -/
theorem flush_returns_sleeping :
    ∃ s, run step start [.async, .add 7, .call 1 .initializeLogger, .call 1 (.construct 3 [97] 1 0),
        .background .work, .background .work, .background .work, .background .work, .background .work,
        .background .work, .call 2 .flush, .call 1 (.addEntry 3 .info [104] 5), .goOn 2] = some s ∧
      Inevitable proceed (fun s => s.mutex = none) s :=
  ⟨_, rfl, flush_returns (System.reachable_of_meets [.async, .add 7, .call 1 .initializeLogger,
    .call 1 (.construct 3 [97] 1 0), .background .work, .background .work, .background .work, .background .work,
    .background .work, .background .work, .call 2 .flush, .call 1 (.addEntry 3 .info [104] 5), .goOn 2]
    (by decide) rfl) (by rintro l ⟨⟩; rfl)⟩

/-- What proceeds leaves the sinks alone. -/
theorem leaves_of_proceed (k : Nat) (proceeded : s.proceed a = some s') : Leaves k s a := by
  obtain ⟨-, fits⟩ := step_of_proceed proceeded
  cases a with
  | goOn => exact ⟨fits, rfl⟩
  | background => exact ⟨fits, rfl⟩
  | _ => cases proceeded

/-- What is kept until these events are done. -/
structure Getting (k : Nat) (target : List Event) (busy : Finset Nat) (size : Nat) (s : Instance) : Prop
    extends Going busy size s where
  has : Has k s
  accepted : ∃ l, s.asyncLogging = some l ∧ target <+: l.accepted

theorem Getting.proceed {k : Nat} {target : List Event} {busy : Finset Nat} {size : Nat}
    (getting : Getting k target busy size s) (proceeded : s.proceed a = some s') :
    ∃ size' < size, Getting k target busy size' s' := by
  obtain ⟨stepped, fits⟩ := step_of_proceed proceeded
  have changed := change_of_step stepped
  obtain ⟨size', less, going⟩ := getting.toGoing.proceed proceeded
  obtain ⟨l, there, included⟩ := getting.accepted
  refine ⟨size', less, going, getting.has.change (leaves_of_proceed k proceeded) changed, ?_⟩
  obtain ⟨l', there', rfl | ⟨b, -, went⟩⟩ := changed.component fits there
  · exact ⟨l', there', included⟩
  · refine ⟨l', there', included.trans ?_⟩
    rw [(AsyncLogging.step_pushes went).1]
    exact List.prefix_append _ _

/-- **What has been logged gets recorded**, while the instance is there and though nobody flushes. -/
theorem recorded_inevitably {k : Nat} {s₀ s₁ : Instance} (setUp : SetUp k s₀)
    (before : Reachable step (Leaves k) s₀ s₁) (alive : ∀ l, s₁.asyncLogging = some l → l.destructor = .alive) :
    Inevitable proceed (Caught k s₁) s₁ := by
  obtain ⟨inv, locked⟩ := inv_and_locked (setUp.reached.trans (before.mono fun _ _ leaves => leaves.1))
  have has := setUp.has.reachable before
  obtain ⟨busy, idle⟩ := locked.few
  obtain ⟨-, l₁, -, -, there₁, -⟩ := id has
  suffices progress : ∀ size s, Getting k l₁.accepted busy size s → Caught k s₁ s ∨
      (∃ a s', s.proceed a = some s') ∧
        ∀ a s', s.proceed a = some s' → ∃ size' < size, Getting k l₁.accepted busy size' s' by
    exact Inevitable.of_measure Nat.lt_wfRel.wf progress
      ⟨⟨inv, locked, idle, alive, rfl⟩, has, l₁, there₁, List.prefix_refl _⟩
  intro size s getting
  obtain ⟨l, there, included⟩ := getting.accepted
  have reached := getting.inv.component l there
  have looks := (Control.reachable reached).not_last (getting.alive l there)
  have proceeding := proceeding_of_reachable reached ((accounted_start.reachable reached).of_reachable looks)
  rcases proceeding.proceeds with ⟨done, replayed, whole, initial⟩ | ⟨b, l', went⟩
  · left
    apply caught inv has
    rw [getting.has.behind_eq there initial replayed, ← inv.accepted l₁ there₁]
    exact recordsOf_mono (included.trans whole)
  · have goes : s.proceed (.background b) = some { s with asyncLogging := some l' } := by
      simp only [Instance.proceed, there, Option.bind_some, went]
      rfl
    exact .inr ⟨⟨.background b, _, goes⟩, fun a s' proceeded => getting.proceed proceeded⟩

/-- The thread of the asynchronous logging sleeps, and will be notified. -/
theorem recorded_inevitably_sleeping :
    ∃ s₀ s₁, run step start [.async, .add 7] = some s₀ ∧
      run step s₀ [.call 1 .initializeLogger, .call 1 (.construct 3 [97] 1 0), .background .work,
        .background .work, .background .work, .background .work, .background .work, .background .work,
        .call 1 (.addEntry 3 .info [104] 5), .goOn 1] = some s₁ ∧
      Inevitable proceed (Caught 7 s₁) s₁ :=
  ⟨_, _, rfl, rfl, recorded_inevitably
    ⟨System.reachable_of_meets [.async, .add 7] (by decide) rfl, rfl, _, rfl, rfl⟩
    (System.reachable_of_meets [.call 1 .initializeLogger, .call 1 (.construct 3 [97] 1 0), .background .work,
      .background .work, .background .work, .background .work, .background .work, .background .work,
      .call 1 (.addEntry 3 .info [104] 5), .goOn 1] (by decide) rfl) (by rintro l ⟨⟩; rfl)⟩

end Instance

end AlpacaCore.Jalog
