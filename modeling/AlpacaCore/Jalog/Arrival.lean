import AlpacaCore.Jalog.Instance

/-!
What is logged comes to the sinks.

From the scopes to the sinks behind the asynchronous logging: the entries that the threads log come
to each sink of the logger, once each and those of one thread in order, and a sink behind the
asynchronous logging records what that got, in the order in which it came.
-/

namespace AlpacaCore.Jalog

open AlpacaCore.System (Reachable run under pick)
open Function (update update_self update_of_ne)

/-! ### What a sink behind the asynchronous logging records -/

/-- The entries among the events. -/
def recordsOf (events : List Event) : List Entry :=
  events.filterMap fun event => match event with
    | .record e => some e
    | _ => none

@[simp] theorem recordsOf_append (events events' : List Event) :
    recordsOf (events ++ events') = recordsOf events ++ recordsOf events' :=
  List.filterMap_append

theorem recordsOf_mono {events events' : List Event} (initial : events <+: events') :
    recordsOf events <+: recordsOf events' :=
  initial.filterMap _

theorem Sinks.recorded_of_none {events : List Event} (none : recordsOf events = []) :
    (Sinks.replay events).recorded = [] := by
  induction events using List.reverseRecOn with
  | nil => rfl
  | append_singleton events event ih =>
      rw [recordsOf_append] at none
      have before := ih (List.append_eq_nil_iff.mp none).1
      rw [Sinks.replay_append]
      cases event with
      | record e => cases (List.append_eq_nil_iff.mp none).2
      | add sink => exact before
      | remove sink => exact before
      | synchronize promise => exact before

/-- A sink that is there once, and is left alone, is called for each entry. -/
theorem Sinks.recorded_of_once {k : Nat} {before after : List Event}
    (once : (Sinks.replay before).sinks.count k = 1) (leaves : ∀ event ∈ after, event ≠ .add k ∧ event ≠ .remove k) :
    under k (Sinks.replay (before ++ after)).recorded = under k (Sinks.replay before).recorded ++ recordsOf after ∧
      (Sinks.replay (before ++ after)).sinks.count k = 1 := by
  induction after using List.reverseRecOn with
  | nil => simpa [recordsOf] using once
  | append_singleton after event ih =>
      obtain ⟨recorded, still⟩ := ih fun event member => leaves event (List.mem_append_left _ member)
      have left := leaves event (List.mem_append_right _ List.mem_cons_self)
      rw [← List.append_assoc, Sinks.replay_append, recordsOf_append]
      generalize Sinks.replay (before ++ after) = x at recorded still ⊢
      cases event with
      | record e =>
          constructor
          · rw [Sinks.perform, Sinks.record, System.under_append, System.under_map_const, still, recorded,
              List.append_assoc]
            rfl
          · exact still
      | add sink =>
          have other : sink ≠ k := fun same => left.1 (by rw [same])
          constructor
          · have nothing : recordsOf [.add sink] = [] := rfl
            rw [nothing, List.append_nil]
            exact recorded
          · rw [Sinks.perform, Sinks.add, List.count_append, List.count_singleton, still]
            simp [other]
      | remove sink =>
          have other : sink ≠ k := fun same => left.2 (by rw [same])
          constructor
          · have nothing : recordsOf [.remove sink] = [] := rfl
            rw [nothing, List.append_nil]
            exact recorded
          · rw [Sinks.perform, Sinks.remove, List.count_filter (by simpa using other.symm)]
            exact still
      | synchronize promise =>
          constructor
          · have nothing : recordsOf [.synchronize promise] = [] := rfl
            rw [nothing, List.append_nil]
            exact recorded
          · exact still

/-- The sink was there before the first entry, once, and has been left alone since. -/
structure Tuned (k : Nat) (l : AsyncLogging) (before after : List Event) : Prop where
  accepted : l.accepted = before ++ after
  silent : recordsOf before = []
  once : (Sinks.replay before).sinks.count k = 1
  leaves : ∀ event ∈ after, event ≠ .add k ∧ event ≠ .remove k

/-- It is called for each entry among what is done. -/
theorem Tuned.recorded {k : Nat} {l : AsyncLogging} {before after done : List Event} (tuned : Tuned k l before after)
    (initial : done <+: l.accepted) : under k (Sinks.replay done).recorded = recordsOf done := by
  rw [tuned.accepted] at initial
  rcases List.prefix_or_prefix_of_prefix initial (List.prefix_append before after) with early | ⟨more, rfl⟩
  · have none : recordsOf done = [] := List.prefix_nil.mp (tuned.silent ▸ recordsOf_mono early)
    rw [none, Sinks.recorded_of_none none]
    rfl
  · have later := (List.prefix_append_right_inj before).mp initial
    have leaves := fun event member => tuned.leaves event (later.subset member)
    rw [(Sinks.recorded_of_once tuned.once leaves).1, Sinks.recorded_of_none tuned.silent, recordsOf_append,
      tuned.silent]
    rfl

/-! ### Where the entries are -/

/-- The entries that the thread is about to give to the sink. -/
def Caller.entriesFor (t : Caller) (sink : Nat) : List Entry := t.calls.filterMap (Call.entryFor sink)

section Logging

variable {s s' : Logging} {a : Action}

/-- A sink that the logger has once is called once for each entry. -/
theorem Logging.entries_issued {sink : Nat} (once : s.logger.sinks.count sink = 1) :
    (s.issued a).filterMap (Call.entryFor sink) = (s.entry a).toList := by
  have flushes : ∀ sinks : List Nat, (sinks.map Call.flush).filterMap (Call.entryFor sink) = [] := by
    intro sinks
    induction sinks with
    | nil => rfl
    | cons j sinks ih => exact ih
  have records : ∀ (e : Entry) (sinks : List Nat),
      (sinks.map (Call.record · e)).filterMap (Call.entryFor sink) = List.replicate (sinks.count sink) e := by
    intro e sinks
    rw [← System.under_map_const, under, List.filterMap_map, List.filterMap_map]
    rfl
  have entries : ((s.entry a).toList.flatMap fun e => s.logger.sinks.map (Call.record · e)).filterMap
      (Call.entryFor sink) = (s.entry a).toList := by
    cases s.entry a with
    | none => rfl
    | some e =>
        rw [Option.toList_some, List.flatMap_singleton, records, once]
        rfl
  cases a with
  | flush =>
      simp only [Logging.issued]
      split
      · exact flushes _
      · rfl
  | _ => exact entries

theorem Logging.sink_of_issued {c : Call} (issued : c ∈ s.issued a) : c.sink ∈ s.logger.sinks := by
  have entries : c ∈ ((s.entry a).toList.flatMap fun e => s.logger.sinks.map (Call.record · e)) →
      c.sink ∈ s.logger.sinks := by
    intro recorded
    obtain ⟨e, -, member⟩ := List.mem_flatMap.mp recorded
    obtain ⟨sink, there, rfl⟩ := List.mem_map.mp member
    exact there
  cases a with
  | flush =>
      simp only [Logging.issued] at issued
      split at issued
      · obtain ⟨sink, there, rfl⟩ := List.mem_map.mp issued
        exact there
      · cases issued
  | _ => exact entries issued

theorem Logging.entry_early (early : s.logger.initialized = false) : s.entry a = none := by
  cases a with
  | addEntry scope lvl text now => simp [Logging.entry, early]
  | addEntryUnchecked scope lvl text now => simp [Logging.entry, early]
  | _ => rfl

theorem Logging.issued_early (early : s.logger.initialized = false) : s.issued a = [] := by
  have nothing := Logging.entry_early (a := a) early
  cases a with
  | flush => simp [Logging.issued, early]
  | _ => simp only [Logging.issued, nothing, Option.toList_none, List.flatMap_nil]

theorem Logger.initialized_addSink (l : Logger) (sink : Nat) : (l.addSink sink).initialized = l.initialized := by
  unfold Logger.addSink
  split <;> rfl

theorem Logger.sinks_addSink (l : Logger) (sink : Nat) :
    (l.addSink sink).sinks = if l.initialized then l.sinks else l.sinks ++ [sink] := by
  unfold Logger.addSink
  split <;> rfl

end Logging

namespace Instance

@[simp] theorem callers_leave_self (s : Instance) (caller : Nat) (next : Caller) :
    (s.leave caller next).callers caller = next :=
  update_self ..

@[simp] theorem callers_leave_of_ne (s : Instance) {caller t : Nat} (other : t ≠ caller) (next : Caller) :
    (s.leave caller next).callers t = s.callers t :=
  update_of_ne other ..

/-- Where what was to be recorded is. -/
structure Inv (s : Instance) : Prop where
  stands : ∃ b, Stands s.logging b
  component : ∀ l, s.asyncLogging = some l → Reachable AsyncLogging.step AsyncLogging.Fits .start l
  early : s.logging.logger.initialized = false → s.logged = [] ∧ s.made = [] ∧ ∀ t, s.callers t = .idle
  /-- A sink that the logger has once has got it, or is about to get it. -/
  delivered : ∀ sink, s.logging.logger.sinks.count sink = 1 → ∀ t,
    under t s.logged = under t (s.received sink) ++ (s.callers t).entriesFor sink
  accepted : ∀ l, s.asyncLogging = some l → recordsOf l.accepted = (s.received asyncSink).map Prod.snd
  absent : s.asyncLogging = none → s.received asyncSink = []
  /-- The asynchronous logging is a sink of the logger, if it came in time. -/
  once : s.logging.logger.sinks.count asyncSink ≤ s.asyncLogging.toList.length
  heard : s.logging.logger.initialized = false →
    s.logging.logger.sinks.count asyncSink = s.asyncLogging.toList.length
  known : ∀ t, ∀ c ∈ (s.callers t).calls, c.sink ∈ s.logging.logger.sinks

theorem inv_start : Inv start := by
  constructor
  · exact ⟨.start, stands_start⟩
  · intro l none
    cases none
  · exact fun _ => ⟨rfl, rfl, fun _ => rfl⟩
  · intro sink once
    cases once
  · intro l none
    cases none
  · exact fun _ => rfl
  · exact Nat.le_refl _
  · exact fun _ => rfl
  · intro t c member
    cases member

namespace Inv

variable {s : Instance}

theorem idle_early (inv : Inv s) (early : s.logging.logger.initialized = false) (t : Nat) : s.callers t = .idle :=
  (inv.early early).2.2 t

theorem called (inv : Inv s) {caller : Nat} {a : Jalog.Action} {logging : Logging}
    (idle : s.callers caller = .idle) (foreign : a.foreign) (stepped : s.logging.step a = some logging) :
    Inv (s.called caller a logging) := by
  obtain ⟨b, stands⟩ := inv.stands
  have fresh : logging.calls.drop s.logging.calls.length = s.logging.issued a := by
    rw [stands.issued stepped, List.drop_left]
  have callers : (s.called caller a logging).callers = update s.callers caller ⟨s.logging.issued a, none⟩ := by
    rw [← fresh]
    rfl
  have early : logging.logger.initialized = false → s.logging.logger.initialized = false := by
    intro early
    rcases Logging.step_logger stepped with ⟨-, kept⟩ | ⟨_, -, before, -, -⟩
    · cases before : s.logging.logger.initialized with
      | false => rfl
      | true => exact absurd (kept before) (by rw [early]; simp)
    · exact before
  have nothing : logging.logger.initialized = false →
      (s.called caller a logging).logged = [] ∧ s.made = [] ∧ ∀ t, (s.called caller a logging).callers t = .idle := by
    intro late
    obtain ⟨logged, made, idle⟩ := inv.early (early late)
    have logged' : (s.called caller a logging).logged = [] := by
      simp only [Instance.called, logged, Logging.entry_early (early late)]
      rfl
    have idle' : ∀ t, (s.called caller a logging).callers t = .idle := by
      intro t
      rw [callers, Logging.issued_early (early late)]
      by_cases here : t = caller
      · rw [here, update_self]
        rfl
      · rw [update_of_ne here, idle t]
    exact ⟨logged', made, idle'⟩
  have count := Logging.count_asyncSink foreign stepped
  constructor
  · have both := stands.step a
    rw [stepped] at both
    generalize b.step a = after at both
    cases both with
    | @some _ b' stands' => exact ⟨b', stands'⟩
  · exact inv.component
  · exact nothing
  · intro sink once t
    rcases Logging.step_logger stepped with ⟨same, -⟩ | ⟨_, -, -, late, -⟩
    · have before : s.logging.logger.sinks.count sink = 1 := by
        rw [← same]
        exact once
      have delivered := inv.delivered sink before t
      rw [callers]
      simp only [Instance.called, System.under_append, delivered]
      by_cases here : t = caller
      · subst here
        rw [update_self, idle, System.under_map_self, ← Logging.entries_issued before, Caller.entriesFor,
          Caller.idle, List.filterMap_nil, List.append_nil]
        rfl
      · rw [update_of_ne here, System.under_map_of_ne (Ne.symm here), List.append_nil]
        rfl
    · obtain ⟨logged, made, idle⟩ := nothing late
      have received : (s.called caller a logging).received sink = [] := by
        rw [Instance.received, show (s.called caller a logging).made = [] from made]
        rfl
      rw [logged, received, idle t]
      rfl
  · exact inv.accepted
  · exact inv.absent
  · exact count ▸ inv.once
  · intro late
    exact count ▸ inv.heard (early late)
  · intro t c member
    have grown : ∀ sink ∈ s.logging.logger.sinks, sink ∈ logging.logger.sinks := by
      intro sink there
      rcases Logging.step_logger stepped with ⟨same, -⟩ | ⟨_, -, -, -, more⟩
      · rw [same]
        exact there
      · rw [more]
        exact List.mem_append_left _ there
    apply grown
    rw [callers] at member
    by_cases here : t = caller
    · rw [here, update_self] at member
      exact Logging.sink_of_issued member
    · rw [update_of_ne here] at member
      exact inv.known t c member

/-- `addSink`, by the instance: of a sink of its own, or of the asynchronous logging it has made. -/
theorem addSink (inv : Inv s) (none : s.asyncLogging = none) {sink : Nat} {asyncLogging : Option AsyncLogging}
    (new : asyncLogging = .none ∧ sink ≠ asyncSink ∨ asyncLogging = some .start ∧ sink = asyncSink) :
    Inv { s with
      asyncLogging
      logging := { s.logging with logger := s.logging.logger.addSink sink } } := by
  have before : s.logging.logger.sinks.count asyncSink = 0 := by
    have once := inv.once
    rw [none] at once
    exact Nat.le_zero.mp once
  have count : [sink].count asyncSink = asyncLogging.toList.length := by
    rcases new with ⟨rfl, other⟩ | ⟨rfl, rfl⟩
    · simp [other]
    · rfl
  constructor
  · obtain ⟨b, stands⟩ := inv.stands
    exact ⟨_, stands.addSink sink⟩
  · intro l there
    rcases new with ⟨rfl, -⟩ | ⟨rfl, -⟩
    · cases there
    · cases there
      exact .start
  · intro early
    rw [Logger.initialized_addSink] at early
    exact inv.early early
  · intro sink' once t
    cases late : s.logging.logger.initialized with
    | false =>
        obtain ⟨logged, made, idle⟩ := inv.early late
        simp only [Instance.received, logged, made, idle]
        rfl
    | true =>
        rw [Logger.sinks_addSink, if_pos late] at once
        exact inv.delivered sink' once t
  · intro l there
    have received : s.received asyncSink = [] := inv.absent none
    rcases new with ⟨rfl, -⟩ | ⟨rfl, -⟩
    · cases there
    · cases there
      exact (congrArg (List.map Prod.snd) received).symm
  · exact fun _ => inv.absent none
  · simp only [Logger.sinks_addSink]
    split
    · rw [before]
      exact Nat.zero_le _
    · rw [List.count_append, before, count]
      omega
  · intro early
    rw [Logger.initialized_addSink] at early
    simp only [Logger.sinks_addSink, early]
    rw [if_neg (by simp), List.count_append, before, count, Nat.zero_add]
  · intro t c member
    rw [Logger.sinks_addSink]
    split
    · exact inv.known t c member
    · exact List.mem_append_left _ (inv.known t c member)

/-- The asynchronous logging does something that is not to record. -/
theorem went (inv : Inv s) {b : AsyncLogging.Action} {l l' : AsyncLogging} (quiet : ∀ e, b ≠ .record e)
    (there : s.asyncLogging = some l) (stepped : l.step b = some l') :
    Inv { s with asyncLogging := some l' } := by
  have fits : l.Fits b := by
    cases b with
    | record e => exact absurd rfl (quiet e)
    | _ => trivial
  have silent : recordsOf (l.pushes b) = [] := by
    cases b with
    | record e => exact absurd rfl (quiet e)
    | destroy =>
        simp only [AsyncLogging.pushes]
        split <;> rfl
    | _ => rfl
  have once := inv.once
  have heard := inv.heard
  rw [there] at once heard
  constructor
  · exact inv.stands
  · intro l'' same
    cases same
    exact (inv.component l there).next fits stepped
  · exact inv.early
  · exact inv.delivered
  · intro l'' same
    cases same
    rw [(AsyncLogging.step_pushes stepped).1, recordsOf_append, silent, List.append_nil]
    exact inv.accepted l there
  · intro none
    cases none
  · exact once
  · exact heard
  · exact inv.known

/-- A flush has returned, and the thread has the same calls before it. -/
theorem returned (inv : Inv s) {caller promise : Nat} {calls : List Call}
    (here : s.callers caller = ⟨calls, some promise⟩) : Inv (s.leave caller ⟨calls, none⟩) := by
  have same : ∀ t, ((s.leave caller ⟨calls, none⟩).callers t).calls = (s.callers t).calls := by
    intro t
    by_cases this : t = caller
    · rw [this, callers_leave_self, here]
    · rw [callers_leave_of_ne _ this]
  constructor
  · exact inv.stands
  · exact inv.component
  · intro early
    have idle := inv.idle_early early caller
    rw [here] at idle
    cases idle
  · intro sink once t
    rw [Caller.entriesFor, same t]
    exact inv.delivered sink once t
  · exact inv.accepted
  · exact inv.absent
  · exact inv.once
  · exact inv.heard
  · intro t c member
    rw [same t] at member
    exact inv.known t c member

/-- A sink has been called. -/
theorem made (inv : Inv s) {caller : Nat} {c : Call} {calls : List Call} {asyncLogging : Option AsyncLogging}
    {waits : Option Nat} (fits : s.Fits (.goOn caller)) (here : s.callers caller = ⟨c :: calls, none⟩)
    (performed : Performed s.asyncLogging c asyncLogging waits) :
    Inv ({ s with asyncLogging, made := s.made ++ [(caller, c)] }.leave caller ⟨calls, waits⟩) := by
  have received : ∀ sink, pick (Call.entryFor sink) (s.made ++ [(caller, c)]) =
      s.received sink ++ (c.entryFor sink).toList.map (caller, ·) := by
    intro sink
    rw [System.pick_append, System.pick_singleton]
    rfl
  have length : asyncLogging.toList.length = s.asyncLogging.toList.length := by
    cases performed with
    | plain => rfl
    | record there => rw [there]; rfl
    | flush there => rw [there]; rfl
  have late : s.logging.logger.initialized = true := by
    by_contra early
    have idle := inv.idle_early (Bool.eq_false_iff.mpr early) caller
    rw [here] at idle
    cases idle
  have others : c.sink ≠ asyncSink → c.entryFor asyncSink = none := by
    intro other
    cases c with
    | record sink e => exact if_neg other
    | flush sink => rfl
  constructor
  · exact inv.stands
  · intro l there
    cases performed with
    | plain => exact inv.component l there
    | @record l₀ _ e before stepped =>
        cases there
        have fitting : l₀.Fits (.record e) := by
          apply fits _ l₀ before
          rw [here]
          rfl
        exact (inv.component l₀ before).next fitting stepped
    | @flush l₀ _ before stepped =>
        cases there
        have fitting : l₀.Fits .flush := trivial
        exact (inv.component l₀ before).next fitting stepped
  · intro early
    exact absurd late (by rw [show s.logging.logger.initialized = false from early]; simp)
  · intro sink once t
    have delivered := inv.delivered sink once t
    show under t s.logged = under t (pick (Call.entryFor sink) (s.made ++ [(caller, c)])) ++ _
    rw [received, System.under_append, delivered, List.append_assoc]
    congr 1
    by_cases this : t = caller
    · subst this
      rw [callers_leave_self, System.under_map_self, here, Caller.entriesFor, Caller.entriesFor]
      cases picked : c.entryFor sink <;> simp [picked]
    · rw [callers_leave_of_ne _ this, System.under_map_of_ne (Ne.symm this)]
      rfl
  · intro l there
    show _ = (pick (Call.entryFor asyncSink) (s.made ++ [(caller, c)])).map Prod.snd
    rw [received, List.map_append]
    cases performed with
    | plain other =>
        rw [others other]
        simpa using inv.accepted l there
    | record before stepped =>
        cases there
        rw [(AsyncLogging.step_pushes stepped).1, recordsOf_append, inv.accepted _ before]
        rfl
    | flush before stepped =>
        cases there
        rw [(AsyncLogging.step_pushes stepped).1, recordsOf_append, inv.accepted _ before]
        rfl
  · intro none
    show pick (Call.entryFor asyncSink) (s.made ++ [(caller, c)]) = []
    cases performed with
    | plain other =>
        rw [received, inv.absent none, others other]
        rfl
    | record => cases none
    | flush => cases none
  · exact length ▸ inv.once
  · exact fun early => length ▸ inv.heard early
  · intro t c' member
    by_cases this : t = caller
    · subst this
      rw [callers_leave_self] at member
      apply inv.known t
      rw [here]
      exact List.mem_cons_of_mem _ member
    · rw [callers_leave_of_ne _ this] at member
      exact inv.known t c' member

theorem change (inv : Inv s) {a : Action} {s' : Instance} (fits : s.Fits a) (changed : Change s a s') : Inv s' := by
  cases changed with
  | called idle free foreign stepped => exact inv.called idle foreign stepped
  | nothing => exact inv
  | began none => exact inv.addSink none (.inr ⟨rfl, rfl⟩)
  | added none free other =>
      have added := inv.addSink none (.inl ⟨rfl, other⟩)
      rw [← none] at added
      exact added
  | went inner there stepped => exact inv.went (Action.inner_ne_record inner) there stepped
  | returned here => exact inv.returned here
  | made here performed => exact inv.made fits here performed

end Inv

theorem inv_of_reachable {guard : Instance → Action → Prop} {s s' : Instance} (inv : Inv s)
    (fits : ∀ s a, guard s a → s.Fits a) (reached : Reachable step guard s s') : Inv s' :=
  reached.invariant inv fun s a _ inv met stepped => inv.change (fits s a met) (change_of_step stepped)

section Delivery

variable {k : Nat} {s s' : Instance} {a : Action}

/-- The sinks behind the asynchronous logging that are concerned. -/
def Action.about (k : Nat) : Action → Bool
  | .add sink | .remove sink => sink == k
  | _ => false

/-- The sink is left alone. -/
def Leaves (k : Nat) (s : Instance) (a : Action) : Prop := s.Fits a ∧ a.about k = false

instance (k : Nat) (s : Instance) (a : Action) : Decidable (Leaves k s a) :=
  inferInstanceAs (Decidable (_ ∧ _))

/-- The sink has been put behind the asynchronous logging, once, and nothing is logged yet. -/
structure SetUp (k : Nat) (s : Instance) : Prop where
  reached : Reachable step Fits start s
  early : s.logging.logger.initialized = false
  behind : ∃ l, s.asyncLogging = some l ∧ (Sinks.replay l.accepted).sinks.count k = 1

/-- What the sink behind the asynchronous logging has recorded. -/
def behind (s : Instance) (k : Nat) : List Entry :=
  s.asyncLogging.elim [] fun l => under k l.sinks.recorded

/-- The thread of the asynchronous logging has nothing to do. -/
def Drained (s : Instance) : Prop :=
  ∀ l, s.asyncLogging = some l → l.worker.Between ∧ l.impl.taskQueue = []

/-- What is logged comes to the sinks of the logger, and to this one behind the asynchronous logging. -/
structure Delivers (k : Nat) (s : Instance) : Prop where
  /-- Each thread's entries come in the order in which it logged them. -/
  arrives : ∀ sink, s.logging.logger.sinks.count sink = 1 → ∀ t,
    under t s.logged = under t (s.received sink) ++ (s.callers t).entriesFor sink
  heard : s.logging.logger.sinks.count asyncSink = 1
  /-- They are recorded in the order in which the asynchronous logging got them. -/
  records : s.behind k <+: (s.received asyncSink).map Prod.snd
  whole : s.Drained → s.behind k = (s.received asyncSink).map Prod.snd

/-- The asynchronous logging is heard, and has the sink. -/
def Has (k : Nat) (s : Instance) : Prop :=
  s.logging.logger.sinks.count asyncSink = 1 ∧
    ∃ l before after, s.asyncLogging = some l ∧ Tuned k l before after

theorem SetUp.has (setUp : SetUp k s) : Has k s := by
  have inv := inv_of_reachable inv_start (fun _ _ met => met) setUp.reached
  obtain ⟨l, there, once⟩ := setUp.behind
  obtain ⟨-, made, -⟩ := inv.early setUp.early
  have heard := inv.heard setUp.early
  have silent := inv.accepted l there
  rw [there] at heard
  rw [received, made] at silent
  exact ⟨heard, l, l.accepted, [], there, (List.append_nil _).symm, silent, once, by simp⟩

theorem leaves_pushes {b : AsyncLogging.Action} {l : AsyncLogging} (about : a.about k = false)
    (inner : a.inner = some b) : ∀ event ∈ l.pushes b, event ≠ .add k ∧ event ≠ .remove k := by
  cases a with
  | add sink =>
      cases inner
      simpa [AsyncLogging.pushes, Action.about] using about
  | remove sink =>
      cases inner
      simpa [AsyncLogging.pushes, Action.about] using about
  | background b' =>
      intro event member
      cases b' with
      | destroy =>
          cases inner
          simp only [AsyncLogging.pushes] at member
          split at member
          · cases List.mem_singleton.mp member
            simp
          · cases member
      | notify => cases inner; cases member
      | work => cases inner; cases member
      | wake => cases inner; cases member
      | _ => cases inner
  | _ => cases inner

theorem Has.change (has : Has k s) (leaves : Leaves k s a) (changed : Change s a s') : Has k s' := by
  obtain ⟨heard, l, before, after, there, tuned⟩ := has
  have more : ∀ {l' : AsyncLogging} {b : AsyncLogging.Action}, l.step b = some l' →
      (∀ event ∈ l.pushes b, event ≠ .add k ∧ event ≠ .remove k) →
      ∃ before after, Tuned k l' before after := by
    intro l' b stepped left
    refine ⟨before, after ++ l.pushes b, ?_, tuned.silent, tuned.once, ?_⟩
    · rw [(AsyncLogging.step_pushes stepped).1, tuned.accepted, List.append_assoc]
    · intro event member
      rcases List.mem_append.mp member with old | new
      · exact tuned.leaves event old
      · exact left event new
  cases changed with
  | called idle free foreign stepped =>
      exact ⟨(Logging.count_asyncSink foreign stepped).trans heard, l, before, after, there, tuned⟩
  | nothing => exact ⟨heard, l, before, after, there, tuned⟩
  | began none => cases there.symm.trans none
  | added none => cases there.symm.trans none
  | @went _ b _ l' inner found stepped =>
      cases there.symm.trans found
      obtain ⟨before', after', tuned'⟩ := more stepped (leaves_pushes leaves.2 inner)
      exact ⟨heard, l', before', after', rfl, tuned'⟩
  | returned => exact ⟨heard, l, before, after, there, tuned⟩
  | made here performed =>
      cases performed with
      | plain => exact ⟨heard, l, before, after, there, tuned⟩
      | @record _ l' e found stepped =>
          cases there.symm.trans found
          obtain ⟨before', after', tuned'⟩ := more stepped (by simp [AsyncLogging.pushes])
          exact ⟨heard, l', before', after', rfl, tuned'⟩
      | @flush _ l' found stepped =>
          cases there.symm.trans found
          obtain ⟨before', after', tuned'⟩ := more stepped (by simp [AsyncLogging.pushes])
          exact ⟨heard, l', before', after', rfl, tuned'⟩

theorem Has.reachable {s₁ : Instance} (has : Has k s₁) (later : Reachable step (Leaves k) s₁ s) : Has k s :=
  later.invariant has fun _ _ _ held leaves stepped => held.change leaves (change_of_step stepped)

theorem SetUp.inv (setUp : SetUp k s) : Inv s :=
  inv_of_reachable inv_start (fun _ _ met => met) setUp.reached

theorem SetUp.inv_later {s₁ : Instance} (setUp : SetUp k s₁) (later : Reachable step (Leaves k) s₁ s) : Inv s :=
  inv_of_reachable setUp.inv (fun _ _ leaves => leaves.1) later

/-- The entries among what is done are what the sink has recorded. -/
theorem Has.behind_eq {l : AsyncLogging} {done : List Event} (has : Has k s) (there : s.asyncLogging = some l)
    (initial : done <+: l.accepted) (replayed : l.sinks = .replay done) : s.behind k = recordsOf done := by
  obtain ⟨-, l', before, after, found, tuned⟩ := has
  cases there.symm.trans found
  rw [behind, there, Option.elim_some, replayed]
  exact tuned.recorded initial

/-- **What is logged comes to the sinks.** Once a sink is set up behind the asynchronous logging, it
records what the threads log, and so do the sinks of the logger. -/
theorem setUp_delivers {s₁ : Instance} (setUp : SetUp k s₁) (later : Reachable step (Leaves k) s₁ s) :
    Delivers k s := by
  have inv := setUp.inv_later later
  have has := setUp.has.reachable later
  obtain ⟨heard, l, before, after, there, tuned⟩ := id has
  obtain ⟨done, current, waiting, split, -, -⟩ := accounted_start.reachable (inv.component l there)
  have recorded := has.behind_eq there split.done_prefix split.sinks
  constructor
  · exact inv.delivered
  · exact heard
  · rw [recorded, ← inv.accepted l there]
    exact recordsOf_mono split.done_prefix
  · intro drained
    obtain ⟨between, empty⟩ := drained l there
    rw [recorded, split.whole between empty, inv.accepted l there]

/-- Two threads log; the entries come to the asynchronous logging in the other order. -/
theorem setUp_delivers_two :
    ∃ s₁ s, run step start [.async, .add 7] = some s₁ ∧
      run step s₁ [.call 1 .initializeLogger, .call 1 (.construct 3 [97] 1 0),
        .call 1 (.addEntry 3 .info [104] 5), .call 2 (.addEntry 3 .error [105] 6), .goOn 2, .goOn 1,
        .background .work, .background .work, .background .work, .background .work] = some s ∧
      Delivers 7 s :=
  ⟨_, _, rfl, rfl, setUp_delivers
    ⟨System.reachable_of_meets [.async, .add 7] (by decide) rfl, rfl, _, rfl, rfl⟩
    (System.reachable_of_meets [.call 1 .initializeLogger, .call 1 (.construct 3 [97] 1 0),
      .call 1 (.addEntry 3 .info [104] 5), .call 2 (.addEntry 3 .error [105] 6), .goOn 2, .goOn 1,
      .background .work, .background .work, .background .work, .background .work] (by decide) rfl)⟩

end Delivery

end Instance

end AlpacaCore.Jalog
