import AlpacaCore.Io.Channel

/-!
The callback of a channel, under all that the channel can be asked.

`m_notify` is one slot for the callbacks of readers and writers. Here it is followed through
any calls: what it says about the channel that there is one, and where a callback goes that
`on_blocked` has given.
-/

namespace AlpacaCore.Io

open AlpacaCore.System (run Reachable Free Meets)

/-- A call of a member function, with the callback that its `on_blocked` gives: none for
`nullptr`, for a function that is empty, and where the callback itself is empty. -/
inductive Call (T Cb : Type) where
  | write (t : T) (onBlocked : Option Cb)
  | read (t : T) (onBlocked : Option Cb)
  | close
  | exchangeRead (onBlocked : Option Cb)
  | exchangeWrite (onBlocked : Option Cb)

/-- What a call leaves. -/
structure Called (T Cb : Type) where
  channel : BufferedChannel T Cb
  /-- the callback handed back to the caller -/
  displaced : Option Cb
  /-- the callback the caller is to invoke after the unlock -/
  notified : Option Cb
  /-- `on_blocked` was called -/
  asked : Bool
  /-- the call was a successful `write` or `read`, or a `close` -/
  settled : Bool

section Calls

variable {T Cb : Type} [Movable T]

def Called.ofOutcome (out : Outcome T Cb) : Called T Cb :=
  ⟨out.channel, out.result.value, out.notified, out.result.status.blocked, out.result.status.success⟩

def Call.perform (ch : BufferedChannel T Cb) : Call T Cb → Called T Cb
  | .write t onBlocked => .ofOutcome (ch.write t onBlocked)
  | .read t onBlocked => .ofOutcome (ch.read t onBlocked)
  | .close => ⟨ch.close.2, none, ch.close.1, false, true⟩
  | .exchangeRead onBlocked =>
      ⟨(ch.exchangeReadNotifyCb onBlocked).2, (ch.exchangeReadNotifyCb onBlocked).1, none,
        ch.queue.isEmpty, false⟩
  | .exchangeWrite onBlocked =>
      ⟨(ch.exchangeWriteNotifyCb onBlocked).2, (ch.exchangeWriteNotifyCb onBlocked).1, none,
        ch.queue.length == ch.maxSize, false⟩

/-- The callback that the call has at hand. -/
def Call.onBlocked : Call T Cb → Option Cb
  | .write _ onBlocked => onBlocked
  | .read _ onBlocked => onBlocked
  | .close => none
  | .exchangeRead onBlocked => onBlocked
  | .exchangeWrite onBlocked => onBlocked

/-- The call is one of the exchanges, and what it stores is a callback. -/
def Call.Stores (ch : BufferedChannel T Cb) : Call T Cb → Prop
  | .exchangeRead (some _) => ch.queue.isEmpty = true
  | .exchangeWrite (some _) => ch.queue.length = ch.maxSize
  | _ => False

/-- What a call does to the slot: nothing, exchange its callback, or take it out. -/
inductive Slot (ch : BufferedChannel T Cb) (call : Call T Cb) : Called T Cb → Prop where
  | kept : Slot ch call ⟨ch, none, none, false, false⟩
  | exchanged (edge : ch.queue = [] ∨ ch.queue.length = ch.maxSize)
      (closed : ch.closed = true → call.onBlocked.isSome = true → call.Stores ch) :
      Slot ch call ⟨{ ch with notify := call.onBlocked }, ch.notify, none, true, false⟩
  | taken {queue : List T} {closed : Bool} (bounded : queue.length ≤ ch.maxSize) :
      Slot ch call ⟨{ ch with queue, closed, notify := none }, none, ch.notify, false, true⟩

theorem Call.slot {ch : BufferedChannel T Cb} (bounded : ch.queue.length ≤ ch.maxSize)
    (call : Call T Cb) : Slot ch call (call.perform ch) := by
  cases call with
  | write t onBlocked =>
      have effect := streamOp_effect .write ch t onBlocked
      simp only [Call.perform]
      change Slot ch _ (.ofOutcome (streamOp .write ch t onBlocked))
      generalize streamOp .write ch t onBlocked = out at effect
      cases effect with
      | wrote _ _ room =>
          refine .taken ?_
          rw [List.length_append]
          exact room
      | gave isRead _ => cases isRead
      | closed => exact .kept
      | blocked notReady =>
          simp only [BufferedChannel.Ready, not_or, Nat.not_lt] at notReady
          refine .exchanged (.inr (Nat.le_antisymm bounded notReady.1)) fun closed => ?_
          exact absurd closed notReady.2
  | read t onBlocked =>
      have effect := streamOp_effect .read ch t onBlocked
      simp only [Call.perform]
      change Slot ch _ (.ofOutcome (streamOp .read ch t onBlocked))
      generalize streamOp .read ch t onBlocked = out at effect
      cases effect with
      | wrote isWrite _ _ => cases isWrite
      | gave _ contents =>
          refine .taken ?_
          rw [contents, List.length_cons] at bounded
          exact Nat.le_of_succ_le bounded
      | closed => exact .kept
      | blocked notReady =>
          simp only [BufferedChannel.Ready, not_or, not_not] at notReady
          exact .exchanged (.inl notReady.1) fun closed => absurd closed notReady.2
  | close => exact .taken bounded
  | exchangeRead onBlocked =>
      simp only [Call.perform, BufferedChannel.exchangeReadNotifyCb]
      cases empty : ch.queue.isEmpty with
      | true =>
          refine .exchanged (.inl (List.isEmpty_iff.mp empty)) fun _ some => ?_
          cases onBlocked with
          | none => cases some
          | some cb => exact empty
      | false => exact .kept
  | exchangeWrite onBlocked =>
      simp only [Call.perform, BufferedChannel.exchangeWriteNotifyCb]
      by_cases full : ch.queue.length = ch.maxSize
      · simp only [full, if_true, beq_self_eq_true]
        refine .exchanged (.inr full) fun _ some => ?_
        cases onBlocked with
        | none => cases some
        | some cb => exact full
      · simp only [full, if_false, beq_eq_false_iff_ne.mpr full]
        exact .kept

/-! ### What a stored callback says about the channel -/

def BufferedChannel.step (ch : BufferedChannel T Cb) (call : Call T Cb) :
    Option (BufferedChannel T Cb) :=
  some (call.perform ch).channel

/-- A callback is stored only while the channel is open, and empty or full. -/
structure BufferedChannel.Represents (ch : BufferedChannel T Cb) : Prop where
  opened : ch.notify.isSome = true → ch.closed = false
  edge : ch.notify.isSome = true → ch.queue = [] ∨ ch.queue.length = ch.maxSize
  /-- so the assertions hold, whichever function is called next -/
  write : ch.writeAsserts = true
  read : ch.readAsserts = true

/-- The call stores no callback in a channel that is closed. -/
def Call.Open (ch : BufferedChannel T Cb) (call : Call T Cb) : Prop :=
  ch.closed = true → ¬ call.Stores ch

omit [Movable T] in
theorem represents_of_notify {ch : BufferedChannel T Cb}
    (stored : ch.notify.isSome = true → ch.closed = false ∧ (ch.queue = [] ∨ ch.queue.length = ch.maxSize)) :
    ch.Represents := by
  refine ⟨fun some => (stored some).1, fun some => (stored some).2, ?_, ?_⟩
  · unfold BufferedChannel.writeAsserts
    cases notify : ch.notify with
    | none => simp
    | some cb =>
        obtain ⟨isOpen, edge⟩ := stored (by rw [notify]; rfl)
        rcases edge with empty | full
        · simp [isOpen, empty]
        · simp [isOpen, full]
  · unfold BufferedChannel.readAsserts
    cases notify : ch.notify with
    | none => cases ch.queue <;> simp
    | some cb =>
        obtain ⟨isOpen, edge⟩ := stored (by rw [notify]; rfl)
        cases contents : ch.queue with
        | nil => simp [isOpen]
        | cons t queue =>
            rw [contents] at edge
            rcases edge with empty | full
            · cases empty
            · simp [full]

theorem step_bounded (ch : BufferedChannel T Cb) (call : Call T Cb) (ch' : BufferedChannel T Cb)
    (bounded : ch.queue.length ≤ ch.maxSize) (stepped : ch.step call = some ch') :
    ch'.queue.length ≤ ch'.maxSize := by
  cases stepped
  have slot := call.slot bounded
  generalize call.perform ch = called at slot
  cases slot with
  | kept => exact bounded
  | exchanged => exact bounded
  | taken bounded' => exact bounded'

/-- After a call all is well exactly if it has stored no callback in a closed channel. -/
theorem step_represents_iff (ch : BufferedChannel T Cb) (call : Call T Cb) (ch' : BufferedChannel T Cb)
    (bounded : ch.queue.length ≤ ch.maxSize) (holds : ch.Represents) (stepped : ch.step call = some ch') :
    ch'.Represents ↔ call.Open ch := by
  cases stepped
  constructor
  · intro represents closed stores
    have stored : (call.perform ch).channel.closed = true ∧
        (call.perform ch).channel.notify.isSome = true := by
      cases call with
      | exchangeRead onBlocked =>
          cases onBlocked with
          | none => exact stores.elim
          | some cb =>
              have empty : ch.queue.isEmpty = true := stores
              simp [Call.perform, BufferedChannel.exchangeReadNotifyCb, BufferedChannel.exchangeNotify,
                empty, closed]
      | exchangeWrite onBlocked =>
          cases onBlocked with
          | none => exact stores.elim
          | some cb =>
              have full : ch.queue.length = ch.maxSize := stores
              simp [Call.perform, BufferedChannel.exchangeWriteNotifyCb, BufferedChannel.exchangeNotify,
                full, closed]
      | write => exact stores.elim
      | read => exact stores.elim
      | close => exact stores.elim
    have isOpen := represents.opened stored.2
    rw [stored.1] at isOpen
    cases isOpen
  · intro isOpen
    have slot := call.slot bounded
    generalize call.perform ch = called at slot
    cases slot with
    | kept => exact holds
    | exchanged edge stores =>
        refine represents_of_notify fun some => ⟨?_, edge⟩
        cases closed : ch.closed with
        | false => rfl
        | true => exact absurd (stores closed some) (isOpen closed)
    | taken => exact represents_of_notify fun some => by cases some

/-- **What a stored callback says.** Through any calls it says that the channel is open, and
empty or full, exactly if none of them stores a callback in a closed channel. -/
theorem represents_iff_open (maxSize : Nat) (calls : List (Call T Cb)) :
    (∀ before after ch, before ++ after = calls →
      run BufferedChannel.step (.create maxSize) before = some ch → ch.Represents) ↔
        Meets BufferedChannel.step (fun ch call => call.Open ch) (.create maxSize) calls := by
  refine @System.holds_iff_meets _ _ BufferedChannel.step (fun ch call => call.Open ch) (.create maxSize)
    (fun ch => ch.queue.length ≤ ch.maxSize) _ (Nat.zero_le _) (represents_of_notify fun some => by cases some)
    (fun ch call ch' bounded _ => step_bounded ch call ch' bounded) step_represents_iff ?_ calls
  exact fun ch call _ _ => ⟨_, rfl⟩

end Calls

/-- An exchange on a channel that is closed. -/
theorem not_represents_exchange :
    ¬ ∀ calls : List (Call String Nat), ∀ before after ch, before ++ after = calls →
      run BufferedChannel.step (.create 1) before = some ch → ch.Represents := by
  intro always
  have represents := always [.close, .exchangeRead (some 0)] _ [] _ (List.append_nil _) rfl
  cases represents.opened rfl

/-! ### Where a callback goes -/

/-- What a caller asks of the channel, and whether its `on_blocked` gives a callback. -/
inductive Request (T : Type) where
  | write (t : T) (gives : Bool)
  | read (t : T) (gives : Bool)
  | close
  | exchangeRead (gives : Bool)
  | exchangeWrite (gives : Bool)

/-- The request with the next callback. -/
def Request.call {T : Type} (next : Nat) : Request T → Call T Nat
  | .write t gives => .write t (if gives then some next else none)
  | .read t gives => .read t (if gives then some next else none)
  | .close => .close
  | .exchangeRead gives => .exchangeRead (if gives then some next else none)
  | .exchangeWrite gives => .exchangeWrite (if gives then some next else none)

/-- A channel and its callers. The callbacks that `on_blocked` has given are numbered. -/
structure Custody (T : Type) where
  channel : BufferedChannel T Nat
  /-- the number of the next callback -/
  made : Nat
  /-- the callbacks that were handed back, each with the caller that has it -/
  handed : List (Nat × Nat)
  /-- those that a caller has taken out and is about to invoke -/
  calling : List (Nat × Nat)
  invoked : List Nat

namespace Custody

variable {T : Type} [Movable T]

inductive Action (T : Type) where
  | call (caller : Nat) (request : Request T)
  /-- `notify()`, after the unlock -/
  | invoke (caller cb : Nat)

def start (maxSize : Nat) : Custody T := ⟨.create maxSize, 0, [], [], []⟩

/-- What is left of a request, for the caller and for the others. -/
def request (s : Custody T) (caller : Nat) (request : Request T) : Custody T :=
  let call := request.call s.made
  let called := call.perform s.channel
  { s with
    channel := called.channel
    made := if called.asked && call.onBlocked.isSome then s.made + 1 else s.made
    handed := s.handed ++ called.displaced.toList.map (caller, ·)
    calling := s.calling ++ called.notified.toList.map (caller, ·) }

/-- A caller goes on once it has invoked what it has taken out. -/
def step (s : Custody T) : Action T → Option (Custody T)
  | .call caller request =>
      if caller ∈ s.calling.map Prod.fst then none else some (s.request caller request)
  | .invoke caller cb =>
      if (caller, cb) ∈ s.calling then
        some { s with calling := s.calling.erase (caller, cb), invoked := s.invoked ++ [cb] }
      else none

/-- The callbacks that were taken out to be invoked, and perhaps have been. -/
def taken (s : Custody T) : List Nat := s.calling.map Prod.snd ++ s.invoked

/-- All places where a callback can be. -/
def places (s : Custody T) : List Nat := s.channel.notify.toList ++ s.handed.map Prod.snd ++ s.taken

/-- Each callback is in one place. -/
structure Inv (s : Custody T) : Prop where
  bounded : s.channel.queue.length ≤ s.channel.maxSize
  places : ∀ cb, s.places.count cb = if cb < s.made then 1 else 0

omit [Movable T] in
theorem inv_start (maxSize : Nat) : (start maxSize : Custody T).Inv :=
  ⟨Nat.zero_le _, fun cb => by simp [places, taken, start, BufferedChannel.create]⟩

omit [Movable T] in
theorem onBlocked_call (next : Nat) (request : Request T) :
    (request.call next).onBlocked = none ∨ (request.call next).onBlocked = some next := by
  cases request with
  | close => exact .inl rfl
  | write t gives => cases gives <;> simp [Request.call, Call.onBlocked]
  | read t gives => cases gives <;> simp [Request.call, Call.onBlocked]
  | exchangeRead gives => cases gives <;> simp [Request.call, Call.onBlocked]
  | exchangeWrite gives => cases gives <;> simp [Request.call, Call.onBlocked]

theorem Inv.request {s : Custody T} (inv : s.Inv) (caller : Nat) (request : Request T) :
    (s.request caller request).Inv := by
  have kept := inv.places
  have slot := (request.call s.made).slot inv.bounded
  have given := onBlocked_call s.made request
  unfold Custody.request
  simp only
  generalize request.call s.made = call at slot given
  generalize call.perform s.channel = called at slot
  cases slot with
  | kept =>
      constructor
      · exact inv.bounded
      · intro cb
        simpa [Custody.places, Custody.taken] using kept cb
  | taken bounded =>
      constructor
      · exact bounded
      · intro cb
        have before := kept cb
        simp only [Custody.places, Custody.taken, List.count_append] at before
        simp [Custody.places, Custody.taken, List.count_append, Function.comp_def]
        omega
  | exchanged =>
      refine ⟨inv.bounded, fun cb => ?_⟩
      have before := kept cb
      simp only [Custody.places, Custody.taken, List.count_append] at before
      rcases given with none | some
      · simp [Custody.places, Custody.taken, List.count_append, Function.comp_def, none]
        omega
      · simp only [Custody.places, Custody.taken, some, List.count_append, List.map_append,
          List.map_map, Function.comp_def, List.map_id', Option.toList_some, Option.toList_none,
          List.map_nil, List.append_nil, Option.isSome_some, Bool.and_self, if_true,
          List.count_singleton, beq_iff_eq]
        -- the new callback has been nowhere before
        by_cases same : s.made = cb
        · subst same
          simp only [Nat.lt_irrefl, if_false] at before
          simp only [if_true, Nat.lt_succ_self]
          omega
        · rw [if_neg same]
          split at before <;> split <;> omega

omit [Movable T] in
theorem Inv.invoke {s : Custody T} (inv : s.Inv) {caller cb : Nat} (calling : (caller, cb) ∈ s.calling) :
    Inv { s with calling := s.calling.erase (caller, cb), invoked := s.invoked ++ [cb] } := by
  constructor
  · exact inv.bounded
  · intro other
    have before := inv.places other
    have moved := ((List.perm_cons_erase calling).map Prod.snd).count_eq other
    simp only [Custody.places, Custody.taken, List.count_append, List.map_cons, List.count_cons,
      List.count_nil] at before moved ⊢
    omega

theorem step_inv (s : Custody T) (action : Action T) (s' : Custody T) (inv : s.Inv)
    (stepped : s.step action = some s') : s'.Inv := by
  cases action with
  | call caller request =>
      simp only [step] at stepped
      split at stepped
      · cases stepped
      · cases stepped
        exact inv.request caller request
  | invoke caller cb =>
      simp only [step] at stepped
      split at stepped
      · rename_i calling
        cases stepped
        exact inv.invoke calling
      · cases stepped

/-- What becomes of the callbacks that were made. -/
structure Kept (s : Custody T) : Prop where
  /-- Each is stored, or was handed back, or was taken out: one of these, and once. -/
  one : ∀ cb < s.made,
    s.channel.notify.toList.count cb + (s.handed.map Prod.snd).count cb + s.taken.count cb = 1
  /-- There are no others. -/
  made : ∀ cb ∈ s.places, cb < s.made
  /-- None is left by a successful `write` or `read`, or a `close`. -/
  cleared : ∀ call : Call T Nat, (call.perform s.channel).settled = true →
    (call.perform s.channel).channel.notify = none

/-- **The custody of callbacks.** However the callers' requests and invocations take turns,
each callback that `on_blocked` has given is in one place. -/
theorem kept_of_reachable {s : Custody T} {maxSize : Nat}
    (reached : Reachable step Free (start maxSize) s) : s.Kept := by
  have inv := reached.invariant (inv_start maxSize) fun s action s' inv _ => step_inv s action s' inv
  refine ⟨fun cb old => ?_, fun cb member => ?_, fun call settled => ?_⟩
  · have place := inv.places cb
    rw [if_pos old] at place
    rw [← place, Custody.places, List.count_append, List.count_append]
  · have place := inv.places cb
    have positive := List.count_pos_iff.mpr member
    by_cases old : cb < s.made
    · exact old
    · rw [if_neg old] at place
      omega
  · have slot := call.slot inv.bounded
    generalize call.perform s.channel = called at slot settled
    cases slot with
    | kept => cases settled
    | exchanged => cases settled
    | taken => rfl

/-- The waiting callback of a reader is displaced by a second reader's, and that one is taken
out by a writer. -/
theorem kept_of_reachable_displaced :
    ∃ s : Custody String, run step (start 1)
      [.call 0 (.read "" true), .call 1 (.read "" true), .call 2 (.write "a" true), .invoke 2 1] = some s ∧
      s.made = 2 ∧ s.handed = [(1, 0)] ∧ s.invoked = [1] ∧ s.Kept :=
  ⟨_, rfl, rfl, rfl, rfl, @kept_of_reachable String _ _ 1 (System.reachable_of_run
    [.call 0 (.read "" true), .call 1 (.read "" true), .call 2 (.write "a" true), .invoke 2 1] rfl)⟩

end Custody

end AlpacaCore.Io
