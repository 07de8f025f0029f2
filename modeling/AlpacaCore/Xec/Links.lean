import Mathlib.Data.List.Nodup
import AlpacaCore.Xec.Stack

/-!
The links between the promises, and the stack they stand for.

`Rep` says what the frames are while a coroutine runs: from its promise on, `m_prev` leads
from caller to caller to the helper of `co_execute`, `m_result` is the awaitable the caller is
suspended at, and `m_generated` is that too if the caller has called `next`, and null if not.
Each step of `Machine` keeps that and does what the step of `State` does.
-/

namespace AlpacaCore.Xec

open Function (update update_self update_of_ne update_idem)

variable {C V X E M : Type}

/-- The coroutine that `next` was called of. -/
def Resume.Calls (h : Nat) : Resume C V X → Prop
  | .gen g _ => g = h
  | _ => True

/-- A caller, with the awaitable it is suspended at. -/
structure Link (C V X : Type) where
  caller : Nat
  awaitable : Nat
  resume : Resume C V X

def Link.entry (l : Link C V X) : Nat × Resume C V X := (l.caller, l.resume)

/-- What `next` has returned so far is what the body has yielded, and at last how it ended. -/
structure Logged (f : Frame C V X E) : Prop where
  received : f.promise.generated.isSome = true →
    f.received = f.yields.map (fun v => .ok (.yielded v)) ++ f.outcome.toList.map Item.ended
  ended : f.outcome.isSome = true ↔ f.point = .final

def Frame.obj (f : Frame C V X E) : Obj C :=
  match f.point with
  | .initial body => .fresh body
  | .yielded k => .yielded k
  | .awaiting _ _ => .busy
  | .running => .busy
  | .final => .finished

/-- The frame of the object. -/
inductive Shows (ex : E) : Option (Frame C V X E) → Option (Obj C) → Prop where
  | none : Shows ex none none
  | fresh {body : C} : Shows ex (some { point := .initial body }) (some (.fresh body))
  | yielded {f : Frame C V X E} {k : C} (point : f.point = .yielded k)
      (executor : f.promise.executor = some ex) (generator : f.promise.generated.isSome = true)
      (logged : Logged f) : Shows ex (some f) (some (.yielded k))
  | busy {f : Frame C V X E} (point : f.point = .running ∨ ∃ a resume, f.point = .awaiting a resume)
      (executor : f.promise.executor = some ex) (logged : Logged f) : Shows ex (some f) (some .busy)
  | finished {f : Frame C V X E} (point : f.point = .final)
      (executor : f.promise.executor = some ex) (logged : Logged f) :
      Shows ex (some f) (some .finished)

/-- The links from the coroutine on. -/
def Linked (ex : E) (κ : Machine C V X E M) : Nat → List (Link C V X) → Prop
  | _, [] => False
  | h, l :: rest => ∃ f caller, κ.frames h = some f ∧
      f.promise = ⟨some ex, some l.caller, some l.awaitable, l.resume.generated l.awaitable none⟩ ∧
      κ.awaitables l.awaitable = some {} ∧ κ.frames l.caller = some caller ∧
      caller.point = .awaiting l.awaitable l.resume ∧ l.resume.Calls h ∧
      match l.resume with
      | .helper => rest = []
      | _ => Linked ex κ l.caller rest

/-- The frames of the objects, and the memory. -/
structure Frames (ex : E) (κ : Machine C V X E M) (w : World C M) : Prop where
  mem : κ.mem = w.mem
  born : κ.born = w.born
  shows : ∀ j, Shows ex (κ.frames j) (w.objs j)
  unborn : ∀ j, κ.born ≤ j → κ.frames j = none

structure Rep (ex : E) (κ : Machine C V X E M) (w : World C M) (h : Nat) (c : C)
    (links : List (Link C V X)) : Prop where
  frames : Frames ex κ w
  running : κ.running = some (h, c)
  returned : κ.returned = none
  current : ∃ f, κ.frames h = some f ∧ f.point = .running
  linked : Linked ex κ h links
  callers : (h :: links.map Link.caller).Nodup
  made : ∀ l ∈ links, l.awaitable < κ.made
  awaitables : (links.map Link.awaitable).Nodup

section Basic

variable {ex : E} {κ κ' : Machine C V X E M} {w : World C M} {h : Nat} {c : C}
  {links : List (Link C V X)}

/-- The links are in the promises, in the callers and in their awaitables. -/
theorem Linked.congr (linked : Linked ex κ h links)
    (promise : ∀ f, κ.frames h = some f → ∃ f', κ'.frames h = some f' ∧ f'.promise = f.promise)
    (callers : ∀ l ∈ links, κ'.frames l.caller = κ.frames l.caller)
    (awaitables : ∀ l ∈ links, κ'.awaitables l.awaitable = κ.awaitables l.awaitable) :
    Linked ex κ' h links := by
  induction links generalizing h with
  | nil => exact linked
  | cons l rest ih =>
      obtain ⟨f, caller, there, links, empty, waits, point, calls, later⟩ := linked
      obtain ⟨f', there', same⟩ := promise f there
      have sameCaller := callers l List.mem_cons_self
      refine ⟨f', caller, there', same.trans links, ?_, sameCaller.trans waits, point, calls, ?_⟩
      · rw [awaitables l List.mem_cons_self]
        exact empty
      · have tail : Linked ex κ l.caller rest → Linked ex κ' l.caller rest := fun linked =>
          ih linked (fun f there => ⟨f, sameCaller.trans there, rfl⟩)
            (fun l' member => callers l' (List.mem_cons_of_mem _ member))
            (fun l' member => awaitables l' (List.mem_cons_of_mem _ member))
        cases kind : l.resume with
        | result k => simp only [kind] at later ⊢; exact tail later
        | gen g k => simp only [kind] at later ⊢; exact tail later
        | helper => simp only [kind] at later ⊢; exact later

/-- A caller is suspended at its awaitable, which has nothing yet. -/
theorem Linked.link (linked : Linked ex κ h links) {l : Link C V X} (member : l ∈ links) :
    κ.awaitables l.awaitable = some {} ∧
      ∃ f, κ.frames l.caller = some f ∧ f.point = .awaiting l.awaitable l.resume := by
  induction links generalizing h with
  | nil => cases member
  | cons first rest ih =>
      obtain ⟨f, caller, -, -, empty, waits, point, -, later⟩ := linked
      rcases List.mem_cons.mp member with rfl | member
      · exact ⟨empty, caller, waits, point⟩
      · cases kind : first.resume with
        | result k => simp only [kind] at later; exact ih later member
        | gen g k => simp only [kind] at later; exact ih later member
        | helper => simp only [kind] at later; rw [later] at member; cases member

theorem Linked.empty (linked : Linked ex κ h links) {l : Link C V X} (member : l ∈ links) :
    κ.awaitables l.awaitable = some {} := (linked.link member).1

theorem Linked.waits (linked : Linked ex κ h links) {l : Link C V X} (member : l ∈ links) :
    ∃ f, κ.frames l.caller = some f ∧ f.point = .awaiting l.awaitable l.resume :=
  (linked.link member).2

/-- Neither end is the end of the body. -/
theorem Logged.move {f : Frame C V X E} (logged : Logged f) (going : f.point ≠ .final)
    {point : Point C V X} (goes : point ≠ .final) : Logged { f with point } :=
  ⟨logged.received, fun some => absurd (logged.ended.mp some) going, fun final => absurd final goes⟩

theorem Logged.finish {f : Frame C V X E} (generated : f.promise.generated = none) (r : Except X V) :
    Logged ({ f with point := .final, outcome := some r } : Frame C V X E) := by
  refine ⟨fun generator => ?_, fun _ => rfl, fun _ => rfl⟩
  rw [generated] at generator
  cases generator

theorem Shows.logged {f : Frame C V X E} {obj : Option (Obj C)} (shows : Shows ex (some f) obj) :
    Logged f := by
  cases shows with
  | fresh => exact ⟨by simp, by simp⟩
  | yielded point executor generator logged => exact logged
  | busy point executor logged => exact logged
  | finished point executor logged => exact logged

theorem Shows.obj {frame : Option (Frame C V X E)} {obj : Option (Obj C)}
    (shows : Shows ex frame obj) : obj = frame.map Frame.obj := by
  cases shows with
  | none => rfl
  | fresh => rfl
  | yielded point => simp only [Option.map_some, Frame.obj, point]
  | busy point =>
      rcases point with point | ⟨a, resume, point⟩ <;> simp only [Option.map_some, Frame.obj, point]
  | finished point => simp only [Option.map_some, Frame.obj, point]

theorem Frames.busy_of_point {f : Frame C V X E} {j : Nat} (frames : Frames ex κ w)
    (there : κ.frames j = some f)
    (point : f.point = .running ∨ ∃ a resume, f.point = .awaiting a resume) :
    w.objs j = some .busy := by
  rw [(frames.shows j).obj, there]
  rcases point with point | ⟨a, resume, point⟩ <;> simp only [Option.map_some, Frame.obj, point]

theorem Frames.of_busy {f : Frame C V X E} {j : Nat} (frames : Frames ex κ w)
    (there : κ.frames j = some f) (busy : w.objs j = some .busy) :
    Logged f ∧ f.promise.executor = some ex := by
  have shows := frames.shows j
  rw [there, busy] at shows
  cases shows with
  | busy point executor logged => exact ⟨logged, executor⟩

theorem Frames.ne_of_unborn {f : Frame C V X E} {i j : Nat} (frames : Frames ex κ w)
    (there : κ.frames i = some f) (later : κ.born ≤ j) : j ≠ i := by
  rintro rfl
  rw [frames.unborn j later] at there
  cases there

/-- The coroutines that are at work. -/
theorem Rep.busy (rep : Rep ex κ w h c links) {j : Nat} (member : j ∈ h :: links.map Link.caller) :
    w.objs j = some .busy := by
  rcases List.mem_cons.mp member with rfl | member
  · obtain ⟨f, there, point⟩ := rep.current
    exact rep.frames.busy_of_point there (.inl point)
  · obtain ⟨l, link, rfl⟩ := List.mem_map.mp member
    obtain ⟨f, there, point⟩ := rep.linked.waits link
    exact rep.frames.busy_of_point there (.inr ⟨_, _, point⟩)

theorem Rep.caller_ne (rep : Rep ex κ w h c links) {l : Link C V X} (member : l ∈ links) :
    l.caller ≠ h := by
  intro same
  exact (List.nodup_cons.mp rep.callers).1 (List.mem_map.mpr ⟨l, member, same⟩)

/-- A frame is written that shows an object. -/
theorem shows_update {f : Frame C V X E} {obj : Obj C} {g : Nat}
    {frames : Nat → Option (Frame C V X E)} {objs : Nat → Option (Obj C)}
    (shows : ∀ j, Shows ex (frames j) (objs j)) (written : Shows ex (some f) (some obj)) (j : Nat) :
    Shows ex (update frames g (some f) j) (update objs g (some obj) j) := by
  by_cases same : j = g
  · subst same
    rw [update_self, update_self]
    exact written
  · rw [update_of_ne same, update_of_ne same]
    exact shows j

/-- A frame is written that shows the same object. -/
theorem shows_rewrite {f : Frame C V X E} {g : Nat} {frames : Nat → Option (Frame C V X E)}
    {objs : Nat → Option (Obj C)} (shows : ∀ j, Shows ex (frames j) (objs j))
    (written : Shows ex (some f) (objs g)) (j : Nat) : Shows ex (update frames g (some f) j) (objs j) := by
  by_cases same : j = g
  · subst same
    rw [update_self]
    exact written
  · rw [update_of_ne same]
    exact shows j

/-! ### Going on -/

theorem Rep.goOn (rep : Rep ex κ w h c links) (c' : C) : Rep ex (κ.goOn h c') w h c' links :=
  ⟨⟨rep.frames.mem, rep.frames.born, rep.frames.shows, rep.frames.unborn⟩, rfl, rep.returned,
    rep.current, rep.linked.congr (fun f there => ⟨f, there, rfl⟩) (fun _ _ => rfl) fun _ _ => rfl,
    rep.callers, rep.made, rep.awaitables⟩

theorem Rep.set (rep : Rep ex κ w h c links) (m : M) (c' : C) :
    Rep ex ({ κ with mem := m }.goOn h c') { w with mem := m } h c' links :=
  ⟨⟨rfl, rep.frames.born, rep.frames.shows, rep.frames.unborn⟩, rfl, rep.returned, rep.current,
    rep.linked.congr (fun f there => ⟨f, there, rfl⟩) (fun _ _ => rfl) fun _ _ => rfl,
    rep.callers, rep.made, rep.awaitables⟩

theorem Rep.not_born (rep : Rep ex κ w h c links) {j : Nat}
    (member : j ∈ h :: links.map Link.caller) : j ≠ κ.born := by
  rintro rfl
  have busy := rep.busy member
  have shows := rep.frames.shows κ.born
  rw [rep.frames.unborn _ (Nat.le_refl _), busy] at shows
  cases shows

theorem Rep.create (rep : Rep ex κ w h c links) (body c' : C) :
    Rep ex ({ κ.setFrame κ.born { point := .initial body } with born := κ.born + 1 }.goOn h c')
      (w.create body) h c' links := by
  have others : ∀ j ∈ h :: links.map Link.caller,
      update κ.frames κ.born (some { point := .initial body }) j = κ.frames j :=
    fun j member => update_of_ne (rep.not_born member) _ _
  have here := others h List.mem_cons_self
  refine ⟨⟨rep.frames.mem, congrArg (· + 1) rep.frames.born, fun j => ?_, fun j later => ?_⟩, rfl,
    rep.returned, ?_, ?_, rep.callers, rep.made, rep.awaitables⟩
  · have shows : Shows ex (some ({ point := .initial body } : Frame C V X E)) (some (.fresh body)) := .fresh
    have updated := shows_update (g := κ.born) rep.frames.shows shows j
    rw [World.create, ← rep.frames.born]
    exact updated
  · have after : j ≠ κ.born := Nat.ne_of_gt later
    exact (update_of_ne after _ _).trans (rep.frames.unborn j (Nat.le_of_succ_le later))
  · obtain ⟨f, there, point⟩ := rep.current
    exact ⟨f, here.trans there, point⟩
  · refine rep.linked.congr (fun f there => ⟨f, here.trans there, rfl⟩) (fun l member => ?_) fun _ _ => rfl
    exact others _ (List.mem_cons_of_mem _ (List.mem_map.mpr ⟨l, member, rfl⟩))

/-! ### Awaiting -/

/-- A frame whose coroutine can be awaited so. -/
structure Awaited (f : Frame C V X E) (resume : Resume C V X) (body : C) : Prop where
  point : f.point = .initial body ∨ f.point = .yielded body
  /-- A generator that was resumed before is awaited through `next`. -/
  generator : f.promise.generated.isSome = true → ∃ g k, resume = .gen g k
  logged : Logged f
  fresh : f.promise.generated = none → f.received = [] ∧ f.yields = []

theorem Rep.awaited (rep : Rep ex κ w h c links) {g : Nat} {resume : Resume C V X} {body : C}
    (left : State.body w g resume = some body) :
    ∃ f, κ.frames g = some f ∧ Awaited f resume body := by
  have shows := rep.frames.shows g
  unfold State.body at left
  generalize w.objs g = obj at shows left
  generalize κ.frames g = frame at shows
  cases shows with
  | none => cases left
  | fresh =>
      cases left
      exact ⟨_, rfl, .inl rfl, nofun, ⟨nofun, by simp⟩, fun _ => ⟨rfl, rfl⟩⟩
  | @yielded f k point executor generator logged =>
      cases resume with
      | gen g k =>
          cases left
          refine ⟨f, rfl, .inr point, fun _ => ⟨g, k, rfl⟩, logged, fun none => ?_⟩
          rw [none] at generator
          cases generator
      | result k => cases left
      | helper => cases left
  | busy => cases left
  | finished => cases left

theorem Rep.not_left (rep : Rep ex κ w h c links) {g : Nat} {resume : Resume C V X} {body : C}
    (left : State.body w g resume = some body) {j : Nat} (member : j ∈ h :: links.map Link.caller) :
    j ≠ g := by
  rintro rfl
  simp only [State.body, rep.busy member] at left
  cases left

theorem Awaited.going {f : Frame C V X E} {resume : Resume C V X} {body : C}
    (awaited : Awaited f resume body) : f.point ≠ .final := by
  intro final
  rcases awaited.point with point | point <;> cases final.symm.trans point

/-- The frame of a coroutine that was awaited, once it runs. -/
theorem Awaited.shows {f : Frame C V X E} {resume : Resume C V X} {body : C} {caller a : Nat}
    (awaited : Awaited f resume body) :
    Shows ex (some ({ f with promise := ⟨some ex, some caller, some a, resume.generated a none⟩, point := .running } :
      Frame C V X E)) (some .busy) := by
  refine .busy (.inl rfl) rfl ⟨fun _ => ?_, (awaited.logged.move awaited.going (by simp)).ended⟩
  cases generated : f.promise.generated with
  | some a' => exact awaited.logged.received (by rw [generated]; rfl)
  | none =>
      obtain ⟨received, yields⟩ := awaited.fresh generated
      cases outcome : f.outcome with
      | none => simp only [received, yields, List.map_nil, Option.toList_none, List.append_nil]
      | some r => exact absurd (awaited.logged.ended.mp (by rw [outcome]; rfl)) awaited.going

theorem Awaited.generated {f : Frame C V X E} {resume : Resume C V X} {body : C}
    (awaited : Awaited f resume body) (a : Nat) :
    resume.generated a f.promise.generated = resume.generated a none := by
  cases before : f.promise.generated with
  | none => rfl
  | some a' =>
      obtain ⟨g, k, rfl⟩ := awaited.generator (by rw [before]; rfl)
      rfl

/-- The links that are written into the promise lead to the caller. -/
theorem Rep.awaitSuspend (rep : Rep ex κ w h c links) {g : Nat} {resume : Resume C V X} {body : C}
    (left : State.body w g resume = some body) (calls : resume.Calls g) (caller : resume ≠ .helper) :
    ∃ κ', κ.awaitSuspend h g resume = some κ' ∧
      Rep ex κ' (w.put g .busy) g body (⟨h, κ.made, resume⟩ :: links) := by
  obtain ⟨callee, there, awaited⟩ := rep.awaited left
  obtain ⟨f, current, point⟩ := rep.current
  have distinct : h ≠ g := rep.not_left left List.mem_cons_self
  obtain ⟨logged, executor⟩ := rep.frames.of_busy current (rep.busy List.mem_cons_self)
  let suspended : Frame C V X E := { f with point := .awaiting κ.made resume }
  let promise : Promise E := ⟨some ex, some h, some κ.made, resume.generated κ.made none⟩
  let entered : Frame C V X E := { callee with promise, point := .running }
  let frames := update (update κ.frames h (some suspended)) g (some entered)
  let κ' : Machine C V X E M := { κ with
    frames
    made := κ.made + 1
    awaitables := update κ.awaitables κ.made (some {})
    running := some (g, body) }
  have generated := awaited.generated κ.made
  refine ⟨κ', ?_, ?_⟩
  · simp only [Machine.awaitSuspend, current, Option.bind_some, Machine.setFrame,
      Machine.setAwaitable, update_of_ne distinct.symm, there, Machine.resume, update_self, generated,
      executor]
    rcases awaited.point with point | point <;>
      simp only [point, Machine.enter, Machine.setFrame, Machine.goOn, update_idem] <;> rfl
  · have others : ∀ l ∈ links, frames l.caller = κ.frames l.caller := by
      intro l member
      have isCaller : l.caller ∈ links.map Link.caller := List.mem_map.mpr ⟨l, member, rfl⟩
      have notThere : l.caller ≠ g := rep.not_left left (List.mem_cons_of_mem _ isCaller)
      exact (update_of_ne notThere _ _).trans (update_of_ne (rep.caller_ne member) _ _)
    have here : frames h = some suspended := (update_of_ne distinct _ _).trans (update_self _ _ _)
    have old : ∀ l ∈ links, update κ.awaitables κ.made (some {}) l.awaitable = κ.awaitables l.awaitable :=
      fun l member => update_of_ne (Nat.ne_of_lt (rep.made l member)) _ _
    have rest : Linked ex κ' h links := rep.linked.congr
      (fun f' there' => ⟨suspended, here, by cases current.symm.trans there'; rfl⟩) others old
    constructor
    · refine ⟨rep.frames.mem, rep.frames.born, shows_update (shows_rewrite rep.frames.shows ?_)
        awaited.shows, fun j later => ?_⟩
      · rw [rep.busy List.mem_cons_self]
        exact .busy (.inr ⟨_, _, rfl⟩) executor (logged.move (by simp [point]) (by simp))
      · have notHere := rep.frames.ne_of_unborn current later
        have notThere := rep.frames.ne_of_unborn there later
        exact (update_of_ne notThere _ _).trans
          ((update_of_ne notHere _ _).trans (rep.frames.unborn j later))
    · rfl
    · exact rep.returned
    · exact ⟨entered, update_self _ _ _, rfl⟩
    · refine ⟨entered, suspended, update_self _ _ _, rfl, update_self _ _ _, here, rfl, calls, ?_⟩
      cases resume with
      | gen g k => exact rest
      | result k => exact rest
      | helper => exact absurd rfl caller
    · refine List.nodup_cons.mpr ⟨fun member => ?_, rep.callers⟩
      exact rep.not_left left member rfl
    · intro l member
      rcases List.mem_cons.mp member with rfl | member
      · exact Nat.lt_succ_self _
      · exact Nat.lt_succ_of_lt (rep.made l member)
    · refine List.nodup_cons.mpr ⟨fun member => ?_, rep.awaitables⟩
      obtain ⟨l, member, same⟩ := List.mem_map.mp member
      exact absurd (rep.made l member) (by rw [same]; exact Nat.lt_irrefl _)

/-! ### Giving control back -/

/-- The frame of a coroutine that has given control to its caller, and that of the caller. -/
def Machine.back (κ : Machine C V X E M) (h : Nat) (f : Frame C V X E) (l : Link C V X)
    (caller : Frame C V X E) (c : C) : Machine C V X E M :=
  { κ with
    frames := update (update κ.frames h (some f)) l.caller (some { caller with point := .running })
    awaitables := update κ.awaitables l.awaitable none
    running := some (l.caller, c) }

theorem Rep.back {l : Link C V X} {rest : List (Link C V X)} {f caller : Frame C V X E} {obj : Obj C}
    (rep : Rep ex κ w h c (l :: rest)) (later : Linked ex κ l.caller rest)
    (waits : κ.frames l.caller = some caller) (shows : Shows ex (some f) (some obj)) (c' : C) :
    Rep ex (κ.back h f l caller c') (w.put h obj) l.caller c' rest := by
  have callers := rep.callers
  rw [List.map_cons, List.nodup_cons] at callers
  have distinct : l.caller ≠ h := rep.caller_ne List.mem_cons_self
  have awaitables := rep.awaitables
  rw [List.map_cons, List.nodup_cons] at awaitables
  obtain ⟨logged, executor⟩ :=
    rep.frames.of_busy waits (rep.busy (List.mem_cons_of_mem _ List.mem_cons_self))
  have suspended : caller.point ≠ .final := by
    obtain ⟨-, caller', -, -, -, waits', point, -, -⟩ := rep.linked
    cases waits.symm.trans waits'
    simp [point]
  refine ⟨⟨rep.frames.mem, rep.frames.born, ?_, fun j unborn => ?_⟩, rfl, rep.returned,
    ⟨_, update_self _ _ _, rfl⟩, ?_, callers.2, fun l' member => ?_, awaitables.2⟩
  · have busy : (w.put h obj).objs l.caller = some .busy :=
      (update_of_ne distinct _ _).trans (rep.busy (List.mem_cons_of_mem _ List.mem_cons_self))
    refine shows_rewrite (shows_update rep.frames.shows shows) ?_
    rw [busy]
    exact .busy (.inl rfl) executor (logged.move suspended (by simp))
  · obtain ⟨f', there, -⟩ := rep.current
    have notCaller := rep.frames.ne_of_unborn waits unborn
    have notHere := rep.frames.ne_of_unborn there unborn
    exact (update_of_ne notCaller _ _).trans
      ((update_of_ne notHere _ _).trans (rep.frames.unborn j unborn))
  · refine later.congr (fun f' there => ⟨_, update_self _ _ _, ?_⟩) (fun l' member => ?_)
      fun l' member => update_of_ne (fun same => ?_) _ _
    · cases waits.symm.trans there
      rfl
    · have isCaller : l'.caller ∈ rest.map Link.caller := List.mem_map.mpr ⟨l', member, rfl⟩
      have notCaller : l'.caller ≠ l.caller := fun same =>
        (List.nodup_cons.mp callers.2).1 (same ▸ isCaller)
      have notHere : l'.caller ≠ h := rep.caller_ne (List.mem_cons_of_mem _ member)
      exact (update_of_ne notCaller _ _).trans (update_of_ne notHere _ _)
    · exact awaitables.1 (List.mem_map.mpr ⟨l', member, same⟩)
  · exact rep.made l' (List.mem_cons_of_mem _ member)

end Basic

/-- The machine is where the stack machine is. -/
def Represents (ex : E) (κ : Machine C V X E M) : State C V X M → Prop
  | .running w h c stack => ∃ links, stack = links.map Link.entry ∧ Rep ex κ w h c links
  | .returned w r => Frames ex κ w ∧ κ.running = none ∧ κ.returned = some r

section Leave

variable {ex : E} {κ : Machine C V X E M} {w : World C M} {h : Nat} {c : C}
  {links : List (Link C V X)} {s' : State C V X M}

/-- What a coroutine leaves at its caller's awaitable is what the caller gets. -/
theorem resume_caller {l : Link C V X} {caller f : Frame C V X E} {aw : Awaitable V X}
    (waits : κ.frames l.caller = some caller) (point : caller.point = .awaiting l.awaitable l.resume)
    (distinct : l.caller ≠ h) :
    ((κ.setAwaitable l.awaitable (some aw)).setFrame h f).resume l.caller =
      (((κ.setAwaitable l.awaitable (some aw)).setFrame h f).setAwaitable l.awaitable none).awaitResume
        l.caller caller aw l.resume := by
  simp only [Machine.resume, Machine.setFrame, Machine.setAwaitable, update_of_ne distinct, waits,
    Option.bind_some, point, update_self]

/-- A coroutine that runs has not ended. -/
theorem Rep.going (rep : Rep ex κ w h c links) {f : Frame C V X E} (there : κ.frames h = some f) :
    f.outcome = none := by
  obtain ⟨f', there', running⟩ := rep.current
  cases there.symm.trans there'
  have ended := (rep.frames.of_busy there (rep.busy List.mem_cons_self)).1.ended
  rw [running] at ended
  cases outcome : f.outcome with
  | none => rfl
  | some r =>
      rw [outcome] at ended
      cases ended.mp rfl

theorem Rep.finish (rep : Rep ex κ w h c links) {r : Except X V}
    (left : State.leave w h (.ended r) (links.map Link.entry) = some s') :
    ∃ κ', κ.finish h r = some κ' ∧ Represents ex κ' s' := by
  cases links with
  | nil => cases left
  | cons l rest =>
      obtain ⟨f, caller, there, promise, empty, waits, point, calls, later⟩ := rep.linked
      have distinct : l.caller ≠ h := rep.caller_ne List.mem_cons_self
      obtain ⟨logged, executor⟩ := rep.frames.of_busy there (rep.busy List.mem_cons_self)
      have going := rep.going there
      have finished : κ.finish h r = (((κ.setAwaitable l.awaitable (some { result := some r })).setFrame h
          { f with point := .final, outcome := some r }).setAwaitable l.awaitable none).awaitResume
            l.caller caller { result := some r } l.resume := by
        simp only [Machine.finish, there, Option.bind_some, promise, empty]
        exact resume_caller waits point distinct
      rw [finished]
      obtain ⟨p, a, resume⟩ := l
      cases resume with
      | result k =>
          cases left
          have shows : Shows ex (some { f with point := .final, outcome := some r }) (some .finished) :=
            .finished rfl executor (.finish (by rw [promise]; rfl) r)
          refine ⟨_, ?_, rest, rfl, rep.back later waits shows (k r)⟩
          simp only [Machine.awaitResume, Option.map_some, Machine.enter, Machine.setFrame,
            Machine.setAwaitable, Machine.goOn, Machine.back, update_idem]
      | gen g k =>
          obtain rfl : g = h := calls
          cases left
          let f' : Frame C V X E := { f with
            point := .final, outcome := some r, received := f.received ++ [Item.ended r] }
          refine ⟨κ.back g f' ⟨p, a, .gen g k⟩ caller (k (Item.ended r)), ?_, rest, rfl,
            rep.back later waits ?_ _⟩
          · simp only [Machine.awaitResume, Awaitable.item, Option.map_some, Option.bind_some,
              Machine.enter, Machine.setFrame, Machine.setAwaitable, Machine.goOn, Machine.back,
              update_idem, update_self, f']
          · refine .finished rfl executor ⟨fun generator => ?_, by simp [f']⟩
            have before := logged.received generator
            simp only [going, Option.toList_none, List.map_nil, List.append_nil] at before
            simp only [f', before, Option.toList_some, List.map_cons, List.map_nil]
      | helper =>
          cases left
          refine ⟨_, rfl, ⟨rep.frames.mem, rep.frames.born, fun j => ?_, fun j unborn => ?_⟩, rfl, rfl⟩
          · by_cases same : j = p
            · subst same
              simp only [World.drop, update_self]
              exact .none
            · simp only [World.drop, update_of_ne same]
              have shows : Shows ex (some { f with point := .final, outcome := some r })
                  (some .finished) := .finished rfl executor (.finish (by rw [promise]; rfl) r)
              exact shows_update rep.frames.shows shows j
          · by_cases same : j = p
            · subst same
              exact update_self _ _ _
            · have notHere := rep.frames.ne_of_unborn there unborn
              exact (update_of_ne same _ _).trans
                ((update_of_ne notHere _ _).trans (rep.frames.unborn j unborn))

theorem Rep.yieldValue (rep : Rep ex κ w h c links) {v : V} {k : C}
    (generating : (Stack.generating (links.map Link.entry)) = true)
    (left : State.leave w h (.yielded v k) (links.map Link.entry) = some s') :
    ∃ κ', κ.yieldValue h v k = some κ' ∧ Represents ex κ' s' := by
  cases links with
  | nil => cases left
  | cons l rest =>
      obtain ⟨f, caller, there, promise, empty, waits, point, calls, later⟩ := rep.linked
      have distinct : l.caller ≠ h := rep.caller_ne List.mem_cons_self
      obtain ⟨logged, executor⟩ := rep.frames.of_busy there (rep.busy List.mem_cons_self)
      have going := rep.going there
      obtain ⟨p, a, resume⟩ := l
      cases resume with
      | result k => cases generating
      | helper => cases generating
      | gen g k' =>
          obtain rfl : g = h := calls
          cases left
          let f' : Frame C V X E := { f with
            point := .yielded k, yields := f.yields ++ [v]
            received := f.received ++ [.ok (.yielded v)] }
          have yielded : κ.yieldValue g v k = (((κ.setAwaitable a (some { gen := some v })).setFrame g
              { f with point := .yielded k, yields := f.yields ++ [v] }).setAwaitable a none).awaitResume
                p caller { gen := some v } (.gen g k') := by
            simp only [Machine.yieldValue, there, Option.bind_some, promise, Resume.generated, empty]
            exact resume_caller waits point distinct
          rw [yielded]
          refine ⟨κ.back g f' ⟨p, a, .gen g k'⟩ caller (k' (.ok (.yielded v))), ?_, rest, rfl,
            rep.back later waits ?_ _⟩
          · simp only [Machine.awaitResume, Awaitable.item, Option.map_some, Option.bind_some,
              Machine.enter, Machine.setFrame, Machine.setAwaitable, Machine.goOn, Machine.back,
              update_idem, update_self, f']
          · have generator : f.promise.generated.isSome = true := by rw [promise]; rfl
            refine .yielded rfl executor generator ⟨fun _ => ?_, ?_⟩
            · have before := logged.received generator
              simp only [going, Option.toList_none, List.map_nil, List.append_nil] at before
              simp only [f', before, going, Option.toList_none, List.map_nil, List.append_nil,
                List.map_append, List.map_cons]
            · simp [f', going]

/-- Where no generator is expected the value goes nowhere. -/
theorem Rep.discards (rep : Rep ex κ w h c links) {v : V} {k : C}
    (generating : (Stack.generating (links.map Link.entry)) = false) :
    ∃ κ', κ.yieldValue h v k = some κ' ∧ Rep ex κ' w h k links := by
  obtain ⟨f, there, point⟩ := rep.current
  obtain ⟨logged, executor⟩ := rep.frames.of_busy there (rep.busy List.mem_cons_self)
  have generated : f.promise.generated = none := by
    have linked := rep.linked
    cases links with
    | nil => exact linked.elim
    | cons l rest =>
        obtain ⟨f', caller, there', promise, -⟩ := linked
        cases there.symm.trans there'
        obtain ⟨p, a, resume⟩ := l
        cases resume with
        | result k => rw [promise]; rfl
        | helper => rw [promise]; rfl
        | gen g k => cases generating
  refine ⟨(κ.setFrame h { f with yields := f.yields ++ [v] }).goOn h k, ?_, ?_⟩
  · simp only [Machine.yieldValue, there, Option.bind_some, generated]
  · refine ⟨⟨rep.frames.mem, rep.frames.born, shows_rewrite rep.frames.shows ?_, fun j unborn => ?_⟩,
      rfl, rep.returned, ⟨_, update_self _ _ _, point⟩, ?_, rep.callers, rep.made, rep.awaitables⟩
    · rw [rep.busy List.mem_cons_self]
      refine .busy (.inl point) executor ⟨fun some => ?_, logged.ended⟩
      rw [generated] at some
      cases some
    · have notHere := rep.frames.ne_of_unborn there unborn
      exact (update_of_ne notHere _ _).trans (rep.frames.unborn j unborn)
    · refine rep.linked.congr (fun f' there' => ⟨_, update_self _ _ _, ?_⟩)
        (fun l member => update_of_ne (rep.caller_ne member) _ _) fun _ _ => rfl
      cases there.symm.trans there'
      rfl

end Leave

end AlpacaCore.Xec
