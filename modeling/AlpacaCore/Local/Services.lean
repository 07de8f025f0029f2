import AlpacaCore.Local.PluginManager
import Mathlib.Data.List.Forall2
import Mathlib.Data.List.Infix
import Mathlib.Logic.Function.Basic

/-!
The services of a `Backend`.

A service is found by a part of its name, and made when it is first found. Both happen with the lock
of the backend held, so that calls on several threads are steps one after the other; the session is
created without the lock. What a factory or a service returns or throws is a value of the call that
reaches it, and what the `info` of a factory has for a name is fixed.
-/

namespace AlpacaCore.Local

open AlpacaCore.System (run)
open Function (update)

/-- `find` of a string: where the match begins first. -/
def find : List Char → List Char → Option Nat
  | [], m => if m.isEmpty then some 0 else none
  | c :: s, m => if m.isPrefixOf (c :: s) then some 0 else (find s m).map (· + 1)

theorem find_isSome_iff (s m : List Char) : (find s m).isSome ↔ m <:+: s := by
  induction s with
  | nil => simp [find]
  | cons c s ih =>
      rw [find, List.infix_cons_iff, ← ih, ← List.isPrefixOf_iff_prefix]
      split
      · rename_i begins
        simp [begins]
      · rename_i differs
        simp [differs]

/-- `Backend::ServiceData`. A service is its number in `m_instantiatedServices`. -/
structure ServiceData where
  service : Option Nat
  factory : Nat
  pluginInfo : Option PluginInfo

/-- `Lib`: the factories that were registered there, and the global plugin manager. -/
structure Lib where
  freeServiceFactories : List Nat
  pluginManager : PluginManager

structure Backend where
  serviceDatas : List ServiceData
  /-- for each service the factory that has created it -/
  instantiatedServices : List Nat

namespace Backend

/-- The constructor of `ServiceData`. -/
def registerService (b : Backend) (factory : Nat) (pluginInfo : Option PluginInfo) : Backend :=
  { b with serviceDatas := b.serviceDatas ++ [⟨none, factory, pluginInfo⟩] }

def registerServices (b : Backend) (factories : List Nat) (pluginInfo : Option PluginInfo) : Backend :=
  factories.foldl (fun b factory => b.registerService factory pluginInfo) b

def registerPluginServices (b : Backend) (pluginInfo : PluginInfo) : Backend :=
  b.registerServices pluginInfo.serviceFactories (some pluginInfo)

def registerLibServices (b : Backend) (lib : Lib) : Backend :=
  lib.pluginManager.plugins.foldl registerPluginServices (b.registerServices lib.freeServiceFactories none)

/-- The constructor, as far as services go. -/
def construct (assetMgr : Nat) (lib : Lib) : Backend :=
  registerLibServices (registerService ⟨[], []⟩ assetMgr none) lib

/-- The loop of `getService`, and what becomes of the datas. The outer `none` is the end of the loop;
`created` is what `createService` comes to. -/
def getServiceFrom (name : Nat → String) (serviceNameMatch : String) (created : Except Thrown Unit)
    (instantiated : List Nat) :
    List ServiceData → Option (Except Thrown (Nat × List ServiceData × List Nat))
  | [] => none
  | sd :: rest =>
      if (find (name sd.factory).toList serviceNameMatch.toList).isSome then
        match sd.service with
        | some service => some (.ok (service, sd :: rest, instantiated))
        | none =>
            match created with
            | .error ex => some (.error ex)
            | .ok () =>
                let service := instantiated.length
                some (.ok (service, { sd with service := some service } :: rest, instantiated ++ [sd.factory]))
      else
        (getServiceFrom name serviceNameMatch created instantiated rest).map fun found =>
          found.map fun (service, rest, instantiated) => (service, sd :: rest, instantiated)

/-- `getService`: the service, or null, or what `createService` throws. -/
def getService (name : Nat → String) (b : Backend) (serviceNameMatch : String) (created : Except Thrown Unit) :
    Except Thrown (Option Nat) × Backend :=
  match getServiceFrom name serviceNameMatch created b.instantiatedServices b.serviceDatas with
  | none => (.ok none, b)
  | some (.error ex) => (.error ex, b)
  | some (.ok (service, serviceDatas, instantiatedServices)) =>
      (.ok (some service), ⟨serviceDatas, instantiatedServices⟩)

end Backend

/-- How a `connect` or an `attach` ended: with a session of the service, or with an exception. -/
inductive Connected where
  | session (serviceNameMatch : String) (service : Nat)
  | thrown (serviceNameMatch : String) (ex : Thrown)

/-- How it ends with what `createSession` comes to. -/
def Connected.of (serviceNameMatch : String) (service : Nat) : Except Thrown Unit → Connected
  | .ok () => .session serviceNameMatch service
  | .error ex => .thrown serviceNameMatch ex

/-- A backend, the threads that have got a service from it, and how their calls ended. -/
structure Serving where
  backend : Backend
  calls : Nat → Option (String × Nat)
  ended : List Connected

inductive ServiceAction where
  | registerService (factory : Nat) (pluginInfo : Option PluginInfo)
  /-- `connect` or `attach` on a thread, until it leaves the lock -/
  | getService (thread : Nat) (serviceNameMatch : String) (created : Except Thrown Unit)
  /-- `createSession` of the service it has got, and what this comes to -/
  | createSession (thread : Nat) (created : Except Thrown Unit)

namespace Serving

def start (assetMgr : Nat) (lib : Lib) : Serving := ⟨.construct assetMgr lib, fun _ => none, []⟩

def step (name : Nat → String) (s : Serving) : ServiceAction → Option Serving
  | .registerService factory pluginInfo =>
      some { s with backend := s.backend.registerService factory pluginInfo }
  | .getService thread m created =>
      match s.calls thread with
      | some _ => none
      | none =>
          match s.backend.getService name m created with
          | (.error ex, backend) => some { s with backend, ended := s.ended ++ [.thrown m ex] }
          | (.ok none, backend) => some { s with
              backend
              ended := s.ended ++ [.thrown m (.std ("Service not found: " ++ m))] }
          | (.ok (some service), backend) => some { s with
              backend
              calls := update s.calls thread (some (m, service)) }
  | .createSession thread created =>
      match s.calls thread with
      | none => none
      | some (m, service) => some { s with
          calls := update s.calls thread none
          ended := s.ended ++ [.of m service created] }

end Serving

/-! ### The directory -/

/-- What the backend is for: a directory of registrations, of which those that were found have a
service. A service is the number of its registration. -/
structure Directory where
  registered : List Nat
  /-- the registrations that have a service, in the order in which these were made -/
  made : List Nat
  calls : Nat → Option (String × Nat)
  ended : List Connected

/-- The first registration whose name has this part. -/
def resolve (name : Nat → String) (registered : List Nat) (m : String) : Option Nat :=
  registered.findIdx? fun factory => (find (name factory).toList m.toList).isSome

namespace Directory

def start (assetMgr : Nat) (lib : Lib) : Directory :=
  ⟨assetMgr :: lib.freeServiceFactories ++ lib.pluginManager.plugins.flatMap PluginInfo.serviceFactories,
    [], fun _ => none, []⟩

def step (name : Nat → String) (d : Directory) : ServiceAction → Option Directory
  | .registerService factory _ => some { d with registered := d.registered ++ [factory] }
  | .getService thread m created =>
      match d.calls thread with
      | some _ => none
      | none =>
          match resolve name d.registered m with
          | none => some { d with
              ended := d.ended ++ [.thrown m (.std ("Service not found: " ++ m))] }
          | some i =>
              if i ∈ d.made then some { d with calls := update d.calls thread (some (m, i)) }
              else
                match created with
                | .error ex => some { d with ended := d.ended ++ [.thrown m ex] }
                | .ok () => some { d with
                    made := d.made ++ [i]
                    calls := update d.calls thread (some (m, i)) }
  | .createSession thread created =>
      match d.calls thread with
      | none => none
      | some (m, i) => some { d with
          calls := update d.calls thread none
          ended := d.ended ++ [.of m i created] }

end Directory

/-- The same service, by its number and by its registration. -/
def Connected.Same (made : List Nat) : Connected → Connected → Prop
  | .session m service, .session m' i => m = m' ∧ made[service]? = some i
  | .thrown m ex, .thrown m' ex' => m = m' ∧ ex = ex'
  | _, _ => False

/-- The backend keeps this directory. -/
structure Directs (s : Serving) (d : Directory) : Prop where
  registered : s.backend.serviceDatas.map ServiceData.factory = d.registered
  services : ∀ (i : Nat) (sd : ServiceData), s.backend.serviceDatas[i]? = some sd →
    ∀ service, sd.service = some service ↔ d.made[service]? = some i
  made : d.made.Nodup ∧ ∀ i ∈ d.made, i < d.registered.length
  instantiated : s.backend.instantiatedServices.map some = d.made.map fun i => d.registered[i]?
  calls : ∀ thread, Option.Rel (fun call call' => call.1 = call'.1 ∧ d.made[call.2]? = some call'.2)
    (s.calls thread) (d.calls thread)
  ended : List.Forall₂ (Connected.Same d.made) s.ended d.ended

section Refinement

variable {name : Nat → String} {s : Serving} {d : Directory}

theorem getServiceFrom_eq (name : Nat → String) (m : String) (created : Except Thrown Unit)
    (instantiated : List Nat) (datas : List ServiceData) :
    Backend.getServiceFrom name m created instantiated datas =
      match resolve name (datas.map ServiceData.factory) m with
      | none => none
      | some i => datas[i]?.map fun (sd : ServiceData) =>
          match sd.service with
          | some service => .ok (service, datas, instantiated)
          | none => created.map fun () =>
              (instantiated.length, datas.set i { sd with service := some instantiated.length },
                instantiated ++ [sd.factory]) := by
  induction datas with
  | nil => rfl
  | cons sd rest ih =>
      simp only [Backend.getServiceFrom, resolve, List.map_cons, List.findIdx?_cons]
      split
      · rename_i found
        obtain ⟨service, factory, pluginInfo⟩ := sd
        cases service with
        | some service => simp
        | none => cases created <;> simp [Except.map]
      · rename_i differs
        rw [ih, resolve]
        generalize (rest.map ServiceData.factory).findIdx? _ = found
        cases found with
        | none => rfl
        | some i =>
            simp only [Option.map_some, List.getElem?_cons_succ, Option.map_map]
            congr 1
            funext sd'
            simp only [Function.comp_apply]
            cases sd'.service with
            | some service => rfl
            | none => cases created <;> rfl

theorem registerServices_eq (b : Backend) (factories : List Nat) (pluginInfo : Option PluginInfo) :
    b.registerServices factories pluginInfo =
      { b with serviceDatas := b.serviceDatas ++ factories.map fun factory => ⟨none, factory, pluginInfo⟩ } := by
  induction factories generalizing b with
  | nil => simp [Backend.registerServices]
  | cons factory rest ih =>
      rw [Backend.registerServices, List.foldl_cons]
      change (b.registerService factory pluginInfo).registerServices rest pluginInfo = _
      rw [ih]
      simp [Backend.registerService]

/-- The asset manager comes first, then the free factories, then the plugins' in their order. -/
theorem construct_eq (assetMgr : Nat) (lib : Lib) :
    Backend.construct assetMgr lib = ⟨⟨none, assetMgr, none⟩ ::
      lib.freeServiceFactories.map (fun factory => ⟨none, factory, none⟩) ++
      lib.pluginManager.plugins.flatMap (fun info =>
        info.serviceFactories.map fun factory => ⟨none, factory, some info⟩), []⟩ := by
  have plugins : ∀ (infos : List PluginInfo) (b : Backend), infos.foldl Backend.registerPluginServices b =
      { b with serviceDatas := b.serviceDatas ++ infos.flatMap (fun info =>
        info.serviceFactories.map fun factory => ⟨none, factory, some info⟩) } := by
    intro infos
    induction infos with
    | nil => simp
    | cons info rest ih =>
        intro b
        rw [List.foldl_cons, ih, Backend.registerPluginServices, registerServices_eq]
        simp
  rw [Backend.construct, Backend.registerLibServices, plugins, registerServices_eq]
  rfl

theorem directs_start (assetMgr : Nat) (lib : Lib) : Directs (.start assetMgr lib) (.start assetMgr lib) := by
  constructor
  · rw [Serving.start, construct_eq]
    simp [Directory.start, List.map_flatMap, Function.comp_def]
  · intro i sd there service
    rw [Serving.start, construct_eq] at there
    have unmade : sd.service = none := by
      have member := List.mem_of_getElem? there
      simp only [List.cons_append, List.mem_cons, List.mem_append, List.mem_map, List.mem_flatMap] at member
      rcases member with rfl | ⟨_, -, rfl⟩ | ⟨_, -, _, -, rfl⟩
      · rfl
      · rfl
      · rfl
    rw [unmade]
    constructor
    · intro absurd
      cases absurd
    · intro absurd
      cases absurd
  · exact ⟨.nil, fun _ member => by cases member⟩
  · rw [Serving.start, construct_eq]
    rfl
  · exact fun _ => .none
  · exact .nil

theorem Directs.register (directs : Directs s d) (factory : Nat) (pluginInfo : Option PluginInfo) :
    Directs { s with backend := s.backend.registerService factory pluginInfo }
      { d with registered := d.registered ++ [factory] } := by
  obtain ⟨registered, services, ⟨nodup, small⟩, instantiated, calls, ended⟩ := directs
  have length : s.backend.serviceDatas.length = d.registered.length := by
    rw [← registered, List.length_map]
  constructor
  · simp [Backend.registerService, registered]
  · intro i sd there service
    simp only [Backend.registerService, List.getElem?_append, List.getElem?_singleton] at there
    split at there
    · exact services i sd there service
    · rename_i outside
      split at there
      · cases there
        constructor
        · intro absurd
          cases absurd
        · intro made
          have below := small i (List.mem_of_getElem? made)
          omega
      · cases there
  · refine ⟨nodup, fun i member => ?_⟩
    have below := small i member
    simp only [List.length_append]
    omega
  · apply Eq.trans instantiated
    apply List.map_congr_left
    intro i member
    exact (List.getElem?_append_left (small i member)).symm
  · exact calls
  · exact ended

theorem Connected.Same.grow {made : List Nat} {e e' : Connected} (same : e.Same made e') (new : List Nat) :
    e.Same (made ++ new) e' := by
  cases e with
  | session m service =>
      cases e' with
      | session m' i =>
          obtain ⟨equal, there⟩ := same
          exact ⟨equal, by rw [List.getElem?_append_left (List.getElem?_eq_some_iff.mp there).1, there]⟩
      | thrown m' ex => exact same
  | thrown m ex =>
      cases e' with
      | session m' i => exact same
      | thrown m' ex' => exact same

theorem rel_update {A B : Type} {related : A → B → Prop} {f : Nat → Option A} {g : Nat → Option B}
    (all : ∀ t, Option.Rel related (f t) (g t)) (t : Nat) {a : Option A} {b : Option B}
    (here : Option.Rel related a b) (t' : Nat) : Option.Rel related (update f t a t') (update g t b t') := by
  by_cases same : t' = t
  · rw [same, Function.update_self, Function.update_self]
    exact here
  · rw [Function.update_of_ne same, Function.update_of_ne same]
    exact all t'

/-- A thread gets the service that its registration has. -/
theorem Directs.get (directs : Directs s d) (thread : Nat) (m : String) {service i : Nat}
    (there : d.made[service]? = some i) :
    Directs { s with calls := update s.calls thread (some (m, service)) }
      { d with calls := update d.calls thread (some (m, i)) } := by
  obtain ⟨registered, services, made, instantiated, calls, ended⟩ := directs
  exact ⟨registered, services, made, instantiated, rel_update calls thread (.some ⟨rfl, there⟩), ended⟩

theorem Directs.throws (directs : Directs s d) (m : String) (ex : Thrown) :
    Directs { s with ended := s.ended ++ [.thrown m ex] } { d with ended := d.ended ++ [.thrown m ex] } := by
  obtain ⟨registered, services, made, instantiated, calls, ended⟩ := directs
  have last : Connected.Same d.made (.thrown m ex) (.thrown m ex) := ⟨rfl, rfl⟩
  exact ⟨registered, services, made, instantiated, calls, List.rel_append ended (.cons last .nil)⟩

theorem Directs.count (directs : Directs s d) :
    s.backend.instantiatedServices.length = d.made.length := by
  rw [← List.length_map some, directs.instantiated, List.length_map]

/-- The service that is made is the next one. -/
theorem Directs.make (directs : Directs s d) {i : Nat} {sd : ServiceData}
    (there : s.backend.serviceDatas[i]? = some sd) (unmade : i ∉ d.made) :
    Directs
      { s with backend := ⟨s.backend.serviceDatas.set i
          { sd with service := some s.backend.instantiatedServices.length },
        s.backend.instantiatedServices ++ [sd.factory]⟩ }
      { d with made := d.made ++ [i] } := by
  have count := directs.count
  obtain ⟨registered, services, ⟨nodup, small⟩, instantiated, calls, ended⟩ := directs
  have named : d.registered[i]? = some sd.factory := by
    rw [← registered, List.getElem?_map, there]
    rfl
  have inside : i < d.registered.length := (List.getElem?_eq_some_iff.mp named).1
  have placed : i < s.backend.serviceDatas.length := (List.getElem?_eq_some_iff.mp there).1
  have grown : ∀ service j, (d.made ++ [i])[service]? = some j ↔
      d.made[service]? = some j ∨ service = d.made.length ∧ i = j := by
    intro service j
    rcases Nat.lt_trichotomy service d.made.length with less | rfl | more
    · rw [List.getElem?_append_left less]
      simp [Nat.ne_of_lt less]
    · simp
    · have outside : d.made.length ≤ service := Nat.le_of_lt more
      simp [List.getElem?_append_right outside, List.getElem?_eq_none outside, Nat.ne_of_gt more,
        Nat.sub_ne_zero_of_lt more]
  constructor
  · rw [← registered]
    apply List.ext_getElem?
    intro j
    rw [List.getElem?_map, List.getElem?_map, List.getElem?_set]
    split
    · rename_i same
      rw [← same, there]
      rfl
    · rfl
  · intro j sd' there' service
    rw [grown]
    rw [List.getElem?_set] at there'
    split at there'
    · rename_i same
      subst same
      cases there'
      have before : d.made[service]? ≠ some i := fun absurd => unmade (List.mem_of_getElem? absurd)
      simp [before, count, eq_comm]
    · rename_i differs
      rw [services j sd' there' service]
      simp [differs]
  · constructor
    · apply List.nodup_append.mpr ⟨nodup, by simp, _⟩
      rintro j member _ last rfl
      exact unmade (List.mem_singleton.mp last ▸ member)
    · intro j member
      rcases List.mem_append.mp member with before | last
      · exact small j before
      · rw [List.mem_singleton.mp last]
        exact inside
  · simp [instantiated, named]
  · intro thread
    have same := calls thread
    simp only
    generalize s.calls thread = call at same
    generalize d.calls thread = call' at same
    cases same with
    | none => exact .none
    | some same => exact .some ⟨same.1, (grown _ _).mpr (.inl same.2)⟩
  · exact ended.imp fun _ _ same => same.grow [i]

/-- What the loop comes to, in the directory. -/
theorem Directs.getService (directs : Directs s d) (name : Nat → String) (m : String) (created : Except Thrown Unit) :
    match resolve name d.registered m with
    | none => s.backend.getService name m created = (.ok none, s.backend)
    | some i => ∃ sd, s.backend.serviceDatas[i]? = some sd ∧ s.backend.getService name m created =
        match sd.service, created with
        | some service, _ => (.ok (some service), s.backend)
        | none, .error ex => (.error ex, s.backend)
        | none, .ok () => (.ok (some s.backend.instantiatedServices.length),
          ⟨s.backend.serviceDatas.set i { sd with service := some s.backend.instantiatedServices.length },
            s.backend.instantiatedServices ++ [sd.factory]⟩) := by
  simp only [Backend.getService, getServiceFrom_eq, directs.registered]
  cases resolved : resolve name d.registered m with
  | none => rfl
  | some i =>
      have inside : i < s.backend.serviceDatas.length := by
        obtain ⟨below, -⟩ := List.findIdx?_eq_some_iff_getElem.mp resolved
        rw [← directs.registered, List.length_map] at below
        exact below
      refine ⟨_, List.getElem?_eq_getElem inside, ?_⟩
      simp only [List.getElem?_eq_getElem inside, Option.map_some]
      cases (s.backend.serviceDatas[i]).service with
      | some service => rfl
      | none => cases created <;> rfl

theorem Directs.step (directs : Directs s d) (action : ServiceAction) :
    Option.Rel Directs (s.step name action) (d.step name action) := by
  cases action with
  | registerService factory pluginInfo => exact .some (directs.register factory pluginInfo)
  | createSession thread created =>
      have call := directs.calls thread
      simp only [Serving.step, Directory.step]
      generalize there : s.calls thread = here at call
      generalize there' : d.calls thread = here' at call
      cases call with
      | none => exact .none
      | @some call call' same =>
          obtain ⟨equal, made⟩ := same
          obtain ⟨registered, services, nodup, instantiated, calls, ended⟩ := directs
          have last : Connected.Same d.made (.of call.1 call.2 created) (.of call'.1 call'.2 created) := by
            cases created with
            | ok created => exact ⟨equal, made⟩
            | error ex => exact ⟨equal, rfl⟩
          exact .some ⟨registered, services, nodup, instantiated, rel_update calls thread .none,
            List.rel_append ended (.cons last .nil)⟩
  | getService thread m created =>
      have call := directs.calls thread
      have found := directs.getService name m created
      simp only [Serving.step, Directory.step]
      generalize there : s.calls thread = here at call
      generalize there' : d.calls thread = here' at call
      cases call with
      | some same => exact .none
      | none =>
          cases resolved : resolve name d.registered m with
          | none =>
              rw [resolved] at found
              simp only at found
              rw [found]
              exact .some (directs.throws m _)
          | some i =>
              rw [resolved] at found
              obtain ⟨sd, placed, found⟩ := found
              have services := directs.services i sd placed
              rw [found]
              cases given : sd.service with
              | some service =>
                  have made := (services service).mp given
                  simp only [if_pos (List.mem_of_getElem? made)]
                  exact .some (directs.get thread m made)
              | none =>
                  have unmade : i ∉ d.made := by
                    intro member
                    obtain ⟨j, made⟩ := List.mem_iff_getElem?.mp member
                    cases given.symm.trans ((services j).mpr made)
                  simp only [if_neg unmade]
                  cases created with
                  | error ex => exact .some (directs.throws m ex)
                  | ok created =>
                      have next : (d.made ++ [i])[s.backend.instantiatedServices.length]? = some i := by
                        rw [directs.count, List.getElem?_concat_length]
                      exact .some ((directs.make placed unmade).get thread m next)

end Refinement

theorem directs_of_run (name : Nat → String) (assetMgr : Nat) (lib : Lib) (actions : List ServiceAction) :
    Option.Rel Directs (run (Serving.step name) (.start assetMgr lib) actions)
      (run (Directory.step name) (.start assetMgr lib) actions) :=
  System.run_rel (fun _ _ action directs => directs.step action) (directs_start assetMgr lib) actions

/-- **What a backend comes to.** Whatever is registered and found on several threads, in any order,
the backend keeps the directory: it makes the services that the directory makes, in that order and
once each, and every call ends as in the directory. -/
theorem backend_keeps_directory (name : Nat → String) (assetMgr : Nat) (lib : Lib)
    (actions : List ServiceAction) :
    Option.Rel Directs (run (Serving.step name) (.start assetMgr lib) actions)
      (run (Directory.step name) (.start assetMgr lib) actions) :=
  directs_of_run name assetMgr lib actions

/-! ### Which services are found -/

section Found

variable {name : Nat → String} {assetMgr : Nat} {d d' : Directory}

/-- What is registered later is not found before. -/
theorem resolve_append {registered : List Nat} {m : String} {i : Nat}
    (resolved : resolve name registered m = some i) (new : List Nat) :
    resolve name (registered ++ new) m = some i := by
  rw [resolve, List.findIdx?_append]
  rw [resolve] at resolved
  rw [resolved]
  rfl

theorem resolve_eq_some_iff {registered : List Nat} {m : String} {i : Nat} :
    resolve name registered m = some i ↔
      (∃ factory, registered[i]? = some factory ∧ m.toList <:+: (name factory).toList) ∧
        ∀ j factory, j < i → registered[j]? = some factory → ¬ m.toList <:+: (name factory).toList := by
  rw [resolve, List.findIdx?_eq_some_iff_getElem]
  constructor
  · rintro ⟨below, found, before⟩
    refine ⟨⟨_, List.getElem?_eq_getElem below, (find_isSome_iff _ _).mp found⟩, ?_⟩
    intro j factory less there part
    obtain ⟨below', rfl⟩ := List.getElem?_eq_some_iff.mp there
    exact before j less ((find_isSome_iff _ _).mpr part)
  · rintro ⟨⟨factory, there, part⟩, before⟩
    obtain ⟨below, rfl⟩ := List.getElem?_eq_some_iff.mp there
    refine ⟨below, (find_isSome_iff _ _).mpr part, ?_⟩
    intro j less found
    exact before j _ less (List.getElem?_eq_getElem _) ((find_isSome_iff _ _).mp found)

structure Directory.Inv (name : Nat → String) (assetMgr : Nat) (d : Directory) : Prop where
  first : d.registered[0]? = some assetMgr
  found : ∀ i ∈ d.made, ∃ m, resolve name d.registered m = some i
  calls : ∀ thread m i, d.calls thread = some (m, i) → resolve name d.registered m = some i
  ended : ∀ m i, .session m i ∈ d.ended → resolve name d.registered m = some i

theorem Directory.inv_start (name : Nat → String) (assetMgr : Nat) (lib : Lib) :
    (Directory.start assetMgr lib).Inv name assetMgr := by
  constructor
  · rfl
  · intro i member
    cases member
  · intro thread m i called
    cases called
  · intro m i member
    cases member

theorem Directory.Inv.step {action : ServiceAction} (inv : d.Inv name assetMgr)
    (stepped : d.step name action = some d') : d'.Inv name assetMgr := by
  obtain ⟨first, found, calls, ended⟩ := inv
  cases action with
  | registerService factory pluginInfo =>
      cases stepped
      constructor
      · obtain ⟨below, -⟩ := List.getElem?_eq_some_iff.mp first
        exact (List.getElem?_append_left below).trans first
      · intro i member
        obtain ⟨m, resolved⟩ := found i member
        exact ⟨m, resolve_append resolved _⟩
      · exact fun thread m i called => resolve_append (calls thread m i called) _
      · exact fun m i member => resolve_append (ended m i member) _
  | getService thread m created =>
      have gets : ∀ i, resolve name d.registered m = some i → ∀ thread' m' i',
          update d.calls thread (some (m, i)) thread' = some (m', i') →
            resolve name d.registered m' = some i' := by
        intro i resolved thread' m' i' called
        by_cases same : thread' = thread
        · rw [same, Function.update_self] at called
          cases called
          exact resolved
        · rw [Function.update_of_ne same] at called
          exact calls thread' m' i' called
      have throws : ∀ ex m' i, .session m' i ∈ d.ended ++ [.thrown m ex] → resolve name d.registered m' = some i := by
        intro ex m' i member
        rcases List.mem_append.mp member with before | last
        · exact ended m' i before
        · cases List.mem_singleton.mp last
      simp only [Directory.step] at stepped
      split at stepped
      · cases stepped
      · split at stepped
        · cases stepped
          exact ⟨first, found, calls, throws _⟩
        · rename_i i resolved
          split at stepped
          · cases stepped
            exact ⟨first, found, gets i resolved, ended⟩
          · split at stepped
            · cases stepped
              exact ⟨first, found, calls, throws _⟩
            · cases stepped
              refine ⟨first, fun j member => ?_, gets i resolved, ended⟩
              rcases List.mem_append.mp member with before | last
              · exact found j before
              · rw [List.mem_singleton.mp last]
                exact ⟨m, resolved⟩
  | createSession thread created =>
      simp only [Directory.step] at stepped
      split at stepped
      · cases stepped
      · rename_i m i called
        cases stepped
        constructor
        · exact first
        · exact found
        · intro thread' m' i' called'
          by_cases same : thread' = thread
          · rw [same] at called'
            simp at called'
          · simp only [Function.update_of_ne same] at called'
            exact calls thread' m' i' called'
        · intro m' i' member
          rcases List.mem_append.mp member with before | last
          · exact ended m' i' before
          · have same := List.mem_singleton.mp last
            cases created with
            | ok created =>
                cases same
                exact calls thread m i called
            | error ex => cases same

/-- Nothing is in front of the asset manager. -/
theorem Directory.Inv.resolves (inv : d.Inv name assetMgr) (m : String)
    (part : m.toList <:+: (name assetMgr).toList) : resolve name d.registered m = some 0 := by
  rw [resolve_eq_some_iff]
  constructor
  · exact ⟨assetMgr, inv.first, part⟩
  · intro j factory less
    exact absurd less (Nat.not_lt_zero j)

theorem exists_of_forall₂ {A B : Type} {related : A → B → Prop} {as : List A} {bs : List B}
    (all : List.Forall₂ related as bs) {a : A} (member : a ∈ as) : ∃ b ∈ bs, related a b := by
  induction all with
  | nil => cases member
  | cons first _ ih =>
      rcases List.mem_cons.mp member with rfl | later
      · exact ⟨_, List.mem_cons_self, first⟩
      · obtain ⟨b, member, related⟩ := ih later
        exact ⟨b, List.mem_cons_of_mem _ member, related⟩

/-- What is found in a backend, by the registrations that it has in the end. -/
structure Finds (name : Nat → String) (assetMgr : Nat) (s : Serving) : Prop where
  /-- A session is one of the first service whose name has the part that was asked for. -/
  sessions : ∀ m service, .session m service ∈ s.ended → ∃ (i : Nat) (sd : ServiceData),
    s.backend.serviceDatas[i]? = some sd ∧ sd.service = some service ∧
      resolve name (s.backend.serviceDatas.map ServiceData.factory) m = some i
  /-- Nobody gets a service whose name is part of the name of one that was registered before. -/
  shadowed : ∀ (i j : Nat) (sd sd' : ServiceData), i < j → s.backend.serviceDatas[i]? = some sd →
    s.backend.serviceDatas[j]? = some sd' → (name sd'.factory).toList <:+: (name sd.factory).toList →
      sd'.service = none
  /-- The first registration is the asset manager's own. -/
  first : (s.backend.serviceDatas.map ServiceData.factory).head? = some assetMgr
  /-- A part of its name is looked up as this one: who asks for it is never told that there is no such
  service, -/
  found : ∀ m : String, m.toList <:+: (name assetMgr).toList →
    resolve name (s.backend.serviceDatas.map ServiceData.factory) m = some 0 ∧
      ∀ created, (s.backend.getService name m created).1 ≠ .ok none
  /-- and who got a session for it has one of the asset manager. -/
  assetMgr : ∀ m service, .session m service ∈ s.ended → m.toList <:+: (name assetMgr).toList →
    ∃ sd, s.backend.serviceDatas.head? = some sd ∧ sd.factory = assetMgr ∧ sd.service = some service

/-- **Which services are found.** What is registered first is found first, also by those who look
later: a session is one of the first service whose name has the part that was asked for, and no
plugin can put itself in front of the asset manager, which every part of its name finds in every
state of every run. A service whose name is part of the name of an earlier one is never made. -/
theorem finds_first {lib : Lib} {actions : List ServiceAction} {s : Serving}
    (computed : run (Serving.step name) (.start assetMgr lib) actions = some s) : Finds name assetMgr s := by
  have both := directs_of_run name assetMgr lib actions
  rw [computed] at both
  generalize computed' : run (Directory.step name) (.start assetMgr lib) actions = after at both
  cases both with
  | @some _ d directs =>
      have inv : d.Inv name assetMgr :=
        System.run_invariant (Directory.inv_start name assetMgr lib) (fun _ _ _ inv stepped => inv.step stepped)
          computed'
      have factories := directs.registered
      have placed : ∀ (i factory : Nat), d.registered[i]? = some factory →
          ∃ sd : ServiceData, s.backend.serviceDatas[i]? = some sd ∧ sd.factory = factory := by
        intro i factory there
        rw [← factories, List.getElem?_map] at there
        exact Option.map_eq_some_iff.mp there
      have sessions : ∀ m service, .session m service ∈ s.ended → ∃ (i : Nat) (sd : ServiceData),
          s.backend.serviceDatas[i]? = some sd ∧ sd.service = some service ∧
            resolve name d.registered m = some i := by
        intro m service member
        obtain ⟨e, member', same⟩ := exists_of_forall₂ directs.ended member
        cases e with
        | thrown m' ex => exact same.elim
        | session m' i =>
            obtain ⟨rfl, made⟩ := same
            have resolved := inv.ended m i member'
            obtain ⟨⟨factory, there, -⟩, -⟩ := resolve_eq_some_iff.mp resolved
            obtain ⟨sd, there, -⟩ := placed i factory there
            exact ⟨i, sd, there, (directs.services i sd there service).mpr made, resolved⟩
      constructor
      · rw [factories]
        exact sessions
      · intro i j sd sd' less there there' part
        by_contra given
        obtain ⟨service, given⟩ := Option.ne_none_iff_exists'.mp given
        have member := List.mem_of_getElem? ((directs.services j sd' there' service).mp given)
        obtain ⟨m, resolved⟩ := inv.found j member
        obtain ⟨⟨factory, named, within⟩, before⟩ := resolve_eq_some_iff.mp resolved
        rw [← factories, List.getElem?_map, there'] at named
        cases named
        apply before i sd.factory less
        · rw [← factories, List.getElem?_map, there]
          rfl
        · exact within.trans part
      · rw [factories, List.head?_eq_getElem?]
        exact inv.first
      · intro m part
        have resolved := inv.resolves m part
        constructor
        · rw [factories]
          exact resolved
        · intro created
          have gets := directs.getService name m created
          rw [resolved] at gets
          obtain ⟨sd, -, gets⟩ := gets
          rw [gets]
          cases sd.service with
          | some service => simp
          | none => cases created <;> simp
      · intro m service member part
        obtain ⟨i, sd, there, given, resolved⟩ := sessions m service member
        obtain rfl : 0 = i := Option.some.inj ((inv.resolves m part).symm.trans resolved)
        obtain ⟨sd', there', same⟩ := placed 0 assetMgr inv.first
        rw [there] at there'
        cases there'
        refine ⟨sd, ?_, same, given⟩
        rw [List.head?_eq_getElem?]
        exact there

def names (factory : Nat) : String := ["$asset-mgr", "ac-local dummy", "dummy", "$asset-mgr 2"].getD factory ""

/-- A plugin has a service whose name is part of a free one's, and one named like the asset manager;
the asset manager is found all the same. -/
theorem finds_first_shadowed : ∃ s,
    run (Serving.step names) (.start 0 ⟨[1], ⟨[⟨"/p/aclp-x.so", "x", some 0, [], [2, 3]⟩], 1, []⟩⟩)
      [.getService 0 "dummy" (.ok ()), .getService 1 "$asset-mgr" (.ok ()), .createSession 1 (.ok ()),
        .createSession 0 (.ok ())] = some s ∧
      Finds names 0 s ∧ s.backend.serviceDatas.map ServiceData.service = [some 1, some 0, none, none] := by
  obtain ⟨s, computed, services⟩ : ∃ s,
      run (Serving.step names) (.start 0 ⟨[1], ⟨[⟨"/p/aclp-x.so", "x", some 0, [], [2, 3]⟩], 1, []⟩⟩)
        [.getService 0 "dummy" (.ok ()), .getService 1 "$asset-mgr" (.ok ()), .createSession 1 (.ok ()),
          .createSession 0 (.ok ())] = some s ∧
        s.backend.serviceDatas.map ServiceData.service = [some 1, some 0, none, none] := ⟨_, rfl, rfl⟩
  exact ⟨s, computed, finds_first computed, services⟩

end Found

end AlpacaCore.Local
