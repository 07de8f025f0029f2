import Mathlib.Data.List.Basic
import AlpacaCore.System.Run

/-!
`PluginManager`: how plugins are loaded, and who closes their libraries.

The handle of a library that was opened belongs to a sentry in `tryLoadPlugin` until the
function ends, and from then on to the record that `tryCreatePluginInfo` has put into
`m_plugins`. What is outside of the manager is a value here: what a file holds when it is
opened, what the functions of a library return or throw, and the callbacks of the caller.
Handles are numbered in the order in which the libraries were opened.
-/

namespace AlpacaCore.Local

open AlpacaCore.System (Meets run)

/-- What a function of a plugin or of the caller throws. -/
inductive Thrown where
  | std (what : String)
  | other
deriving DecidableEq, Repr

/-- `astl::version`. -/
structure Version where
  major : Int
  minor : Int
  patch : Int
deriving DecidableEq, Repr

def Version.fromInt (v : Int) : Version :=
  ⟨v.tdiv 1000000, (v.tdiv 1000).tmod 1000, v.tmod 1000⟩

/-- `PluginInterface`; a service factory is a number. -/
structure PluginInterface where
  label : String
  desc : String
  vendor : String
  version : Version
  tags : List String
  init : Option (Except Thrown Unit)
  getServiceFactories : Except Thrown (List Nat)

structure PluginInfo where
  fullPath : String
  name : String
  nativeHandle : Option Nat
  tags : List String
  serviceFactories : List Nat
deriving DecidableEq, Repr

/-- What `get_proc` finds in a library: the symbols, if they are there, with what their
functions return. -/
structure Library where
  getVer : Option (Except Thrown Int)
  load : Option (Except Thrown PluginInterface)

/-- The callbacks; one that is not set is `none`. -/
structure LoadPluginCb where
  pathFilter : Option (String → Except Thrown Bool) := none
  nameFilter : Option (String → Except Thrown Bool) := none
  interfaceFilter : Option (PluginInterface → Except Thrown Bool) := none
  onPluginLoaded : Option (PluginInfo → Except Thrown Unit) := none

structure PluginManager where
  plugins : List PluginInfo
  /-- how many libraries have been opened -/
  opened : Nat
  /-- the handles `unload_plugin` was called with, in order -/
  closed : List Nat
deriving DecidableEq, Repr

/-- An attempt to load a plugin, with what it meets. -/
inductive Attempt where
  /-- `file` is `none` where the library cannot be opened -/
  | loadPlugin (path : String) (file : Option Library) (cb : LoadPluginCb)
  | loadPlib (interface : PluginInterface)

/-- `pluginPathToName`. -/
def pluginPathToName (path : String) : String :=
  let path := (path.toList.reverse.takeWhile fun c => c ≠ '/' ∧ c ≠ '\\').reverse
  let path := if "aclp-".toList.isPrefixOf path then path.drop 5 else path
  String.ofList <|
    if ".dll".toList.isSuffixOf path then path.take (path.length - 4)
    else if ".so".toList.isSuffixOf path then path.take (path.length - 3)
    else if ".dylib".toList.isSuffixOf path then path.take (path.length - 6)
    else path

/-- `!filter || filter(a)`. -/
def accepts {α : Type} (filter : Option (α → Except Thrown Bool)) (a : α) : Except Thrown Bool :=
  match filter with
  | none => .ok true
  | some filter => filter a

/-- The call of a `safe_func`. -/
def LoadPluginCb.notify (cb : LoadPluginCb) (info : PluginInfo) : Except Thrown Unit :=
  match cb.onPluginLoaded with
  | none => .ok ()
  | some onPluginLoaded => onPluginLoaded info

namespace PluginManager

def start : PluginManager := ⟨[], 0, []⟩

/-- `load_plugin` has opened a library: its handle is the number of those before it. -/
def opening (m : PluginManager) : PluginManager := { m with opened := m.opened + 1 }

def unload (m : PluginManager) (hplugin : Nat) : PluginManager :=
  { m with closed := m.closed ++ [hplugin] }

/-- `~PluginManager`: what has been closed when it is over. -/
def destroy (m : PluginManager) : List Nat := m.closed ++ m.plugins.filterMap (·.nativeHandle)

def findPluginByPath (plugins : List PluginInfo) (path : String) : Option PluginInfo :=
  plugins.find? fun p => p.fullPath = path

def emplace (m : PluginManager) (info : PluginInfo) : PluginManager :=
  { m with plugins := m.plugins ++ [info] }

/-- `tryCreatePluginInfo`. -/
def tryCreatePluginInfo (m : PluginManager) (path name : String) (nativeHandle : Option Nat)
    (interface : PluginInterface) (cb : LoadPluginCb) :
    Except Thrown (Option PluginInfo) × PluginManager :=
  match accepts cb.interfaceFilter interface with
  | .error ex => (.error ex, m)
  | .ok false => (.ok none, m)
  | .ok true =>
      match interface.init with
      | some (.error _) => (.ok none, m)
      | _ =>
          -- the record is in the vector before it is filled
          let info : PluginInfo := ⟨path, name, nativeHandle, [], []⟩
          match interface.getServiceFactories with
          | .error ex => (.error ex, m.emplace info)
          | .ok serviceFactories =>
              let info := { info with serviceFactories, tags := interface.tags }
              match cb.notify info with
              | .error ex => (.error ex, m.emplace info)
              | .ok () => (.ok (some info), m.emplace info)

/-- `tryLoadPlugin` behind the sentry: also what the variable `hplugin` holds at the end. -/
def loadOpened (projectVersion : Version) (m : PluginManager) (path name : String) (hplugin : Nat)
    (library : Library) (cb : LoadPluginCb) :
    Except Thrown (Option PluginInfo) × Option Nat × PluginManager :=
  match library.getVer with
  | none => (.ok none, some hplugin, m)
  | some (.error ex) => (.error ex, some hplugin, m)
  | some (.ok version) =>
      if Version.fromInt version ≠ projectVersion then (.ok none, some hplugin, m)
      else
        match library.load with
        | none => (.ok none, some hplugin, m)
        | some (.error ex) => (.error ex, some hplugin, m)
        | some (.ok interface) =>
            match m.tryCreatePluginInfo path name (some hplugin) interface cb with
            | (.error ex, m) => (.error ex, some hplugin, m)
            | (.ok ret, m) => (.ok ret, none, m)

/-- The sentry closes what `hplugin` still holds. -/
def sentry : Except Thrown (Option PluginInfo) × Option Nat × PluginManager →
    Except Thrown (Option PluginInfo) × PluginManager
  | (ret, none, m) => (ret, m)
  | (ret, some hplugin, m) => (ret, m.unload hplugin)

/-- `tryLoadPlugin`. -/
def tryLoadPlugin (projectVersion : Version) (m : PluginManager) (path : String)
    (file : Option Library) (cb : LoadPluginCb) :
    Except Thrown (Option PluginInfo) × PluginManager :=
  match accepts cb.pathFilter path with
  | .error ex => (.error ex, m)
  | .ok false => (.ok none, m)
  | .ok true =>
      let name := pluginPathToName path
      match accepts cb.nameFilter name with
      | .error ex => (.error ex, m)
      | .ok false => (.ok none, m)
      | .ok true =>
          match findPluginByPath m.plugins path with
          | some p => (.ok (some p), m)
          | none =>
              match file with
              | none => (.ok none, m)
              | some library =>
                  let hplugin := m.opened
                  sentry (m.opening.loadOpened projectVersion path name hplugin library cb)

/-- `loadPlib`. -/
def loadPlib (m : PluginManager) (interface : PluginInterface) :
    Except Thrown (Option PluginInfo) × PluginManager :=
  m.tryCreatePluginInfo "<in-process>" ("plib:" ++ interface.label) none interface {}

/-- What an attempt returns or throws, and the manager behind it. -/
def perform (projectVersion : Version) (m : PluginManager) :
    Attempt → Except Thrown (Option PluginInfo) × PluginManager
  | .loadPlugin path file cb => m.tryLoadPlugin projectVersion path file cb
  | .loadPlib interface => m.loadPlib interface

def step (projectVersion : Version) (m : PluginManager) (a : Attempt) : Option PluginManager :=
  some (m.perform projectVersion a).2

/-! ### Owners -/

/-- How many records own the handle. -/
def owners (m : PluginManager) (hplugin : Nat) : Nat :=
  (m.plugins.filterMap (·.nativeHandle)).count hplugin

/-- Every library that was opened has one owner, or has been closed, once. -/
def Owned (m : PluginManager) : Prop :=
  ∀ hplugin < m.opened, m.owners hplugin = 1 ∧ m.closed.count hplugin = 0 ∨
    m.owners hplugin = 0 ∧ m.closed.count hplugin = 1

structure Inv (m : PluginManager) : Prop where
  owned : m.Owned
  fresh : ∀ hplugin, m.opened ≤ hplugin → m.owners hplugin = 0 ∧ m.closed.count hplugin = 0

theorem inv_start : Inv start := by
  constructor
  · intro hplugin below
    exact absurd below (Nat.not_lt_zero _)
  · exact fun hplugin _ => ⟨rfl, rfl⟩

theorem owners_emplace (m : PluginManager) (info : PluginInfo) (hplugin : Nat) :
    (m.emplace info).owners hplugin =
      m.owners hplugin + if info.nativeHandle = some hplugin then 1 else 0 := by
  simp only [owners, emplace, List.filterMap_append, List.count_append]
  cases handle : info.nativeHandle with
  | none => simp [handle]
  | some other => simp [handle, List.count_singleton]

theorem count_unload (m : PluginManager) (closing hplugin : Nat) :
    (m.unload closing).closed.count hplugin =
      m.closed.count hplugin + if closing = hplugin then 1 else 0 := by
  simp [unload, List.count_append, List.count_singleton]

/-- A library is opened, and its handle comes to be owned or closed. -/
theorem Inv.opened {m m' : PluginManager} (inv : Inv m) (opened : m'.opened = m.opened + 1)
    (owner : Nat) (once : owner ≤ 1)
    (owners : ∀ hplugin, m'.owners hplugin = m.owners hplugin + if m.opened = hplugin then owner else 0)
    (closed : ∀ hplugin, m'.closed.count hplugin =
      m.closed.count hplugin + if m.opened = hplugin then 1 - owner else 0) : Inv m' := by
  constructor
  · intro hplugin below
    rw [owners, closed]
    rcases Nat.lt_or_ge hplugin m.opened with known | new
    · simpa [Nat.ne_of_gt known] using inv.owned hplugin known
    · obtain rfl : m.opened = hplugin := by omega
      obtain ⟨unowned, unclosed⟩ := inv.fresh _ (Nat.le_refl m.opened)
      rw [unowned, unclosed, if_pos rfl, if_pos rfl]
      omega
  · intro hplugin above
    obtain ⟨unowned, unclosed⟩ := inv.fresh hplugin (by omega)
    have other : m.opened ≠ hplugin := by omega
    rw [owners, closed, unowned, unclosed, if_neg other, if_neg other]
    exact ⟨rfl, rfl⟩

/-- `~PluginManager` closes the libraries that are still open. -/
theorem Owned.destroy {m : PluginManager} (owned : m.Owned) {hplugin : Nat}
    (below : hplugin < m.opened) : m.destroy.count hplugin = 1 := by
  have one := owned hplugin below
  rw [PluginManager.destroy, List.count_append]
  change _ + m.owners hplugin = 1
  omega

/-! ### What an attempt does -/

/-- Nothing that `tryCreatePluginInfo` calls refuses or throws where the handle is lost by
it: only the filter may throw, and a plugin without a library of its own may be refused
and may fail to begin. -/
def Smooth (path name : String) (nativeHandle : Option Nat) (interface : PluginInterface)
    (cb : LoadPluginCb) : Prop :=
  match accepts cb.interfaceFilter interface with
  | .error _ => True
  | .ok false => nativeHandle = none
  | .ok true =>
      match interface.init with
      | some (.error _) => nativeHandle = none
      | _ => ∃ serviceFactories, interface.getServiceFactories = .ok serviceFactories ∧
          cb.notify ⟨path, name, nativeHandle, interface.tags, serviceFactories⟩ = .ok ()

/-- The attempt gets as far as `tryCreatePluginInfo`, with this interface. -/
structure Provides (projectVersion : Version) (m : PluginManager) (path : String)
    (file : Option Library) (cb : LoadPluginCb) (interface : PluginInterface) : Prop where
  byPath : accepts cb.pathFilter path = .ok true
  byName : accepts cb.nameFilter (pluginPathToName path) = .ok true
  notLoaded : findPluginByPath m.plugins path = none
  library : ∃ library version, file = some library ∧ library.getVer = some (.ok version) ∧
    Version.fromInt version = projectVersion ∧ library.load = some (.ok interface)

/-- What the attempts must be spared. -/
def Clean (projectVersion : Version) (m : PluginManager) : Attempt → Prop
  | .loadPlugin path file cb => ∀ interface, Provides projectVersion m path file cb interface →
      Smooth path (pluginPathToName path) (some m.opened) interface cb
  | .loadPlib interface =>
      Smooth "<in-process>" ("plib:" ++ interface.label) none interface {}

section Create

variable {m : PluginManager} {path name : String} {nativeHandle : Option Nat}
  {interface : PluginInterface} {cb : LoadPluginCb}

/-- An attempt that goes well: the filter throws, the plugin is refused without a handle
to lose, or its record is added and returned. -/
theorem tryCreatePluginInfo_of_smooth (smooth : Smooth path name nativeHandle interface cb) :
    (∃ ex, m.tryCreatePluginInfo path name nativeHandle interface cb = (.error ex, m)) ∨
    (nativeHandle = none ∧
      m.tryCreatePluginInfo path name nativeHandle interface cb = (.ok none, m)) ∨
    ∃ info : PluginInfo, info.nativeHandle = nativeHandle ∧
      m.tryCreatePluginInfo path name nativeHandle interface cb = (.ok (some info), m.emplace info) := by
  unfold Smooth at smooth
  unfold tryCreatePluginInfo
  split at smooth
  · exact .inl ⟨_, rfl⟩
  · exact .inr (.inl ⟨smooth, rfl⟩)
  · split at smooth
    · exact .inr (.inl ⟨smooth, rfl⟩)
    · obtain ⟨serviceFactories, got, told⟩ := smooth
      simp only [got, told]
      exact .inr (.inr ⟨_, rfl, rfl⟩)

/-- The others: a handle is lost, or a record stays behind an exception. -/
theorem tryCreatePluginInfo_of_not_smooth
    (rough : ¬ Smooth path name nativeHandle interface cb) :
    (∃ hplugin, nativeHandle = some hplugin ∧
      m.tryCreatePluginInfo path name nativeHandle interface cb = (.ok none, m)) ∨
    ∃ ex, ∃ info : PluginInfo, info.nativeHandle = nativeHandle ∧
      m.tryCreatePluginInfo path name nativeHandle interface cb = (.error ex, m.emplace info) := by
  unfold Smooth at rough
  unfold tryCreatePluginInfo
  split at rough
  · exact absurd trivial rough
  · obtain ⟨hplugin, owned⟩ := Option.ne_none_iff_exists'.mp rough
    exact .inl ⟨hplugin, owned, rfl⟩
  · split at rough
    · obtain ⟨hplugin, owned⟩ := Option.ne_none_iff_exists'.mp rough
      exact .inl ⟨hplugin, owned, rfl⟩
    · cases got : interface.getServiceFactories with
      | error ex => exact .inr ⟨ex, _, rfl, rfl⟩
      | ok serviceFactories =>
          cases told : cb.notify ⟨path, name, nativeHandle, interface.tags, serviceFactories⟩ with
          | error ex =>
              exact .inr ⟨ex, ⟨path, name, nativeHandle, interface.tags, serviceFactories⟩, rfl,
                by simp only [told]⟩
          | ok => exact absurd ⟨serviceFactories, got, told⟩ rough

end Create

/-- The end of `tryLoadPlugin`, behind `tryCreatePluginInfo`. -/
def settle (hplugin : Nat) : Except Thrown (Option PluginInfo) × PluginManager →
    Except Thrown (Option PluginInfo) × PluginManager
  | (.error ex, m) => (.error ex, m.unload hplugin)
  | (.ok ret, m) => (.ok ret, m)

section Load

variable {projectVersion : Version} {m : PluginManager} {path : String} {file : Option Library}
  {cb : LoadPluginCb}

/-- Behind the sentry, the library is closed or `tryCreatePluginInfo` is come to. -/
theorem loadOpened_cases {name : String} {hplugin : Nat} {library : Library} :
    ((sentry (m.loadOpened projectVersion path name hplugin library cb)).2 = m.unload hplugin ∧
      ∀ version interface, library.getVer = some (.ok version) →
        Version.fromInt version = projectVersion → library.load ≠ some (.ok interface)) ∨
    ∃ version interface, library.getVer = some (.ok version) ∧
      Version.fromInt version = projectVersion ∧ library.load = some (.ok interface) ∧
      sentry (m.loadOpened projectVersion path name hplugin library cb) = settle hplugin
        (m.tryCreatePluginInfo path name (some hplugin) interface cb) := by
  unfold loadOpened
  cases getVer : library.getVer with
  | none => exact .inl ⟨rfl, fun version interface got => by cases got⟩
  | some version =>
      cases version with
      | error ex => exact .inl ⟨rfl, fun version interface got => by cases got⟩
      | ok version =>
          simp only
          split
          · rename_i mismatch
            refine .inl ⟨rfl, fun other interface got same => ?_⟩
            cases got
            exact absurd same mismatch
          · rename_i same
            cases load : library.load with
            | none => exact .inl ⟨rfl, fun version interface _ _ got => by cases got⟩
            | some interface =>
                cases interface with
                | error ex => exact .inl ⟨rfl, fun version interface _ _ got => by cases got⟩
                | ok interface =>
                    refine .inr ⟨version, interface, rfl, not_not.mp same, rfl, ?_⟩
                    dsimp only
                    cases m.tryCreatePluginInfo path name (some hplugin) interface cb with
                    | mk ret m' => cases ret <;> rfl

/-- An attempt ends before a library is opened, closes the one it has opened, or comes to
`tryCreatePluginInfo`. -/
theorem tryLoadPlugin_cases :
    ((m.tryLoadPlugin projectVersion path file cb).2 = m ∧
      ∀ interface, ¬ Provides projectVersion m path file cb interface) ∨
    ((m.tryLoadPlugin projectVersion path file cb).2 = m.opening.unload m.opened ∧
      ∀ interface, ¬ Provides projectVersion m path file cb interface) ∨
    ∃ interface, Provides projectVersion m path file cb interface ∧
      m.tryLoadPlugin projectVersion path file cb = settle m.opened
        (m.opening.tryCreatePluginInfo path (pluginPathToName path) (some m.opened) interface cb) := by
  unfold tryLoadPlugin
  split
  · rename_i refused
    exact .inl ⟨rfl, fun interface provides => by cases refused.symm.trans provides.byPath⟩
  · rename_i refused
    exact .inl ⟨rfl, fun interface provides => by cases refused.symm.trans provides.byPath⟩
  rename_i byPath
  simp only
  split
  · rename_i refused
    exact .inl ⟨rfl, fun interface provides => by cases refused.symm.trans provides.byName⟩
  · rename_i refused
    exact .inl ⟨rfl, fun interface provides => by cases refused.symm.trans provides.byName⟩
  rename_i byName
  split
  · rename_i loaded
    exact .inl ⟨rfl, fun interface provides => by cases loaded.symm.trans provides.notLoaded⟩
  rename_i notLoaded
  cases file with
  | none =>
      refine .inl ⟨rfl, fun interface provides => ?_⟩
      obtain ⟨library, version, opened, -⟩ := provides.library
      cases opened
  | some library =>
      rcases @loadOpened_cases projectVersion m.opening path cb (pluginPathToName path) m.opened
          library with
        ⟨closed, missing⟩ | ⟨version, interface, getVer, same, load, created⟩
      · refine .inr (.inl ⟨closed, fun interface provides => ?_⟩)
        obtain ⟨library, version, opened, getVer, same, load⟩ := provides.library
        cases opened
        exact missing version interface getVer same load
      · exact .inr (.inr ⟨interface,
          ⟨byPath, byName, notLoaded, library, version, rfl, getVer, same, load⟩, created⟩)

/-- There is only one interface to provide. -/
theorem Provides.unique {interface other : PluginInterface}
    (provides : Provides projectVersion m path file cb interface)
    (provides' : Provides projectVersion m path file cb other) : other = interface := by
  obtain ⟨library, version, opened, -, -, load⟩ := provides.library
  obtain ⟨library', version', opened', -, -, load'⟩ := provides'.library
  cases opened.symm.trans opened'
  cases load.symm.trans load'
  rfl

end Load

/-! ### The contract -/

/-- What an attempt is to keep: every library that was opened has one owner or is closed,
`~PluginManager` leaves none open and closes none twice, and where no plugin is returned
the records are as they were. -/
structure Kept (m : PluginManager) (ret : Except Thrown (Option PluginInfo))
    (m' : PluginManager) : Prop where
  owned : m'.Owned
  destroyed : ∀ hplugin < m'.opened, m'.destroy.count hplugin = 1
  unchanged : (∀ info, ret ≠ .ok (some info)) → m'.plugins = m.plugins

theorem Inv.kept {m m' : PluginManager} {ret : Except Thrown (Option PluginInfo)} (inv : Inv m')
    (unchanged : (∀ info, ret ≠ .ok (some info)) → m'.plugins = m.plugins) : Kept m ret m' :=
  ⟨inv.owned, fun _ below => inv.owned.destroy below, unchanged⟩

/-- The library that an attempt has opened is closed. -/
theorem Inv.unload {m : PluginManager} (inv : Inv m) : Inv (m.opening.unload m.opened) :=
  inv.opened rfl 0 (Nat.zero_le 1) (fun _ => by simp; rfl) fun _ => count_unload _ _ _

/-- It has come to be owned by a record. -/
theorem Inv.emplace {m : PluginManager} (inv : Inv m) {info : PluginInfo}
    (handle : info.nativeHandle = some m.opened) : Inv (m.opening.emplace info) := by
  refine inv.opened rfl 1 (Nat.le_refl 1) (fun hplugin => ?_) fun _ => by simp; rfl
  rw [owners_emplace, handle]
  simp only [Option.some.injEq]
  rfl

/-- A record without a handle makes no difference. -/
theorem Inv.emplace_none {m : PluginManager} (inv : Inv m) {info : PluginInfo}
    (handle : info.nativeHandle = none) : Inv (m.emplace info) := by
  have same : ∀ hplugin, (m.emplace info).owners hplugin = m.owners hplugin := by
    intro hplugin
    rw [owners_emplace, handle]
    simp
  constructor
  · intro hplugin below
    rw [same]
    exact inv.owned hplugin below
  · intro hplugin above
    rw [same]
    exact inv.fresh hplugin above

section Perform

variable {projectVersion : Version} {m : PluginManager} {a : Attempt}

/-- An attempt that is spared the failures keeps the handles, and the invariant. -/
theorem perform_of_clean (inv : Inv m) (clean : Clean projectVersion m a) :
    Kept m (m.perform projectVersion a).1 (m.perform projectVersion a).2 ∧
      Inv (m.perform projectVersion a).2 := by
  suffices both : Inv (m.perform projectVersion a).2 ∧
      ((∀ info, (m.perform projectVersion a).1 ≠ .ok (some info)) →
        (m.perform projectVersion a).2.plugins = m.plugins) from
    ⟨both.1.kept both.2, both.1⟩
  cases a with
  | loadPlugin path file cb =>
      simp only [perform]
      rcases tryLoadPlugin_cases with ⟨same, -⟩ | ⟨closed, -⟩ | ⟨interface, provides, came⟩
      · rw [same]
        exact ⟨inv, fun _ => rfl⟩
      · rw [closed]
        exact ⟨inv.unload, fun _ => rfl⟩
      · rw [came]
        rcases tryCreatePluginInfo_of_smooth (clean interface provides) with
          ⟨ex, threw⟩ | ⟨unowned, -⟩ | ⟨info, handle, added⟩
        · rw [threw]
          exact ⟨inv.unload, fun _ => rfl⟩
        · cases unowned
        · rw [added]
          exact ⟨inv.emplace handle, fun refused => absurd rfl (refused info)⟩
  | loadPlib interface =>
      simp only [perform, loadPlib]
      have smooth : Smooth "<in-process>" ("plib:" ++ interface.label) none interface {} := clean
      rcases tryCreatePluginInfo_of_smooth smooth with
        ⟨ex, threw⟩ | ⟨-, refused⟩ | ⟨info, handle, added⟩
      · rw [threw]
        exact ⟨inv, fun _ => rfl⟩
      · rw [refused]
        exact ⟨inv, fun _ => rfl⟩
      · rw [added]
        exact ⟨inv.emplace_none handle, fun refused => absurd rfl (refused info)⟩

/-- The others lose a handle, close one that is owned, or leave a record behind. -/
theorem perform_of_not_clean (inv : Inv m) (unclean : ¬ Clean projectVersion m a) :
    ¬ Kept m (m.perform projectVersion a).1 (m.perform projectVersion a).2 := by
  cases a with
  | loadPlugin path file cb =>
      simp only [Clean, not_forall] at unclean
      obtain ⟨interface, provides, rough⟩ := unclean
      simp only [perform]
      rcases tryLoadPlugin_cases with ⟨-, none⟩ | ⟨-, none⟩ | ⟨interface', provides', came⟩
      · exact absurd provides (none interface)
      · exact absurd provides (none interface)
      obtain rfl := provides.unique provides'
      obtain ⟨unowned, unclosed⟩ := inv.fresh m.opened (Nat.le_refl _)
      intro kept
      rw [came] at kept
      rcases tryCreatePluginInfo_of_not_smooth rough with
        ⟨hplugin, -, lost⟩ | ⟨ex, info, handle, threw⟩
      · rw [lost] at kept
        have one := kept.owned m.opened (Nat.lt_succ_self _)
        change m.owners m.opened = 1 ∧ _ ∨ _ ∧ m.closed.count m.opened = 1 at one
        omega
      · rw [threw] at kept
        have one := kept.owned m.opened (Nat.lt_succ_self _)
        have owned : ((m.opening.emplace info).unload m.opened).owners m.opened = 1 := by
          change (m.opening.emplace info).owners m.opened = 1
          rw [owners_emplace, handle, if_pos rfl]
          change m.owners m.opened + 1 = 1
          omega
        have closed : ((m.opening.emplace info).unload m.opened).closed.count m.opened = 1 := by
          rw [count_unload, if_pos rfl]
          change m.closed.count m.opened + 1 = 1
          omega
        change ((m.opening.emplace info).unload m.opened).owners m.opened = 1 ∧
          ((m.opening.emplace info).unload m.opened).closed.count m.opened = 0 ∨
          ((m.opening.emplace info).unload m.opened).owners m.opened = 0 ∧ _ at one
        omega
  | loadPlib interface =>
      intro kept
      simp only [perform, loadPlib] at kept
      have rough : ¬ Smooth "<in-process>" ("plib:" ++ interface.label) none interface {} := unclean
      rcases tryCreatePluginInfo_of_not_smooth rough with
        ⟨hplugin, handle, -⟩ | ⟨ex, info, -, threw⟩
      · cases handle
      · rw [threw] at kept
        have same := kept.unchanged fun info returned => by cases returned
        simp [PluginManager.emplace] at same

end Perform

/-- **When the attempts keep the handles.** In any sequence of attempts to load plugins, each leaves
every library that was opened with one owner or closed, so that `~PluginManager` closes the rest
and none twice, exactly when all of them are clean: what an attempt does with the library it has
opened, and with its interface, goes smoothly. -/
theorem kept_iff_clean (projectVersion : Version) (attempts : List Attempt) :
    (∀ before a after m, before ++ a :: after = attempts →
      run (step projectVersion) start before = some m →
      Kept m (m.perform projectVersion a).1 (m.perform projectVersion a).2) ↔
    Meets (step projectVersion) (Clean projectVersion) start attempts := by
  have exact : ∀ m a, Inv m →
      (Kept m (m.perform projectVersion a).1 (m.perform projectVersion a).2 ↔
        Clean projectVersion m a) := by
    intro m a inv
    constructor
    · intro kept
      by_contra unclean
      exact perform_of_not_clean inv unclean kept
    · exact fun clean => (perform_of_clean inv clean).1
  rw [← @System.good_iff_meets _ _ (step projectVersion) _ start Inv
    (fun m a _ => Kept m (m.perform projectVersion a).1 (m.perform projectVersion a).2) inv_start]
  · constructor
    · intro always before a after m m' split computed _
      exact always before a after m split computed
    · intro always before a after m split computed
      exact always before a after m _ split computed rfl
  · rintro m a _ inv kept ⟨⟩
    exact (perform_of_clean inv ((exact m a inv).mp kept)).2
  · intro m a _ inv _
    exact exact m a inv
  · intro m a _ _
    exact ⟨_, rfl⟩

/-- A plugin whose `init` throws is refused, and its library is never closed. -/
theorem not_kept_init : ¬ ∀ (attempts before after : List Attempt) (a : Attempt) (m : PluginManager),
    before ++ a :: after = attempts → run (step ⟨0, 1, 0⟩) start before = some m →
      Kept m (m.perform ⟨0, 1, 0⟩ a).1 (m.perform ⟨0, 1, 0⟩ a).2 := by
  intro always
  have kept := always _ [] [] (.loadPlugin "aclp-a.so"
    (some ⟨some (.ok 1000), some (.ok ⟨"a", "", "", ⟨1, 0, 0⟩, [], some (.error .other), .ok []⟩)⟩) {})
    start rfl rfl
  have closed := kept.destroyed 0 (by decide)
  exact absurd closed (by decide)

end PluginManager

end AlpacaCore.Local
