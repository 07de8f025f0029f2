import Mathlib.Algebra.Group.Nat.Even
import AlpacaCore.System.Run

/-!
The plugin directories of an environment variable.

`addPluginDirsFromEnvVar` splits the variable's value with a `std::string_view` that it
makes shorter from the front: by the component it found and by one more, for the
separator behind it. Behind the last component there is a separator only when the value
ends with one. Sizes are 64-bit unsigned, so taking off more than there is does not end
the loop.
-/

namespace AlpacaCore.Local

open AlpacaCore.System (Reachable Free Inevitable)

/-- The value of an environment variable; its length is a `size_t`. -/
structure EnvValue where
  bytes : List UInt8
  length_lt : bytes.length < 2 ^ 64

/-- `std::string_view`: the bytes of the value that follow its start, and its size. -/
structure View where
  bytes : List UInt8
  size : BitVec 64
deriving DecidableEq, Repr

namespace View

def ofBytes (bytes : List UInt8) : View := ⟨bytes, BitVec.ofNat 64 bytes.length⟩

def npos : BitVec 64 := -1#64

def empty (view : View) : Bool := view.size == 0

/-- `find`; nothing when it reads behind the value. -/
def find (view : View) (sep : UInt8) : Option (BitVec 64) :=
  match (view.bytes.take view.size.toNat).idxOf? sep with
  | some i => some (BitVec.ofNat 64 i)
  | none => if view.size.toNat ≤ view.bytes.length then some npos else none

/-- `substr(0, count)`. -/
def substr (view : View) (count : BitVec 64) : List UInt8 :=
  view.bytes.take (min count.toNat view.size.toNat)

/-- `remove_prefix`, also for more than there is: the size wraps. -/
def removePrefix (view : View) (n : BitVec 64) : View :=
  ⟨view.bytes.drop n.toNat, view.size - n⟩

end View

/-- The state of the loop: `dirs` and `m_pluginDirs`. -/
structure Splitting where
  dirs : View
  pluginDirs : List (List UInt8)

namespace Splitting

/-- `addPluginDir`. -/
def addPluginDir (s : Splitting) (dir : List UInt8) : Splitting :=
  { s with pluginDirs := s.pluginDirs ++ [dir] }

/-- `end`: where the component at the front ends. -/
def componentEnd (sep : UInt8) (s : Splitting) : Option (BitVec 64) :=
  (s.dirs.find sep).map fun found => if found = View.npos then s.dirs.size else found

/-- The argument of `remove_prefix`. -/
def advance (sep : UInt8) (s : Splitting) : Option (BitVec 64) :=
  (s.componentEnd sep).map (· + 1)

/-- One turn of the loop. -/
def step (sep : UInt8) (s : Splitting) (_ : Unit) : Option Splitting :=
  if s.dirs.empty then none
  else
    (s.componentEnd sep).map fun stop =>
      let s := s.addPluginDir (s.dirs.substr stop)
      { s with dirs := s.dirs.removePrefix (stop + 1) }

/-- `addPluginDirsFromEnvVar` before the loop, when the variable is set. -/
def start (pluginDirs : List (List UInt8)) (value : EnvValue) : Splitting :=
  ⟨.ofBytes value.bytes, pluginDirs⟩

end Splitting

/-- The components between the separators, without an empty one at the end. -/
def components (sep : UInt8) (bytes : List UInt8) : List (List UInt8) :=
  let parts := bytes.splitOn sep
  if parts.getLast? = some [] then parts.dropLast else parts

/-- What splitting a value is to do. -/
structure Splits (sep : UInt8) (pluginDirs : List (List UInt8)) (value : EnvValue) : Prop where
  /-- The loop ends, and has appended the components. -/
  ends : Inevitable (Splitting.step sep)
    (fun s => s.dirs.empty ∧ s.pluginDirs = pluginDirs ++ components sep value.bytes)
    (.start pluginDirs value)
  /-- The view is never advanced past its end. -/
  inside : ∀ s, Reachable (Splitting.step sep) Free (.start pluginDirs value) s →
    ¬ s.dirs.empty → ∀ n ∈ s.advance sep, n ≤ s.dirs.size

/-! ### A value as components -/

/-- Components, each with a separator behind it. -/
def terminated (sep : UInt8) (parts : List (List UInt8)) : List UInt8 :=
  parts.flatMap fun part => part ++ [sep]

@[simp] theorem terminated_nil (sep : UInt8) : terminated sep [] = [] := rfl

@[simp] theorem terminated_cons (sep : UInt8) (part : List UInt8) (parts : List (List UInt8)) :
    terminated sep (part :: parts) = part ++ sep :: terminated sep parts := by
  simp [terminated]

/-- Every value is components with a separator behind each, and what is left. -/
theorem exists_terminated (sep : UInt8) (bytes : List UInt8) :
    ∃ parts last, (∀ part ∈ parts, sep ∉ part) ∧ sep ∉ last ∧
      bytes = terminated sep parts ++ last := by
  induction bytes with
  | nil => exact ⟨[], [], by simp⟩
  | cons b bytes ih =>
      obtain ⟨parts, last, clean, cleanLast, rfl⟩ := ih
      by_cases here : b = sep
      · subst here
        exact ⟨[] :: parts, last, by simpa using clean, cleanLast, by simp⟩
      · cases parts with
        | nil => exact ⟨[], b :: last, by simp, by simp [Ne.symm here, cleanLast], by simp⟩
        | cons part parts =>
            refine ⟨(b :: part) :: parts, last, ?_, cleanLast, by simp⟩
            simpa [Ne.symm here] using clean

theorem splitOn_terminated {sep : UInt8} {parts : List (List UInt8)} {last : List UInt8}
    (clean : ∀ part ∈ parts, sep ∉ part) (cleanLast : sep ∉ last) :
    (terminated sep parts ++ last).splitOn sep = parts ++ [last] := by
  induction parts with
  | nil => simpa using List.splitOn_eq_singleton cleanLast
  | cons part parts ih =>
      have rest := ih fun other member => clean other (List.mem_cons_of_mem _ member)
      have here := clean part List.mem_cons_self
      rw [terminated_cons, List.append_assoc, List.cons_append, List.splitOn_append_cons_self, rest,
        List.splitOn_eq_singleton here]
      rfl

theorem components_terminated {sep : UInt8} {parts : List (List UInt8)}
    (clean : ∀ part ∈ parts, sep ∉ part) : components sep (terminated sep parts) = parts := by
  have split := splitOn_terminated clean (List.not_mem_nil (a := sep))
  rw [List.append_nil] at split
  simp [components, split]

theorem ends_with_sep {sep : UInt8} {parts : List (List UInt8)} {last : List UInt8}
    (cleanLast : sep ∉ last) : (terminated sep parts ++ last = [] ∨
      (terminated sep parts ++ last).getLast? = some sep) ↔ last = [] := by
  constructor
  · rintro (none | ends)
    · exact (List.append_eq_nil_iff.mp none).2
    · by_contra nonempty
      rw [List.getLast?_append_of_ne_nil _ nonempty] at ends
      exact cleanLast (List.mem_of_getLast? ends)
  · rintro rfl
    rw [List.append_nil]
    induction parts with
    | nil => exact .inl rfl
    | cons part parts ih =>
        right
        rw [terminated_cons]
        rcases ih with none | ends
        · simp [none]
        · rw [List.getLast?_append_of_ne_nil _ (List.cons_ne_nil _ _), List.getLast?_cons, ends]
          rfl

/-! ### One turn of the loop -/

theorem idxOf?_component {sep : UInt8} {part : List UInt8} (clean : sep ∉ part) (rest : List UInt8) :
    (part ++ sep :: rest).idxOf? sep = some part.length := by
  induction part with
  | nil => simp [List.idxOf?_cons]
  | cons b part ih =>
      obtain ⟨other, clean⟩ : sep ≠ b ∧ sep ∉ part := by simpa using clean
      rw [List.cons_append, List.idxOf?_cons, ih clean]
      simp [Ne.symm other]

namespace View

theorem toNat_size {bytes : List UInt8} (short : bytes.length < 2 ^ 64) :
    (ofBytes bytes).size.toNat = bytes.length := by
  simpa [ofBytes] using short

/-- A view of a whole value never reads behind it. -/
theorem find_ofBytes {bytes : List UInt8} (short : bytes.length < 2 ^ 64) (sep : UInt8) :
    (ofBytes bytes).find sep = some (((bytes.idxOf? sep).map (BitVec.ofNat 64)).getD npos) := by
  have all : bytes.take (ofBytes bytes).size.toNat = bytes := by
    rw [toNat_size short, List.take_length]
  unfold find
  rw [show (ofBytes bytes).bytes = bytes from rfl, all, toNat_size short]
  cases bytes.idxOf? sep <;> simp

theorem empty_ofBytes {bytes : List UInt8} (short : bytes.length < 2 ^ 64) :
    (ofBytes bytes).empty ↔ bytes = [] := by
  rw [empty, beq_iff_eq, ← BitVec.toNat_inj, toNat_size short]
  simp

end View

namespace Splitting

variable {sep : UInt8} (dirs : List (List UInt8))

theorem componentEnd_component {part rest : List UInt8} (clean : sep ∉ part)
    (short : (part ++ sep :: rest).length < 2 ^ 64) :
    componentEnd sep ⟨.ofBytes (part ++ sep :: rest), dirs⟩ =
      some (BitVec.ofNat 64 part.length) := by
  have before : part.length + 1 < 2 ^ 64 := by
    simp only [List.length_append, List.length_cons] at short
    omega
  have found : BitVec.ofNat 64 part.length ≠ View.npos := by
    rw [ne_eq, ← BitVec.toNat_inj]
    simp only [View.npos, BitVec.toNat_ofNat, BitVec.toNat_neg]
    omega
  simp [componentEnd, View.find_ofBytes short, idxOf?_component clean, found]

/-- A component with a separator behind it is added, and both are taken off. -/
theorem step_component {part rest : List UInt8} (clean : sep ∉ part)
    (short : (part ++ sep :: rest).length < 2 ^ 64) :
    step sep ⟨.ofBytes (part ++ sep :: rest), dirs⟩ () = some ⟨.ofBytes rest, dirs ++ [part]⟩ := by
  have length : (part ++ sep :: rest).length = part.length + 1 + rest.length := by
    simp only [List.length_append, List.length_cons]
    omega
  have notEmpty : (View.ofBytes (part ++ sep :: rest)).empty = false := by
    rw [Bool.eq_false_iff, ne_eq, View.empty_ofBytes short]
    simp
  have substr : (View.ofBytes (part ++ sep :: rest)).substr (BitVec.ofNat 64 part.length) = part := by
    have least : min (BitVec.ofNat 64 part.length).toNat
        (View.ofBytes (part ++ sep :: rest)).size.toNat = part.length := by
      rw [View.toNat_size short, BitVec.toNat_ofNat, Nat.mod_eq_of_lt (by omega)]
      omega
    unfold View.substr
    rw [least]
    exact List.take_left
  have removed : (View.ofBytes (part ++ sep :: rest)).removePrefix
      (BitVec.ofNat 64 part.length + 1) = .ofBytes rest := by
    have taken : (BitVec.ofNat 64 part.length + 1).toNat = part.length + 1 := by
      have one : (1 : BitVec 64).toNat = 1 := rfl
      rw [BitVec.toNat_add, BitVec.toNat_ofNat, one]
      omega
    unfold View.removePrefix
    rw [taken]
    congr 1
    · simp [View.ofBytes, List.drop_append]
    · apply BitVec.eq_of_toNat_eq
      rw [BitVec.toNat_sub, taken, View.toNat_size short, BitVec.toNat_ofNat]
      omega
  simp only [step, notEmpty, componentEnd_component _ clean short, Option.map_some, addPluginDir,
    substr, removed]
  simp

theorem advance_component {part rest : List UInt8} (clean : sep ∉ part)
    (short : (part ++ sep :: rest).length < 2 ^ 64) :
    ∀ n ∈ advance sep ⟨.ofBytes (part ++ sep :: rest), dirs⟩,
      n ≤ (View.ofBytes (part ++ sep :: rest)).size := by
  intro n advanced
  have same : BitVec.ofNat 64 part.length + 1 = n := by
    simpa [advance, componentEnd_component _ clean short] using advanced
  have one : (1 : BitVec 64).toNat = 1 := rfl
  rw [← same, BitVec.le_def, View.toNat_size short, BitVec.toNat_add, BitVec.toNat_ofNat, one]
  simp only [List.length_append, List.length_cons] at short ⊢
  omega

/-- The last component has no separator behind it: the turn takes off one byte more than
there is. -/
theorem advance_last {last : List UInt8} (clean : sep ∉ last) (short : last.length < 2 ^ 64) :
    advance sep ⟨.ofBytes last, dirs⟩ = some (BitVec.ofNat 64 last.length + 1) := by
  have absent : last.idxOf? sep = none := List.idxOf?_eq_none_iff.mpr clean
  rw [advance, componentEnd, View.find_ofBytes short, absent]
  simp [View.ofBytes]

/-! ### The whole loop -/

/-- What is before the last separator is split as it should be. -/
theorem reaches_last {parts : List (List UInt8)} {last : List UInt8}
    (clean : ∀ part ∈ parts, sep ∉ part) (short : (terminated sep parts ++ last).length < 2 ^ 64) :
    Reachable (step sep) Free ⟨.ofBytes (terminated sep parts ++ last), dirs⟩
      ⟨.ofBytes last, dirs ++ parts⟩ := by
  induction parts generalizing dirs with
  | nil => simpa using Reachable.start
  | cons part parts ih =>
      rw [terminated_cons, List.append_assoc, List.cons_append] at short ⊢
      have turn := step_component dirs (clean part List.mem_cons_self) short
      have rest := ih (dirs ++ [part])
        (fun other member => clean other (List.mem_cons_of_mem _ member)) (by
          simp only [List.length_append, List.length_cons] at short ⊢
          omega)
      simpa using (Reachable.next .start trivial turn).trans rest

/-- With a separator behind every component, the loop ends with all of them. -/
theorem ends_terminated {parts : List (List UInt8)} (clean : ∀ part ∈ parts, sep ∉ part)
    (short : (terminated sep parts).length < 2 ^ 64) :
    Inevitable (step sep) (fun s => s.dirs.empty ∧ s.pluginDirs = dirs ++ parts)
      ⟨.ofBytes (terminated sep parts), dirs⟩ := by
  induction parts generalizing dirs with
  | nil => exact .now ⟨rfl, by simp⟩
  | cons part parts ih =>
      rw [terminated_cons] at short ⊢
      have turn := step_component dirs (clean part List.mem_cons_self) short
      refine .later ⟨(), _, turn⟩ fun _ s' stepped => ?_
      obtain rfl : _ = s' := Option.some.inj (turn.symm.trans stepped)
      have rest := ih (dirs ++ [part])
        (fun other member => clean other (List.mem_cons_of_mem _ member)) (by
          simp only [List.length_append, List.length_cons] at short
          omega)
      simpa using rest

/-- The states of that loop: some of the components are still to come. -/
theorem reachable_terminated {parts : List (List UInt8)} {s : Splitting}
    (clean : ∀ part ∈ parts, sep ∉ part) (short : (terminated sep parts).length < 2 ^ 64)
    (reached : Reachable (step sep) Free ⟨.ofBytes (terminated sep parts), dirs⟩ s) :
    ∃ parts', (∀ part ∈ parts', sep ∉ part) ∧ (terminated sep parts').length < 2 ^ 64 ∧
      s.dirs = .ofBytes (terminated sep parts') := by
  induction reached with
  | start => exact ⟨parts, clean, short, rfl⟩
  | @next s s' _ _ _ stepped ih =>
      obtain ⟨parts', clean, short, same⟩ := ih
      obtain ⟨view, found⟩ := s
      obtain rfl : view = _ := same
      cases parts' with
      | nil => cases stepped
      | cons part parts' =>
          rw [terminated_cons] at short stepped
          rw [step_component _ (clean part List.mem_cons_self) short] at stepped
          obtain rfl := Option.some.inj stepped
          refine ⟨parts', fun other member => clean other (List.mem_cons_of_mem _ member), ?_, rfl⟩
          simp only [List.length_append, List.length_cons] at short
          omega

/-- Behind the last component the loop does not come to its end in good order: the view
is advanced past its end or, at the greatest length there is, not at all. -/
theorem not_inside_last {last : List UInt8} (clean : sep ∉ last) (nonempty : last ≠ [])
    (short : last.length < 2 ^ 64) (goal : Splitting → Prop)
    (done : ∀ s, goal s → s.dirs.empty)
    (inside : ∀ n ∈ advance sep ⟨.ofBytes last, dirs⟩, n ≤ (View.ofBytes last).size) :
    ¬ Inevitable (step sep) goal ⟨.ofBytes last, dirs⟩ := by
  have advanced := advance_last dirs clean short
  have bound := inside _ advanced
  have one : (1 : BitVec 64).toNat = 1 := rfl
  -- only a wrapped sum can be as small as the size
  have wraps : BitVec.ofNat 64 last.length + 1 = 0 := by
    rw [BitVec.le_def, View.toNat_size short, BitVec.toNat_add, BitVec.toNat_ofNat, one] at bound
    apply BitVec.eq_of_toNat_eq
    rw [BitVec.toNat_add, BitVec.toNat_ofNat, one, show (0 : BitVec 64).toNat = 0 from rfl]
    omega
  -- so the turn leaves the view as it is, and the loop never ends
  have stays : ∀ (s : Splitting) (turn : Unit) (s' : Splitting), s.dirs = .ofBytes last →
      step sep s turn = some s' → s'.dirs = .ofBytes last := by
    rintro ⟨view, found⟩ turn s' rfl stepped
    obtain ⟨stop, ended, next⟩ : ∃ stop, componentEnd sep ⟨.ofBytes last, found⟩ = some stop ∧
        s'.dirs = (View.ofBytes last).removePrefix (stop + 1) := by
      unfold step at stepped
      split at stepped
      · cases stepped
      · obtain ⟨stop, ended, rfl⟩ := Option.map_eq_some_iff.mp stepped
        exact ⟨stop, ended, rfl⟩
    have same : stop + 1 = 0 := by
      have advanced := advance_last found clean short
      rw [advance, ended, Option.map_some, wraps] at advanced
      exact Option.some.inj advanced
    rw [next, same]
    simp [View.removePrefix]
  have never : ∀ s : Splitting, s.dirs = .ofBytes last → ¬ goal s := by
    intro s same reached
    have ended := done s reached
    rw [same, View.empty_ofBytes short] at ended
    exact nonempty ended
  exact fun ends => ends.elim stays never rfl

end Splitting

/-! ### The contract -/

/-- **When the splitting does what it is to do.** The value is empty or ends with a
separator. -/
theorem splits_iff (sep : UInt8) (pluginDirs : List (List UInt8)) (value : EnvValue) :
    Splits sep pluginDirs value ↔ value.bytes = [] ∨ value.bytes.getLast? = some sep := by
  obtain ⟨bytes, short⟩ := value
  obtain ⟨parts, last, clean, cleanLast, rfl⟩ := exists_terminated sep bytes
  change _ ↔ terminated sep parts ++ last = [] ∨
    (terminated sep parts ++ last).getLast? = some sep
  have shortLast : last.length < 2 ^ 64 := by
    simp only [List.length_append] at short
    omega
  rw [ends_with_sep cleanLast]
  constructor
  · intro splits
    by_contra nonempty
    have reached := Splitting.reaches_last pluginDirs clean short
    refine Splitting.not_inside_last _ cleanLast nonempty shortLast _ (fun s goal => goal.1)
      (splits.inside _ reached ?_) (splits.ends.reached ?_ reached)
    · rwa [View.empty_ofBytes shortLast]
    · rintro s turn ⟨ended, -⟩
      simp [Splitting.step, ended]
  · rintro rfl
    simp only [List.append_nil] at short ⊢
    constructor
    · rw [components_terminated clean]
      exact Splitting.ends_terminated _ clean short
    · intro s reached nonempty
      obtain ⟨view, found⟩ := s
      obtain ⟨rest, clean, short, rfl⟩ := Splitting.reachable_terminated _ clean short reached
      cases rest with
      | nil => exact absurd rfl nonempty
      | cons part rest =>
          rw [terminated_cons] at short ⊢
          exact Splitting.advance_component _ (clean part List.mem_cons_self) short

/-- One directory, as the variable is usually set. -/
theorem not_splits_single : ¬ Splits ':'.toUInt8 [] ⟨['/', 'o', 'p', 't'].map Char.toUInt8, by decide⟩ := by
  intro splits
  have bound := splits.inside _ .start (by decide) 5 (by decide)
  exact absurd bound (by decide)

end AlpacaCore.Local
