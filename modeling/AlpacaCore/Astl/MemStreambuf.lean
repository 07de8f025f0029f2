import Mathlib.Data.List.Basic

/-!
`mem_ostreambuf`: a stream buffer that writes to a container and lets it grow.

The container is used by way of `Container`, which has what the buffer asks of it; `SmallVector` is
one. The buffer makes the whole capacity of the container available at once, so that of what is in
the container only the part in front of the put pointer was written. `text` is this part, and each
operation is what it does to it.
-/

namespace AlpacaCore.Astl

variable {C α : Type*}

/-- What `mem_ostreambuf` asks of its container. -/
class Container (C : Type*) (α : outParam (Type*)) where
  empty : C
  data : C → List α
  capacity : C → Nat
  resize : C → Nat → C
  clear : C → C
  /-- What is written to the memory it points to, from an offset on. -/
  copy : C → Nat → List α → C
  data_empty : data empty = []
  data_clear (c : C) : data (clear c) = []
  length_resize (c : C) (n : Nat) : (data (resize c n)).length = n
  kept (c : C) (n : Nat) : (data c).take n <+: data (resize c n)
  le_capacity (c : C) : (data c).length ≤ capacity c
  data_copy (c : C) (off : Nat) (s : List α) : off + s.length ≤ (data c).length →
    data (copy c off s) = (data c).take off ++ s ++ (data c).drop (off + s.length)

/-! ### The small vector -/

structure SmallVector (α : Type*) where
  data : List α
  /-- It is in the static buffer. -/
  isStatic : Bool
  capacity : Nat
  fits : data.length ≤ capacity
  pos : 0 < capacity

namespace SmallVector

/-- The loop of `choose_data`, "by roughly 1.5". -/
def grow (cap desired : Nat) : Nat :=
  if 0 < cap ∧ cap < desired then grow ((cap * 3 + 1) / 2) desired else cap
termination_by desired - cap

theorem le_grow (cap desired : Nat) : cap ≤ grow cap desired ∧ (0 < cap → desired ≤ grow cap desired) := by
  fun_induction grow cap desired with
  | case1 cap small ih =>
      constructor
      · omega
      · intro _
        exact ih.2 (by omega)
  | case2 cap large => omega

/-- The capacity that `choose_data` chooses to grow. -/
def chooseCapacity (v : SmallVector α) (desired : Nat) : Nat :=
  if v.isStatic then desired else grow v.capacity desired

def reserve (v : SmallVector α) (newCap : Nat) : SmallVector α :=
  if h : newCap ≤ v.capacity then v
  else
    have larger : v.capacity ≤ v.chooseCapacity newCap := by
      unfold chooseCapacity
      split
      · omega
      · exact (le_grow _ _).1
    ⟨v.data, false, v.chooseCapacity newCap, Nat.le_trans v.fits larger, Nat.lt_of_lt_of_le v.pos larger⟩

@[simp] theorem data_reserve (v : SmallVector α) (newCap : Nat) : (v.reserve newCap).data = v.data := by
  unfold reserve
  split <;> rfl

theorem le_capacity_reserve (v : SmallVector α) (newCap : Nat) : newCap ≤ (v.reserve newCap).capacity := by
  unfold reserve
  split
  · assumption
  · simp only [chooseCapacity]
    split
    · exact Nat.le_refl _
    · exact (le_grow _ _).2 v.pos

/-- `resize`, where new elements are value-initialized. -/
def resize [Inhabited α] (v : SmallVector α) (n : Nat) : SmallVector α :=
  { v.reserve n with
    data := v.data.take n ++ List.replicate (n - v.data.length) default
    fits := by
      have room := v.le_capacity_reserve n
      rw [List.length_append, List.length_take, List.length_replicate]
      omega }

/-- Without a size below which it reverts, it stays where it is. -/
def clear (v : SmallVector α) : SmallVector α := { v with data := [], fits := Nat.zero_le _ }

def copy (v : SmallVector α) (off : Nat) (s : List α) : SmallVector α :=
  { v with
    data := (v.data.take off ++ s ++ v.data.drop (off + s.length)).take v.data.length
    fits := by
      have room := v.fits
      rw [List.length_take]
      omega }

/-- `small_vector()` -/
def empty (α : Type*) (staticCapacity : Nat) (pos : 0 < staticCapacity) : SmallVector α :=
  ⟨[], true, staticCapacity, Nat.zero_le _, pos⟩

end SmallVector

/-- The memory of `m_streambuf` in the log, `small_vector<char, 1024>` -/
instance : Container (SmallVector UInt8) UInt8 where
  empty := .empty UInt8 1024 (by decide)
  data := SmallVector.data
  capacity := SmallVector.capacity
  resize := SmallVector.resize
  clear := SmallVector.clear
  copy := SmallVector.copy
  data_empty := rfl
  data_clear _ := rfl
  length_resize v n := by
    simp only [SmallVector.resize, List.length_append, List.length_take, List.length_replicate]
    omega
  kept v n := List.prefix_append _ _
  le_capacity v := v.fits
  data_copy v off s inside := by
    apply List.take_of_length_le
    simp only [List.length_append, List.length_take, List.length_drop]
    omega

/-! ### The buffer -/

/-- The put area ends where the container does. -/
structure MemOstreambuf (C : Type*) {α : Type*} [Container C α] where
  data : C
  pptr : Nat
  epptr : Nat
  inside : pptr ≤ epptr
  whole : epptr = (Container.data data).length

namespace MemOstreambuf

variable [Container C α]

open Container (resize capacity copy length_resize kept le_capacity data_copy)

/-- "we need two resize calls to adopt the container growth factor" -/
def capResizeBy (b : MemOstreambuf C) (n : Nat) : MemOstreambuf C :=
  let data := resize b.data ((Container.data b.data).length + n)
  { data := resize data (capacity data)
    pptr := b.pptr
    epptr := capacity data
    inside := by
      have larger := le_capacity data
      rw [length_resize, ← b.whole] at larger
      exact Nat.le_trans b.inside (Nat.le_trans (Nat.le_add_right _ _) larger)
    whole := (length_resize _ _).symm }

def clear (b : MemOstreambuf C) : MemOstreambuf C :=
  ⟨Container.clear b.data, 0, 0, Nat.le_refl _, by rw [Container.data_clear]; rfl⟩

/-- The characters that were written. -/
def text (b : MemOstreambuf C) : List α := (Container.data b.data).take b.pptr

theorem length_text (b : MemOstreambuf C) : b.text.length = b.pptr := by
  have inside := b.inside
  rw [b.whole] at inside
  rw [text, List.length_take]
  omega

@[simp] theorem text_clear (b : MemOstreambuf C) : b.clear.text = [] := rfl

theorem text_capResizeBy (b : MemOstreambuf C) (n : Nat) : (b.capResizeBy n).text = b.text := by
  have inside := b.inside
  rw [b.whole] at inside
  have first := kept b.data ((Container.data b.data).length + n)
  have second := kept (resize b.data ((Container.data b.data).length + n))
    (capacity (resize b.data ((Container.data b.data).length + n)))
  rw [List.take_of_length_le (by omega)] at first
  rw [List.take_of_length_le (le_capacity _)] at second
  obtain ⟨rest, grown⟩ := first.trans second
  unfold text capResizeBy
  simp only
  rw [← grown, List.take_append_of_le_length inside]

/-- There is as much more room as was asked for. -/
theorem epptr_capResizeBy (b : MemOstreambuf C) (n : Nat) : b.epptr + n ≤ (b.capResizeBy n).epptr := by
  have larger := le_capacity (resize b.data ((Container.data b.data).length + n))
  rw [length_resize] at larger
  rw [b.whole]
  exact larger

/-- Where there is room, the characters are copied to the put pointer. -/
def put (b : MemOstreambuf C) (s : List α) (room : b.pptr + s.length ≤ b.epptr) : MemOstreambuf C where
  data := copy b.data b.pptr s
  pptr := b.pptr + s.length
  epptr := b.epptr
  inside := room
  whole := by
    have whole := b.whole
    rw [data_copy _ _ _ (by omega)]
    simp only [List.length_append, List.length_take, List.length_drop]
    omega

theorem text_put (b : MemOstreambuf C) (s : List α) (room : b.pptr + s.length ≤ b.epptr) :
    (b.put s room).text = b.text ++ s := by
  have whole := b.whole
  have front : (b.text ++ s).length = b.pptr + s.length := by
    rw [List.length_append, length_text]
  unfold text at front ⊢
  simp only [put]
  rw [data_copy _ _ _ (by omega), List.take_append_of_le_length (by omega), ← front, List.take_length]

/-- `sputc`, with `overflow` where there is no room. -/
def sputc (b : MemOstreambuf C) (ch : α) : MemOstreambuf C :=
  if room : b.pptr < b.epptr then b.put [ch] room
  else (b.capResizeBy 1).put [ch] (by
    have more := b.epptr_capResizeBy 1
    have inside := b.inside
    rw [List.length_singleton]
    exact Nat.le_trans (Nat.add_le_add_right inside 1) more)

/-- `xsputn` -/
def sputn (b : MemOstreambuf C) (s : List α) : MemOstreambuf C :=
  let rem := b.epptr - b.pptr
  if room : s.length ≤ rem then b.put s (by have inside := b.inside; omega)
  else (b.capResizeBy (s.length - rem)).put s (by
    have more := b.epptr_capResizeBy (s.length - rem)
    have inside := b.inside
    have same : (b.capResizeBy (s.length - rem)).pptr = b.pptr := rfl
    omega)

@[simp] theorem text_sputc (b : MemOstreambuf C) (ch : α) : (b.sputc ch).text = b.text ++ [ch] := by
  unfold sputc
  split
  · rw [text_put]
  · rw [text_put, text_capResizeBy]

@[simp] theorem text_sputn (b : MemOstreambuf C) (s : List α) : (b.sputn s).text = b.text ++ s := by
  unfold sputn
  simp only
  split
  · rw [text_put]
  · rw [text_put, text_capResizeBy]

/-- The constructor. -/
def new (C : Type*) {α : Type*} [Container C α] (reserve : Nat) : MemOstreambuf C :=
  capResizeBy ⟨Container.empty, 0, 0, Nat.le_refl _, by rw [Container.data_empty]; rfl⟩ reserve

@[simp] theorem text_new (reserve : Nat) : (new C reserve).text = [] := by
  rw [new, text_capResizeBy]
  rfl

end MemOstreambuf

end AlpacaCore.Astl
