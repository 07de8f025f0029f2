import AlpacaCore.Schema.Dict
import Mathlib.Data.List.Forall2

/-!
`schema::Field` and the types whose fields a visitor can visit.

A visitable struct is a C++ type; here its fields are described by a value of
`Fields`, in the order `visitFields` has them, and a value of the struct is the
tuple of its `Field`s. `FieldType α` describes the C++ type whose values are those
of `α`. (`std::vector<uint8_t>` is `Blob`, and a `std::vector<bool>` has no
elements a visitor can refer to; both are described all the same.)
-/

namespace AlpacaCore.Schema

/-- `schema::Field<T>`: `m_value` and the two flags. -/
structure Field (α : Type) where
  value : Option α
  required : Bool
  defaultSet : Bool
deriving DecidableEq, Repr

/-- How a member is declared: `Field<T> x;`, `Field<T> x = std::nullopt;`, or
`Field<T> x = Default(value);`. -/
inductive Init (α : Type) where
  | required
  | optional
  | default (value : α)

namespace Field

variable {α : Type}

/-- The constructors. -/
def make : Init α → Field α
  | .required => ⟨none, true, false⟩
  | .optional => ⟨none, false, false⟩
  | .default value => ⟨some value, false, true⟩

/-- The constructor from a value. -/
def ofValue (value : α) : Field α := ⟨some value, false, false⟩

/-- `operator=(T&&)`. -/
def assign (field : Field α) (value : α) : Field α :=
  { field with value := some value, defaultSet := false }

/-- The value `materialize` refers to; `empty` is the value-initialised `T`. -/
def materialize (field : Field α) (empty : α) : α := field.value.getD empty

/-- The field once the materialized value has become `value`: no flag changes. -/
def fill (field : Field α) (value : α) : Field α := { field with value := some value }

end Field

mutual

/-- The type of a field or an element. -/
inductive FieldType : Type → Type 1 where
  | string : FieldType String
  | integer (type : IntType) : FieldType (BitVec type.width)
  | boolean : FieldType Bool
  | number (type : FloatType) : FieldType type.Value
  | null : FieldType Unit
  | blob : FieldType Blob
  | array {α : Type} (item : FieldType α) : FieldType (List α)
  | struct {σ : Type} (fields : Fields σ) : FieldType σ

/-- The fields of a visitable struct. -/
inductive Fields : Type → Type 1 where
  | nil : Fields Unit
  | cons {α σ : Type} (name desc : String) (init : Init α) (type : FieldType α)
      (rest : Fields σ) : Fields (Field α × σ)

end

/-- The names `visitFields` gives, in order. -/
def Fields.names : {σ : Type} → Fields σ → List String
  | _, .nil => []
  | _, .cons name _ _ _ rest => name :: rest.names

mutual

/-- A value-initialised value of the type. -/
def FieldType.empty : {α : Type} → FieldType α → α
  | _, .string => ""
  | _, .integer _ => 0
  | _, .boolean => false
  | _, .number type => type.ofInt 0
  | _, .null => ()
  | _, .blob => []
  | _, .array _ => []
  | _, .struct fields => fields.empty

/-- A struct as its default member initialisers make it. -/
def Fields.empty : {σ : Type} → Fields σ → σ
  | _, .nil => ()
  | _, .cons _ _ init _ rest => (.make init, rest.empty)

end

mutual

/-- The field names of every struct in the type are distinct. -/
def FieldType.Distinct : {α : Type} → FieldType α → Prop
  | _, .array item => item.Distinct
  | _, .struct fields => fields.Distinct
  | _, .string => True
  | _, .integer _ => True
  | _, .boolean => True
  | _, .number _ => True
  | _, .null => True
  | _, .blob => True

def Fields.Distinct : {σ : Type} → Fields σ → Prop
  | _, .nil => True
  | _, .cons name _ _ type rest => name ∉ rest.names ∧ type.Distinct ∧ rest.Distinct

end

mutual

/-- The same value, or absence of a value, in every field at every depth. -/
def FieldType.Same : {α : Type} → FieldType α → α → α → Prop
  | _, .array item, xs, ys => List.Forall₂ item.Same xs ys
  | _, .struct fields, x, y => fields.Same x y
  | _, .string, x, y => x = y
  | _, .integer _, x, y => x = y
  | _, .boolean, x, y => x = y
  | _, .number _, x, y => x = y
  | _, .null, _, _ => True
  | _, .blob, x, y => x = y

def Fields.Same : {σ : Type} → Fields σ → σ → σ → Prop
  | _, .nil, _, _ => True
  | _, .cons _ _ _ type rest, (field, x), (field', y) =>
      Option.Rel type.Same field.value field'.value ∧ rest.Same x y

end

mutual

theorem FieldType.same_refl : {α : Type} → (type : FieldType α) → (x : α) → type.Same x x
  | _, .array item, _ => List.forall₂_same.mpr fun x _ => item.same_refl x
  | _, .struct fields, x => fields.same_refl x
  | _, .string, _ => rfl
  | _, .integer _, _ => rfl
  | _, .boolean, _ => rfl
  | _, .number _, _ => rfl
  | _, .null, _ => trivial
  | _, .blob, _ => rfl

theorem Fields.same_refl : {σ : Type} → (fields : Fields σ) → (x : σ) → fields.Same x x
  | _, .nil, _ => trivial
  | _, .cons _ _ _ type rest, (field, x) => by
      constructor
      · cases field.value with
        | none => exact .none
        | some value => exact .some (type.same_refl value)
      · exact rest.same_refl x

end

mutual

theorem FieldType.same_symm : {α : Type} → (type : FieldType α) → ∀ {x y : α}, type.Same x y →
    type.Same y x
  | _, .array item, _, _, same => by
      have each : ∀ {x y}, item.Same x y → item.Same y x := fun same => item.same_symm same
      induction same with
      | nil => exact .nil
      | cons first _ ih => exact .cons (each first) ih
  | _, .struct fields, _, _, same => fields.same_symm same
  | _, .string, _, _, same => Eq.symm same
  | _, .integer _, _, _, same => Eq.symm same
  | _, .boolean, _, _, same => Eq.symm same
  | _, .number _, _, _, same => Eq.symm same
  | _, .null, _, _, _ => trivial
  | _, .blob, _, _, same => Eq.symm same

theorem Fields.same_symm : {σ : Type} → (fields : Fields σ) → ∀ {x y : σ}, fields.Same x y →
    fields.Same y x
  | _, .nil, _, _, _ => trivial
  | _, .cons _ _ _ type rest, (field, _), (field', _), same => by
      obtain ⟨first, others⟩ := same
      constructor
      · generalize field.value = value at first
        generalize field'.value = value' at first
        cases first with
        | none => exact .none
        | some same => exact .some (type.same_symm same)
      · exact rest.same_symm others

end

end AlpacaCore.Schema
