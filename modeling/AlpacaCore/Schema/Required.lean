import AlpacaCore.Schema.Serialize

/-!
Whether what is required is there once a struct has been decoded.

The decoder asks for required fields where it visits them. It visits a struct that the
dict has a member for. A struct that is there by default, and that the dict leaves out,
is left as it is, and one that the dict fills in part starts from the default: what the
default lacks stays away then.
-/

namespace AlpacaCore.Schema

mutual

/-- Every field that is declared required has a value, in every struct that is there. -/
def FieldType.Filled : {α : Type} → FieldType α → α → Prop
  | _, .struct fields, x => fields.Filled x
  | _, .array item, xs => ∀ x ∈ xs, item.Filled x
  | _, .string, _ => True
  | _, .integer _, _ => True
  | _, .boolean, _ => True
  | _, .number _, _ => True
  | _, .null, _ => True
  | _, .blob, _ => True

def Fields.Filled : {σ : Type} → Fields σ → σ → Prop
  | _, .nil, _ => True
  | _, .cons _ _ init type rest, (field, x) =>
      (match field.value, init with
        | some value, _ => type.Filled value
        | none, .required => False
        | none, .optional => True
        | none, .default _ => True) ∧
      rest.Filled x

end

mutual

/-- What the dict leaves out of a value by default has no such gap, down to every struct
of which it leaves something out. -/
def FieldType.Covered : {α : Type} → FieldType α → (base : α) → Dict → Prop
  | _, .struct fields, base, d => fields.Covered base d
  | _, .array item, _, d => ∀ v ∈ d.items, item.Covered item.empty v
  | _, .string, _, _ => True
  | _, .integer _, _, _ => True
  | _, .boolean, _, _ => True
  | _, .number _, _, _ => True
  | _, .null, _, _ => True
  | _, .blob, _, _ => True

def Fields.Covered : {σ : Type} → Fields σ → (base : σ) → Dict → Prop
  | _, .nil, _, _ => True
  | _, .cons name _ init type rest, (field, base), d =>
      (match d.find name, field.value, init with
        | some v, _, _ => type.Covered (field.materialize type.empty) v
        | none, some value, _ => type.Filled value
        | none, none, .required => False
        | none, none, .optional => True
        | none, none, .default _ => True) ∧
      rest.Covered base d

end

mutual

/-- What the decoder makes of a value that was there has no gap exactly if the dict
covers it. -/
theorem FieldType.filled_iff : {α : Type} → (type : FieldType α) → ∀ {base x : α} {d : Dict},
    type.read base d = .ok x → (type.Filled x ↔ type.Covered base d)
  | _, .struct fields, _, _, _, read => fields.filled_iff read
  | _, .array item, _, xs, d, read => by
      have each : ∀ {x v}, item.read item.empty v = .ok x →
          (item.Filled x ↔ item.Covered item.empty v) := fun read => item.filled_iff read
      simp only [FieldType.read, mapM_ok] at read
      simp only [FieldType.Filled, FieldType.Covered]
      generalize d.items = items at read
      induction read with
      | nil => simp
      | cons first _ ih => simp only [List.forall_mem_cons, ih, each first]
  | _, .string, _, _, _, _ => Iff.rfl
  | _, .integer _, _, _, _, _ => Iff.rfl
  | _, .boolean, _, _, _, _ => Iff.rfl
  | _, .number _, _, _, _, _ => Iff.rfl
  | _, .null, _, _, _, _ => Iff.rfl
  | _, .blob, _, _, _, _ => Iff.rfl

theorem Fields.filled_iff : {σ : Type} → (fields : Fields σ) → ∀ {base x : σ} {d : Dict},
    fields.read base d = .ok x → (fields.Filled x ↔ fields.Covered base d)
  | _, .nil, _, _, _, _ => Iff.rfl
  | _, .cons name desc init type rest, (found, base), (field, x), d, read => by
      simp only [Fields.Filled, Fields.Covered]
      cases entry : d.find name with
      | none =>
          obtain ⟨-, rfl, others⟩ := (Fields.read_absent entry).mp read
          rw [rest.filled_iff others]
          apply and_congr_left
          intro _
          cases field.value with
          | some value => exact Iff.rfl
          | none => cases init <;> exact Iff.rfl
      | some v =>
          obtain ⟨value, first, rfl, others⟩ := (Fields.read_present entry).mp read
          rw [rest.filled_iff others]
          apply and_congr_left
          intro _
          exact type.filled_iff first

end

/-! ### Types without gaps -/

mutual

/-- The values by default have no gap. -/
def FieldType.DefaultsFilled : {α : Type} → FieldType α → Prop
  | _, .struct fields => fields.DefaultsFilled
  | _, .array item => item.DefaultsFilled
  | _, .string => True
  | _, .integer _ => True
  | _, .boolean => True
  | _, .number _ => True
  | _, .null => True
  | _, .blob => True

def Fields.DefaultsFilled : {σ : Type} → Fields σ → Prop
  | _, .nil => True
  | _, .cons _ _ init type rest =>
      (match init with
        | .required => True
        | .optional => True
        | .default value => type.Filled value) ∧
      type.DefaultsFilled ∧ rest.DefaultsFilled

end

/-- What is required of the struct has a value or is asked for, and no value has a gap. -/
def Fields.Ready : {σ : Type} → Fields σ → σ → Prop
  | _, .nil, _ => True
  | _, .cons _ _ init type rest, (field, x) =>
      (match field.value, init with
        | some value, _ => type.Filled value
        | none, .required => field.required = true
        | none, .optional => True
        | none, .default _ => True) ∧
      rest.Ready x

def FieldType.Ready {α : Type} : FieldType α → α → Prop
  | .struct fields, x => fields.Ready x
  | _, _ => True

theorem Fields.ready_of_filled : {σ : Type} → (fields : Fields σ) → ∀ {x : σ}, fields.Filled x →
    fields.Ready x
  | _, .nil, _, _ => trivial
  | _, .cons _ _ init _ rest, (field, _), filled => by
      obtain ⟨first, others⟩ := filled
      constructor
      · generalize field.value = value at first
        cases value with
        | some value => exact first
        | none =>
            cases init with
            | required => exact first.elim
            | optional | default => trivial
      · exact rest.ready_of_filled others

theorem Fields.ready_empty : {σ : Type} → (fields : Fields σ) → fields.DefaultsFilled →
    fields.Ready fields.empty
  | _, .nil, _ => trivial
  | _, .cons _ _ init _ rest, whole => by
      obtain ⟨first, _, others⟩ := whole
      constructor
      · cases init with
        | required => rfl
        | optional => trivial
        | default value => exact first
      · exact rest.ready_empty others

theorem FieldType.ready_of_filled {α : Type} (type : FieldType α) {x : α} (filled : type.Filled x) :
    type.Ready x := by
  cases type with
  | struct fields => exact fields.ready_of_filled filled
  | _ => trivial

theorem FieldType.ready_empty {α : Type} (type : FieldType α) (whole : type.DefaultsFilled) :
    type.Ready type.empty := by
  cases type with
  | struct fields => exact fields.ready_empty whole
  | _ => trivial

mutual

theorem FieldType.covered_of_ready : {α : Type} → (type : FieldType α) → type.DefaultsFilled →
    ∀ {base x : α} {d : Dict}, type.Ready base → type.read base d = .ok x → type.Covered base d
  | _, .struct fields, whole, _, _, _, ready, read => fields.covered_of_ready whole ready read
  | _, .array item, whole, _, xs, d, _, read => by
      have each : ∀ {x v}, item.read item.empty v = .ok x → item.Covered item.empty v :=
        fun read => item.covered_of_ready whole (item.ready_empty whole) read
      simp only [FieldType.read, mapM_ok] at read
      simp only [FieldType.Covered]
      generalize d.items = items at read
      induction read with
      | nil => simp
      | cons first _ ih => exact List.forall_mem_cons.mpr ⟨each first, ih⟩
  | _, .string, _, _, _, _, _, _ => trivial
  | _, .integer _, _, _, _, _, _, _ => trivial
  | _, .boolean, _, _, _, _, _, _ => trivial
  | _, .number _, _, _, _, _, _, _ => trivial
  | _, .null, _, _, _, _, _, _ => trivial
  | _, .blob, _, _, _, _, _, _ => trivial

theorem Fields.covered_of_ready : {σ : Type} → (fields : Fields σ) → fields.DefaultsFilled →
    ∀ {base x : σ} {d : Dict}, fields.Ready base → fields.read base d = .ok x →
      fields.Covered base d
  | _, .nil, _, _, _, _, _, _ => trivial
  | _, .cons name desc init type rest, whole, (found, base), (field, x), d, ready, read => by
      obtain ⟨-, whole, wholeRest⟩ := whole
      obtain ⟨first, ready⟩ := ready
      simp only [Fields.Covered]
      cases entry : d.find name with
      | none =>
          obtain ⟨optional, rfl, others⟩ := (Fields.read_absent entry).mp read
          constructor
          · generalize field.value = value at first
            cases value with
            | some value => exact first
            | none =>
                cases init with
                | required => simp [optional] at first
                | optional | default => trivial
          · exact rest.covered_of_ready wholeRest ready others
      | some v =>
          obtain ⟨value, here, rfl, others⟩ := (Fields.read_present entry).mp read
          refine ⟨type.covered_of_ready whole ?_ here, rest.covered_of_ready wholeRest ready others⟩
          unfold Field.materialize
          generalize found.value = held at first
          cases held with
          | some value => exact type.ready_of_filled first
          | none => exact type.ready_empty whole

end

/-! ### The contract -/

/-- **When what is required is there.** A decoded value has every field that is declared
required, at every depth, exactly if the values by default that the dict leaves as they
are, or fills in part, have what is left of theirs. -/
theorem filled_fromDict_iff {α : Type} {type : FieldType α} {value : α} {d : Dict}
    (decoded : type.fromDict d = .ok value) :
    type.Filled value ↔ type.Covered type.empty d := type.filled_iff decoded

/-- A type whose values by default have no gap decodes to values without one. -/
theorem filled_of_defaultsFilled {α : Type} {type : FieldType α} {value : α} {d : Dict}
    (whole : type.DefaultsFilled) (decoded : type.fromDict d = .ok value) : type.Filled value :=
  (type.filled_iff decoded).mpr (type.covered_of_ready whole (type.ready_empty whole) decoded)

/-- A struct whose member is there by default, without the name it requires. -/
def contact : FieldType (Field (Field String × Unit) × Unit) :=
  .struct (.cons "person" "" (.default (Field.make .required, ()))
    (.struct (.cons "name" "" .required .string .nil)) .nil)

theorem not_filled_default : ¬ ∀ (d : Dict) (value : Field (Field String × Unit) × Unit),
    contact.fromDict d = .ok value → contact.Filled value := by
  intro always
  exact (always (.object []) _ rfl).1.1

theorem filled_fromDict_iff_default : contact.fromDict (.object []) = .ok contact.empty ∧
    (contact.Filled contact.empty ↔ contact.Covered contact.empty (.object [])) :=
  ⟨rfl, filled_fromDict_iff rfl⟩

end AlpacaCore.Schema
