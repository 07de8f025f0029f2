import AlpacaCore.Schema.Serialize

/-!
Decoding what was encoded.

The encoder leaves out a field that has no value or is marked as set by default;
the decoder leaves such a field as it finds it. What it finds is not always what the
encoder left out: a `Default` field of a struct type starts from that default, whose
own fields need not have the defaults of their declarations. `Restored` is the
condition under which the two agree.
-/

namespace AlpacaCore.Schema

mutual

/-- What the encoder leaves out of `x` is what the decoder finds in `base`. -/
def FieldType.Restored : {α : Type} → FieldType α → (base x : α) → Prop
  | _, .struct fields, base, x => fields.Restored base x
  | _, .array item, _, xs => ∀ x ∈ xs, item.Restored item.empty x
  | _, .string, _, _ => True
  | _, .integer _, _, _ => True
  | _, .boolean, _, _ => True
  | _, .number _, _, _ => True
  | _, .null, _, _ => True
  | _, .blob, _, _ => True

def Fields.Restored : {σ : Type} → Fields σ → (base x : σ) → Prop
  | _, .nil, _, _ => True
  | _, .cons _ _ _ type rest, (found, base), (field, x) =>
      (match field.written with
        | some value => type.Restored (found.materialize type.empty) value
        | none => found.required = false ∧ Option.Rel type.Same field.value found.value) ∧
      rest.Restored base x

end

/-! ### Leaves -/

theorem signExtend_setWidth {w : Nat} (bound : w ≤ 64) (n : BitVec w) :
    (n.signExtend 64).setWidth w = n := by
  ext i below
  simp [BitVec.getLsbD_signExtend, below]
  omega

/-- An integer fits into the number it is written as. -/
theorem getInt_write {type : IntType} (n : BitVec type.width) :
    Dict.getInt type (if type.signed then .integer (n.signExtend 64) else .unsigned (n.setWidth 64)) =
      .ok n := by
  cases type.signed with
  | true => exact congrArg Except.ok (signExtend_setWidth type.width_le n)
  | false =>
      apply congrArg Except.ok
      simp [type.width_le]

/-! ### Structs and vectors -/

mutual

/-- Reading a written value onto `base` gives the value back exactly when `base` has what
was left out. -/
theorem FieldType.read_write : {α : Type} → (type : FieldType α) → type.Distinct → ∀ {base x : α}
    {d : Dict}, type.write x .null = .ok d →
      ((∃ y, type.read base d = .ok y ∧ type.Same x y) ↔ type.Restored base x)
  | _, .string, _, _, x, _, computed => by
      cases computed
      exact ⟨fun _ => trivial, fun _ => ⟨x, rfl, rfl⟩⟩
  | _, .integer type, _, _, x, _, computed => by
      cases computed
      exact ⟨fun _ => trivial, fun _ => ⟨x, getInt_write x, rfl⟩⟩
  | _, .boolean, _, _, x, _, computed => by
      cases computed
      exact ⟨fun _ => trivial, fun _ => ⟨x, rfl, rfl⟩⟩
  | _, .number type, _, _, x, _, computed => by
      cases computed
      exact ⟨fun _ => trivial, fun _ => ⟨x, congrArg Except.ok (type.ofDouble_toDouble x), rfl⟩⟩
  | _, .null, _, _, x, _, computed => by
      cases computed
      exact ⟨fun _ => trivial, fun _ => ⟨x, rfl, trivial⟩⟩
  | _, .blob, _, _, x, _, computed => by
      cases computed
      exact ⟨fun _ => trivial, fun _ => ⟨x, rfl, rfl⟩⟩
  | _, .array item, distinct, _, xs, _, computed => by
      obtain ⟨items, looped, rfl⟩ := map_ok.mp computed
      have written := mapM_ok.mp looped
      have each : ∀ {x d}, item.write x .null = .ok d →
          ((∃ y, item.read item.empty d = .ok y ∧ item.Same x y) ↔ item.Restored item.empty x) :=
        fun first => item.read_write distinct first
      clear computed looped
      simp only [FieldType.read, FieldType.Same, FieldType.Restored, Dict.items, mapM_ok]
      induction written with
      | nil => exact ⟨by simp, fun _ => ⟨[], .nil, .nil⟩⟩
      | @cons x d xs items first _ ih =>
          simp only [List.forall_mem_cons, ← ih, ← each first]
          constructor
          · rintro ⟨ys, read, same⟩
            cases read with
            | cons readFirst readRest =>
                cases same with
                | cons sameFirst sameRest =>
                    exact ⟨⟨_, readFirst, sameFirst⟩, ⟨_, readRest, sameRest⟩⟩
          · rintro ⟨⟨y, readFirst, sameFirst⟩, ⟨ys, readRest, sameRest⟩⟩
            exact ⟨y :: ys, .cons readFirst readRest, .cons sameFirst sameRest⟩
  | _, .struct fields, distinct, _, _, _, computed =>
      fields.read_write distinct (.inl rfl) (fun _ _ => rfl) computed

theorem Fields.read_write : {σ : Type} → (fields : Fields σ) → fields.Distinct → ∀ {base x : σ}
    {out d : Dict}, out.Open → (∀ name ∈ fields.names, out.find name = none) →
      fields.write x out = .ok d →
        ((∃ y, fields.read base d = .ok y ∧ fields.Same x y) ↔ fields.Restored base x)
  | _, .nil, _, _, _, _, _, _, _, _ => ⟨fun _ => trivial, fun _ => ⟨(), rfl, trivial⟩⟩
  | _, .cons name desc init type rest, distinct, (found, base), (field, x), out, d, isOpen, fresh,
      computed => by
      obtain ⟨out', isOpen', fresh', others, first⟩ :=
        Fields.write_first distinct isOpen fresh computed
      have later : (∃ y, rest.read base d = .ok y ∧ rest.Same x y) ↔ rest.Restored base x :=
        rest.read_write distinct.2.2 isOpen' fresh' others
      simp only [Prod.exists, Fields.Same, Fields.Restored, ← later]
      rcases first with ⟨omitted, absent⟩ | ⟨value, written, given, wrote, present⟩
      · -- left out: the decoder keeps what it finds
        simp only [omitted, Fields.read_absent absent]
        constructor
        · rintro ⟨_, y, ⟨optional, rfl, read⟩, sameField, sameRest⟩
          exact ⟨⟨optional, sameField⟩, y, read, sameRest⟩
        · rintro ⟨⟨optional, sameField⟩, y, read, sameRest⟩
          exact ⟨found, y, ⟨optional, rfl, read⟩, sameField, sameRest⟩
      · have here : (∃ v, type.read (found.materialize type.empty) written = .ok v ∧
            type.Same value v) ↔ type.Restored (found.materialize type.empty) value :=
          type.read_write distinct.2.1 wrote
        simp only [given, Fields.read_present present, ← here, Field.written_some given]
        constructor
        · rintro ⟨_, y, ⟨v, readFirst, rfl, readRest⟩, sameField, sameRest⟩
          cases sameField with
          | some same => exact ⟨⟨v, readFirst, same⟩, y, readRest, sameRest⟩
        · rintro ⟨⟨v, readFirst, same⟩, y, readRest, sameRest⟩
          exact ⟨found.fill v, y, ⟨v, readFirst, rfl, readRest⟩, .some same, sameRest⟩

end

/-! ### The contract -/

/-- **When decode undoes encode.** A value that can be encoded is decoded to the same
values exactly when every field left out has the same value in what the decoder starts
from, which does not require the field. -/
theorem fromDict_toDict_iff {α : Type} {type : FieldType α} (distinct : type.Distinct) {value : α}
    {d : Dict} (encoded : type.toDict value = .ok d) :
    (∃ decoded, type.fromDict d = .ok decoded ∧ type.Same value decoded) ↔
      type.Restored type.empty value :=
  type.read_write distinct encoded

/-- A struct with a required name and an age that is 0 by default. -/
def person : Fields (Field String × Field (BitVec 32) × Unit) :=
  .cons "name" "Name of the person" .required .string
    (.cons "age" "Age of the person" (.default 0) (.integer .int) .nil)

/-- A struct whose person is by default one of age 5. -/
def card : FieldType (Field (Field String × Field (BitVec 32) × Unit) × Unit) :=
  .struct (.cons "holder" "Holder of the card"
    (.default ((Field.make .required).assign "X", (Field.make (.default 0)).assign 5, ()))
    (.struct person) .nil)

/-- A card for another person, whose age is as declared. -/
def card_Y : Field (Field String × Field (BitVec 32) × Unit) × Unit :=
  (card.empty.1.assign ((Field.make .required).assign "Y", Field.make (.default 0), ()), ())

/-- The age left out is filled in from the default holder. -/
theorem fromDict_toDict_differs : ∃ d decoded, card.toDict card_Y = .ok d ∧
    card.fromDict d = .ok decoded ∧ ¬ card.Same card_Y decoded := by
  refine ⟨_, _, rfl, rfl, ?_⟩
  rintro ⟨holder, -⟩
  cases holder with
  | some same =>
      obtain ⟨-, age, -⟩ := same
      cases age with
      | some equal => exact absurd (show (0 : BitVec 32) = 5 from equal) (by decide)

/-- A card for another person of another age. -/
theorem fromDict_toDict_iff_card : (∃ decoded,
    card.fromDict (.object [("holder", .object [("age", .integer 7), ("name", .string "Y")])]) =
      .ok decoded ∧
    card.Same (card.empty.1.assign ((Field.make .required).assign "Y",
      (Field.make (.default 0)).assign 7, ()), ()) decoded) ↔
    card.Restored card.empty (card.empty.1.assign ((Field.make .required).assign "Y",
      (Field.make (.default 0)).assign 7, ()), ()) :=
  fromDict_toDict_iff (by simp [card, person, FieldType.Distinct, Fields.Distinct, Fields.names]) rfl

end AlpacaCore.Schema
