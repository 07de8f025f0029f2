import AlpacaCore.Schema.RoundTrip

/-!
Encoding what was decoded.

The decoder fills a field through `materialize`, which leaves the flags as they are. A
`Default` field that the dictionary has therefore keeps its mark, and the encoder leaves
it out. Nothing is lost where the dictionary only restates defaults.
-/

namespace AlpacaCore.Schema

mutual

/-- The dictionary stands for the value `x`, given what the decoder finds. -/
def FieldType.Denotes : {α : Type} → FieldType α → (base : α) → Dict → (x : α) → Prop
  | _, .struct fields, base, d, x => fields.Denotes base d x
  | _, .array item, _, d, xs => List.Forall₂ (item.Denotes item.empty) d.items xs
  | _, .string, _, d, s => d = .string s
  | _, .blob, _, d, bytes => d = .binary bytes
  | _, .boolean, _, d, b => d = .boolean b
  | _, .null, _, d, _ => d = .null
  | _, .integer type, _, d, n => d.getInt type = .ok n
  | _, .number type, _, d, x => d.getFloat type = .ok x

/-- A field has the value its entry stands for, or without an entry the value that is
found, which must not be missing. -/
def Fields.Denotes : {σ : Type} → Fields σ → (base : σ) → Dict → (x : σ) → Prop
  | _, .nil, _, _, _ => True
  | _, .cons name _ _ type rest, (found, base), d, (field, x) =>
      (match d.find name with
        | none => found.required = false ∧ Option.Rel type.Same field.value found.value
        | some v => ∃ value, field.value = some value ∧
            type.Denotes (found.materialize type.empty) v value) ∧
      rest.Denotes base d x

end

mutual

/-- Where the dictionary has an entry for a `Default` field, the entry stands for the
default. -/
def FieldType.Restates : {α : Type} → FieldType α → Dict → Prop
  | _, .struct fields, d => fields.Restates d
  | _, .array item, d => ∀ v ∈ d.items, item.Restates v
  | _, .string, _ => True
  | _, .blob, _ => True
  | _, .boolean, _ => True
  | _, .null, _ => True
  | _, .integer _, _ => True
  | _, .number _, _ => True

def Fields.Restates : {σ : Type} → Fields σ → Dict → Prop
  | _, .nil, _ => True
  | _, .cons name _ init type rest, d =>
      (match d.find name, init with
        | none, _ => True
        | some v, .default value => type.Denotes value v value
        | some v, .required => type.Restates v
        | some v, .optional => type.Restates v) ∧
      rest.Restates d

end

/-! ### What a dictionary stands for is what is decoded -/

theorem Dict.getString_ok {d : Dict} {s : String} : d.getString = .ok s ↔ d = .string s := by
  cases d <;> simp [Dict.getString]

theorem Dict.getBinary_ok {d : Dict} {bytes : Blob} :
    d.getBinary = .ok bytes ↔ d = .binary bytes := by
  cases d <;> simp [Dict.getBinary]

theorem Dict.getBool_ok {d : Dict} {b : Bool} : d.getBool = .ok b ↔ d = .boolean b := by
  cases d <;> simp [Dict.getBool]

theorem Dict.getNull_ok {d : Dict} : d.getNull = .ok () ↔ d = .null := by
  cases d <;> simp [Dict.getNull]

/-- A value is equal to what was read. -/
theorem exists_read_eq {α : Type} {read : Except Exception α} {x : α} :
    (∃ y, read = .ok y ∧ x = y) ↔ read = .ok x := by
  constructor
  · rintro ⟨y, computed, rfl⟩
    exact computed
  · intro computed
    exact ⟨x, computed, rfl⟩

mutual

theorem FieldType.denotes_iff : {α : Type} → (type : FieldType α) → ∀ {base x : α} {d : Dict},
    type.Denotes base d x ↔ ∃ y, type.read base d = .ok y ∧ type.Same x y
  | _, .string, _, _, _ => Dict.getString_ok.symm.trans exists_read_eq.symm
  | _, .blob, _, _, _ => Dict.getBinary_ok.symm.trans exists_read_eq.symm
  | _, .boolean, _, _, _ => Dict.getBool_ok.symm.trans exists_read_eq.symm
  | _, .integer _, _, _, _ => exists_read_eq.symm
  | _, .number _, _, _, _ => exists_read_eq.symm
  | _, .null, _, _, d => by
      apply Dict.getNull_ok.symm.trans
      constructor
      · intro read
        exact ⟨(), read, trivial⟩
      · rintro ⟨_, read, -⟩
        exact read
  | _, .array item, _, xs, d => by
      have each : ∀ {v x}, item.Denotes item.empty v x ↔
          ∃ y, item.read item.empty v = .ok y ∧ item.Same x y := item.denotes_iff
      simp only [FieldType.Denotes, FieldType.read, FieldType.Same, mapM_ok]
      generalize d.items = items
      induction items generalizing xs with
      | nil =>
          constructor
          · intro none
            cases none
            exact ⟨[], .nil, .nil⟩
          · rintro ⟨ys, none, same⟩
            cases none
            cases same
            exact .nil
      | cons v items ih =>
          constructor
          · intro denoted
            cases denoted with
            | cons first others =>
                obtain ⟨y, readFirst, sameFirst⟩ := each.mp first
                obtain ⟨ys, readRest, sameRest⟩ := (ih _).mp others
                exact ⟨y :: ys, .cons readFirst readRest, .cons sameFirst sameRest⟩
          · rintro ⟨_, read, same⟩
            cases read with
            | cons readFirst readRest =>
                cases same with
                | cons sameFirst sameRest =>
                    exact .cons (each.mpr ⟨_, readFirst, sameFirst⟩)
                      ((ih _).mpr ⟨_, readRest, sameRest⟩)
  | _, .struct fields, _, _, _ => fields.denotes_iff

theorem Fields.denotes_iff : {σ : Type} → (fields : Fields σ) → ∀ {base x : σ} {d : Dict},
    fields.Denotes base d x ↔ ∃ y, fields.read base d = .ok y ∧ fields.Same x y
  | _, .nil, _, _, _ => ⟨fun _ => ⟨(), rfl, trivial⟩, fun _ => trivial⟩
  | _, .cons name desc init type rest, (found, base), (field, x), d => by
      simp only [Fields.Denotes, Fields.Same, Prod.exists, rest.denotes_iff]
      cases entry : d.find name with
      | none =>
          simp only [Fields.read_absent entry]
          constructor
          · rintro ⟨⟨optional, sameField⟩, y, read, sameRest⟩
            exact ⟨found, y, ⟨optional, rfl, read⟩, sameField, sameRest⟩
          · rintro ⟨_, y, ⟨optional, rfl, read⟩, sameField, sameRest⟩
            exact ⟨⟨optional, sameField⟩, y, read, sameRest⟩
      | some v =>
          simp only [Fields.read_present entry, type.denotes_iff]
          constructor
          · rintro ⟨⟨value, has, w, readFirst, same⟩, y, read, sameRest⟩
            refine ⟨found.fill w, y, ⟨w, readFirst, rfl, read⟩, ?_, sameRest⟩
            rw [has]
            exact .some same
          · rintro ⟨_, y, ⟨w, readFirst, rfl, read⟩, sameField, sameRest⟩
            generalize has : field.value = value at sameField
            cases sameField with
            | some same => exact ⟨⟨_, rfl, w, readFirst, same⟩, y, read, sameRest⟩

end

/-! ### Encoding again -/

mutual

/-- A decoded value can be encoded. -/
theorem FieldType.write_of_read : {α : Type} → (type : FieldType α) → type.Distinct → ∀ {d : Dict}
    {x : α}, type.read type.empty d = .ok x → ∃ d', type.write x .null = .ok d'
  | _, .string, _, _, _, _ => ⟨_, rfl⟩
  | _, .blob, _, _, _, _ => ⟨_, rfl⟩
  | _, .boolean, _, _, _, _ => ⟨_, rfl⟩
  | _, .integer _, _, _, _, _ => ⟨_, rfl⟩
  | _, .number _, _, _, _, _ => ⟨_, rfl⟩
  | _, .null, _, _, _, _ => ⟨_, rfl⟩
  | _, .array item, distinct, d, xs, computed => by
      have each : ∀ {v x}, item.read item.empty v = .ok x → ∃ d', item.write x .null = .ok d' :=
        fun read => item.write_of_read distinct read
      have read := mapM_ok.mp computed
      have written : ∃ ds, List.Forall₂ (fun x d => item.write x .null = .ok d) xs ds := by
        clear computed
        generalize d.items = items at read
        induction read with
        | nil => exact ⟨[], .nil⟩
        | cons first _ ih =>
            obtain ⟨d', wrote⟩ := each first
            obtain ⟨ds, others⟩ := ih
            exact ⟨d' :: ds, .cons wrote others⟩
      obtain ⟨ds, written⟩ := written
      exact ⟨.array ds, map_ok.mpr ⟨ds, mapM_ok.mpr written, rfl⟩⟩
  | _, .struct fields, distinct, _, _, computed =>
      fields.write_of_read distinct (.inl rfl) (fun _ _ => rfl) computed

theorem Fields.write_of_read : {σ : Type} → (fields : Fields σ) → fields.Distinct → ∀ {d out : Dict}
    {x : σ}, out.Open → (∀ name ∈ fields.names, out.find name = none) →
      fields.read fields.empty d = .ok x → ∃ d', fields.write x out = .ok d'
  | _, .nil, _, _, out, _, _, _, _ => ⟨out, rfl⟩
  | _, .cons name desc init type rest, distinct, d, out, (field, x), isOpen, fresh, computed => by
      obtain ⟨apart, distinctFirst, distinct⟩ := distinct
      have first := fresh name (by simp [Fields.names])
      have others : ∀ other ∈ rest.names, out.find other = none := fun other member =>
        fresh other (List.mem_cons_of_mem _ member)
      cases entry : d.find name with
      | none =>
          obtain ⟨optional, rfl, read⟩ := (Fields.read_absent entry).mp computed
          obtain ⟨d', wrote⟩ := rest.write_of_read distinct isOpen others read
          refine ⟨d', ?_⟩
          cases init with
          | required => simp [Field.make] at optional
          | optional => simpa [Fields.write, Field.make] using wrote
          | default value => simpa [Fields.write, Field.make] using wrote
      | some v =>
          obtain ⟨value, readFirst, rfl, read⟩ := (Fields.read_present entry).mp computed
          -- with its own default the field is left out, otherwise its value is written
          have later : ∀ written, ∃ d', rest.write x (out.put name written) = .ok d' := by
            intro written
            exact rest.write_of_read distinct (Dict.put_open ..)
              (Dict.find_put_fresh isOpen apart others) read
          cases init with
          | default value =>
              obtain ⟨d', wrote⟩ := rest.write_of_read distinct isOpen others read
              exact ⟨d', by simpa [Fields.write, Field.make, Field.fill] using wrote⟩
          | required =>
              obtain ⟨written, wrote⟩ := type.write_of_read distinctFirst readFirst
              obtain ⟨d', wroteRest⟩ := later written
              refine ⟨d', ?_⟩
              simp [Fields.write, Field.make, Field.fill, Dict.slot_of_open isOpen first, bind_ok,
                wrote, wroteRest]
          | optional =>
              obtain ⟨written, wrote⟩ := type.write_of_read distinctFirst readFirst
              obtain ⟨d', wroteRest⟩ := later written
              refine ⟨d', ?_⟩
              simp [Fields.write, Field.make, Field.fill, Dict.slot_of_open isOpen first, bind_ok,
                wrote, wroteRest]

end

mutual

/-- What the encoder leaves out of a decoded value is found again exactly when the
dictionary restates defaults only. -/
theorem FieldType.restored_iff : {α : Type} → (type : FieldType α) → ∀ {d : Dict} {x : α},
    type.read type.empty d = .ok x → (type.Restored type.empty x ↔ type.Restates d)
  | _, .string, _, _, _ => Iff.rfl
  | _, .blob, _, _, _ => Iff.rfl
  | _, .boolean, _, _, _ => Iff.rfl
  | _, .integer _, _, _, _ => Iff.rfl
  | _, .number _, _, _, _ => Iff.rfl
  | _, .null, _, _, _ => Iff.rfl
  | _, .array item, d, xs, computed => by
      have each : ∀ {v x}, item.read item.empty v = .ok x →
          (item.Restored item.empty x ↔ item.Restates v) := fun read => item.restored_iff read
      have read := mapM_ok.mp computed
      clear computed
      simp only [FieldType.Restored, FieldType.Restates]
      generalize d.items = items at read
      induction read with
      | nil => simp
      | cons first _ ih => simp only [List.forall_mem_cons, ih, each first]
  | _, .struct fields, _, _, computed => fields.restored_iff computed

theorem Fields.restored_iff : {σ : Type} → (fields : Fields σ) → ∀ {d : Dict} {x : σ},
    fields.read fields.empty d = .ok x → (fields.Restored fields.empty x ↔ fields.Restates d)
  | _, .nil, _, _, _ => Iff.rfl
  | _, .cons name desc init type rest, d, (field, x), computed => by
      simp only [Fields.Restored, Fields.Restates, Fields.empty]
      cases entry : d.find name with
      | none =>
          obtain ⟨optional, rfl, read⟩ := (Fields.read_absent entry).mp computed
          refine and_congr ?_ (rest.restored_iff read)
          cases init with
          | required => simp [Field.make] at optional
          | optional => simp [Field.written, Field.make]
          | default value =>
              simp only [Field.written, Field.make, if_true, true_and]
              exact ⟨fun _ => trivial, fun _ => .some (type.same_refl value)⟩
      | some v =>
          obtain ⟨value, readFirst, rfl, read⟩ := (Fields.read_present entry).mp computed
          refine and_congr ?_ (rest.restored_iff read)
          cases init with
          | required => exact type.restored_iff readFirst
          | optional => exact type.restored_iff readFirst
          | default found =>
              simp only [Field.written, Field.make, Field.fill, if_true, true_and,
                type.denotes_iff]
              constructor
              · intro same
                cases same with
                | some same => exact ⟨value, readFirst, type.same_symm same⟩
              · rintro ⟨y, read', same⟩
                obtain rfl := Except.ok.inj (read'.symm.trans readFirst)
                exact .some (type.same_symm same)

end

/-! ### The contract -/

/-- **When a decoded value survives encoding and decoding.** It does exactly when every
entry the dictionary has for a `Default` field stands for that default. -/
theorem toDict_fromDict_iff {α : Type} {type : FieldType α} (distinct : type.Distinct) {d : Dict}
    {value : α} (decoded : type.fromDict d = .ok value) :
    (∃ d', type.toDict value = .ok d' ∧ ∃ again, type.fromDict d' = .ok again ∧
      type.Same value again) ↔ type.Restates d := by
  obtain ⟨d', wrote⟩ := type.write_of_read distinct decoded
  rw [← type.restored_iff decoded, ← fromDict_toDict_iff distinct wrote]
  constructor
  · rintro ⟨d'', wrote', again⟩
    obtain rfl := Except.ok.inj (wrote.symm.trans wrote')
    exact again
  · intro again
    exact ⟨d', wrote, again⟩

/-- The age 5 of a decoded person is left out when the person is encoded, and the next
decoder takes the person to be of age 0. -/
theorem toDict_fromDict_differs : ∃ value d' again,
    (FieldType.struct person).fromDict
      (.object [("age", .integer 5), ("name", .string "X")]) = .ok value ∧
    (FieldType.struct person).toDict value = .ok d' ∧
    (FieldType.struct person).fromDict d' = .ok again ∧
    ¬ (FieldType.struct person).Same value again := by
  refine ⟨_, _, _, rfl, rfl, rfl, ?_⟩
  rintro ⟨-, age, -⟩
  cases age with
  | some equal => exact absurd (show (5 : BitVec 32) = 0 from equal) (by decide)

/-- A person without an age. -/
theorem toDict_fromDict_iff_person : (∃ d',
    (FieldType.struct person).toDict
      ((Field.make .required).fill "X", Field.make (.default 0), ()) = .ok d' ∧
    ∃ again, (FieldType.struct person).fromDict d' = .ok again ∧
      (FieldType.struct person).Same
        ((Field.make .required).fill "X", Field.make (.default 0), ()) again) ↔
    (FieldType.struct person).Restates (.object [("name", .string "X")]) :=
  toDict_fromDict_iff (by simp [person, FieldType.Distinct, Fields.Distinct, Fields.names]) rfl

end AlpacaCore.Schema
