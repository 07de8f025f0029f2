import AlpacaCore.Schema.Relieved
import AlpacaCore.Schema.RoundTrip

/-!
The values a decoder takes that the schema does not describe.

The visitor does not look at the kind of a value before it reads it. An integer is read
from a number of any kind and, unless its type is one of the library's own, from a
boolean; a vector from the members of an object, from a scalar as its only element, from
nothing when there is `null`; and a struct without required fields from anything. `converted`
is the dict that such a dict is read as.
-/

namespace AlpacaCore.Schema

/-! ### Conversions -/

/-- The integer that an integral type reads. -/
def Dict.toInteger (type : IntType) : Dict → Dict
  | .float x =>
      let n := type.ofDouble x
      if type.signed then .integer (n.signExtend 64) else .unsigned (n.setWidth 64)
  | .boolean b => if type.isNumber then .boolean b else .integer (.ofNat 64 b.toNat)
  | other => other

/-- The number that a floating-point type reads. -/
def Dict.toNumber (type : FloatType) : Dict → Dict
  | .boolean b => if type.isDouble then .boolean b else .float (type.toDouble (type.ofInt b.toNat))
  | other => other

mutual

/-- The dict that the decoder reads the dict as. -/
def FieldType.converted : {α : Type} → FieldType α → Dict → Dict
  | _, .struct fields, d => .object (mapNamed fields.converters d.members)
  | _, .array item, d => .array (d.items.map item.converted)
  | _, .integer type, d => d.toInteger type
  | _, .number type, d => d.toNumber type
  | _, .string, d => d
  | _, .boolean, d => d
  | _, .null, d => d
  | _, .blob, d => d

/-- What becomes of the members of a struct. -/
def Fields.converters : {σ : Type} → Fields σ → List (String × (Dict → Dict))
  | _, .nil => []
  | _, .cons name _ _ type rest => (name, type.converted) :: rest.converters

end

theorem Fields.names_converters : {σ : Type} → (fields : Fields σ) →
    fields.converters.map (·.1) = fields.names
  | _, .nil => rfl
  | _, .cons name _ _ _ rest => congrArg (name :: ·) rest.names_converters

theorem Fields.maps_converted {σ : Type} (fields : Fields σ) (distinct : fields.Distinct)
    (d : Dict) : d.Maps fields.converters ((FieldType.struct fields).converted d) :=
  Dict.maps_mapNamed (fields.names_converters ▸ fields.names_nodup distinct) d

/-! ### The same is read -/

mutual

theorem FieldType.read_converted : {α : Type} → (type : FieldType α) → type.Distinct →
    ∀ (base : α) (d : Dict), type.read base (type.converted d) = type.read base d
  | _, .struct fields, distinct, base, d =>
      fields.read_converted distinct base (fields.maps_converted distinct d)
  | _, .array item, distinct, _, d => by
      have each : (fun v => item.read item.empty (item.converted v)) = item.read item.empty :=
        funext fun v => item.read_converted distinct item.empty v
      simp only [FieldType.read, FieldType.converted, Dict.items, List.mapM_map, Function.comp_def,
        each]
  | _, .integer type, _, _, d => by
      cases d with
      | float x => exact getInt_write (type.ofDouble x)
      | boolean b =>
          simp only [FieldType.read, FieldType.converted, Dict.toInteger]
          split
          · rfl
          · rename_i other
            simp only [Dict.getInt, if_neg other, BitVec.setWidth_ofNat_of_le type.width_le]
      | _ => rfl
  | _, .number type, _, _, d => by
      cases d with
      | boolean b =>
          simp only [FieldType.read, FieldType.converted, Dict.toNumber]
          split
          · rfl
          · rename_i other
            simp only [Dict.getFloat, other, type.ofDouble_toDouble, Bool.false_eq_true, if_false]
      | _ => rfl
  | _, .string, _, _, _ => rfl
  | _, .boolean, _, _, _ => rfl
  | _, .null, _, _, _ => rfl
  | _, .blob, _, _, _ => rfl

theorem Fields.read_converted : {σ : Type} → (fields : Fields σ) → fields.Distinct →
    ∀ (base : σ) {d d' : Dict}, d.Maps fields.converters d' →
      fields.read base d' = fields.read base d
  | _, .nil, _, _, _, _, _ => rfl
  | _, .cons name desc init type rest, distinct, (field, base), d, d', maps => by
      obtain ⟨-, distinctFirst, distinctRest⟩ := distinct
      obtain ⟨first, others⟩ := List.forall_mem_cons.mp maps
      simp only [Fields.read, first, rest.read_converted distinctRest base others]
      cases d.find name with
      | none => rfl
      | some v => simp only [Option.map_some, type.read_converted distinctFirst]

end

/-! ### What is taken -/

mutual

/-- There is no boolean and no integer where the type has a `bool`, which is described as
an integer. -/
def FieldType.Plain : {α : Type} → FieldType α → Dict → Prop
  | _, .struct fields, d => fields.Plain d
  | _, .array item, d => ∀ v ∈ d.items, item.Plain v
  | _, .boolean, d => ¬ d.HasType "boolean" ∧ ¬ d.HasType "integer"
  | _, .string, _ => True
  | _, .integer _, _ => True
  | _, .number _, _ => True
  | _, .null, _ => True
  | _, .blob, _ => True

def Fields.Plain : {σ : Type} → Fields σ → Dict → Prop
  | _, .nil, _ => True
  | _, .cons name _ _ type rest, d => (∀ v, d.find name = some v → type.Plain v) ∧ rest.Plain d

end

/-- The decoder's visit of one field, and of those after it. -/
theorem Fields.exists_read_cons {α σ : Type} {name desc : String} {init : Init α}
    {type : FieldType α} {rest : Fields σ} {field : Field α} {base : σ} {d : Dict} :
    (∃ x, (Fields.cons name desc init type rest).read (field, base) d = .ok x) ↔
      ((∀ v, d.find name = some v → ∃ value, type.read (field.materialize type.empty) v = .ok value) ∧
        (d.find name = none → field.required = false)) ∧ ∃ x, rest.read base d = .ok x := by
  cases entry : d.find name with
  | none => simp [Prod.exists, Fields.read_absent entry]
  | some v => simp [Prod.exists, Fields.read_present entry]

mutual

/-- The decoder takes a dict exactly if what it is read as is admitted. -/
theorem FieldType.accepts_iff : {α : Type} → (type : FieldType α) → type.Distinct →
    ∀ {base : α} {d : Dict}, type.Plain d →
      ((∃ x, type.read base d = .ok x) ↔ type.Admits base (type.converted d))
  | _, .integer type, _, _, d, _ => by
      cases d with
      | boolean b =>
          cases own : type.isNumber with
          | true =>
              simp [FieldType.read, FieldType.converted, FieldType.Admits, Dict.getInt,
                Dict.toInteger, Dict.HasType, own]
          | false =>
              simp [FieldType.read, FieldType.converted, FieldType.Admits, Dict.getInt,
                Dict.toInteger, Dict.HasType, own]
      | float x =>
          cases own : type.signed with
          | true =>
              simp [FieldType.read, FieldType.converted, FieldType.Admits, Dict.getInt,
                Dict.toInteger, Dict.HasType, own]
          | false =>
              simp [FieldType.read, FieldType.converted, FieldType.Admits, Dict.getInt,
                Dict.toInteger, Dict.HasType, own]
      | _ =>
          simp [FieldType.read, FieldType.converted, FieldType.Admits, Dict.getInt, Dict.toInteger,
            Dict.HasType]
  | _, .number type, _, _, d, _ => by
      cases d with
      | boolean b =>
          cases own : type.isDouble with
          | true =>
              simp [FieldType.read, FieldType.converted, FieldType.Admits, Dict.getFloat,
                Dict.toNumber, Dict.HasType, own]
          | false =>
              simp [FieldType.read, FieldType.converted, FieldType.Admits, Dict.getFloat,
                Dict.toNumber, Dict.HasType, own]
      | _ =>
          simp [FieldType.read, FieldType.converted, FieldType.Admits, Dict.getFloat, Dict.toNumber,
            Dict.HasType]
  | _, .boolean, _, _, d, plain => by
      obtain ⟨notBoolean, notInteger⟩ := plain
      cases d with
      | boolean b => exact absurd rfl notBoolean
      | _ =>
          simp [FieldType.read, FieldType.converted, FieldType.Admits, Dict.getBool,
            Dict.HasType] at notInteger ⊢
  | _, .string, _, _, d, _ => by
      cases d <;>
        simp [FieldType.read, FieldType.converted, FieldType.Admits, Dict.getString, Dict.HasType]
  | _, .null, _, _, d, _ => by
      cases d <;>
        simp [FieldType.read, FieldType.converted, FieldType.Admits, Dict.getNull, Dict.HasType]
  | _, .blob, _, _, d, _ => by
      cases d <;>
        simp [FieldType.read, FieldType.converted, FieldType.Admits, Dict.getBinary, Dict.HasType]
  | _, .array item, distinct, _, d, plain => by
      rw [FieldType.converted, FieldType.Admits, FieldType.read, exists_mapM_ok]
      simp only [Dict.array.injEq, exists_eq_left', List.forall_mem_map]
      exact forall₂_congr fun v member => item.accepts_iff distinct (plain v member)
  | _, .struct fields, distinct, base, d, plain => by
      rw [FieldType.read, FieldType.Admits,
        fields.accepts_iff distinct (fields.maps_converted distinct d) plain]
      exact (and_iff_right ⟨_, rfl⟩).symm

theorem Fields.accepts_iff : {σ : Type} → (fields : Fields σ) → fields.Distinct →
    ∀ {base : σ} {d d' : Dict}, d.Maps fields.converters d' → fields.Plain d →
      ((∃ x, fields.read base d = .ok x) ↔ fields.Admits base d')
  | _, .nil, _, _, _, _, _, _ => ⟨fun _ => trivial, fun _ => ⟨_, rfl⟩⟩
  | _, .cons name desc init type rest, distinct, (field, base), d, d', maps, plain => by
      obtain ⟨-, distinctFirst, distinctRest⟩ := distinct
      obtain ⟨first, others⟩ := List.forall_mem_cons.mp maps
      obtain ⟨plainFirst, plainRest⟩ := plain
      rw [Fields.exists_read_cons, rest.accepts_iff distinctRest others plainRest, Fields.Admits,
        first]
      apply and_congr_left
      intro _
      cases entry : d.find name with
      | none => simp
      | some v =>
          have here : (∃ x, type.read (field.materialize type.empty) v = .ok x) ↔
              type.Admits (field.materialize type.empty) (type.converted v) :=
            type.accepts_iff distinctFirst (plainFirst v entry)
          simp [here]

end

mutual

/-- What is admitted is read as something that is. -/
theorem FieldType.admits_converted : {α : Type} → (type : FieldType α) → type.Distinct →
    ∀ {base : α} {d : Dict}, type.Admits base d → type.Admits base (type.converted d)
  | _, .integer type, _, _, d, admits => by
      cases d <;>
        simp [FieldType.Admits, FieldType.converted, Dict.toInteger, Dict.HasType] at admits ⊢
  | _, .number type, _, _, d, admits => by
      cases d <;>
        simp [FieldType.Admits, FieldType.converted, Dict.toNumber, Dict.HasType] at admits ⊢
  | _, .string, _, _, _, admits => admits
  | _, .boolean, _, _, _, admits => admits
  | _, .null, _, _, _, admits => admits
  | _, .blob, _, _, _, admits => admits
  | _, .array item, distinct, _, _, admits => by
      obtain ⟨values, rfl, each⟩ := admits
      refine ⟨_, rfl, ?_⟩
      rw [List.forall_mem_map]
      exact fun v member => item.admits_converted distinct (each v member)
  | _, .struct fields, distinct, _, d, admits =>
      ⟨⟨_, rfl⟩, fields.admits_converted distinct (fields.maps_converted distinct d) admits.2⟩

theorem Fields.admits_converted : {σ : Type} → (fields : Fields σ) → fields.Distinct →
    ∀ {base : σ} {d d' : Dict}, d.Maps fields.converters d' → fields.Admits base d →
      fields.Admits base d'
  | _, .nil, _, _, _, _, _, _ => trivial
  | _, .cons name desc init type rest, distinct, (field, base), d, d', maps, admits => by
      obtain ⟨-, distinctFirst, distinctRest⟩ := distinct
      obtain ⟨first, others⟩ := List.forall_mem_cons.mp maps
      obtain ⟨⟨here, present⟩, admitsRest⟩ := admits
      refine ⟨⟨fun v has => ?_, fun needed => ?_⟩,
        rest.admits_converted distinctRest others admitsRest⟩
      · rw [first] at has
        obtain ⟨v, found, rfl⟩ := Option.map_eq_some_iff.mp has
        exact type.admits_converted distinctFirst (here v found)
      · obtain ⟨v, found⟩ := present needed
        exact ⟨type.converted v, by rw [first, found]; rfl⟩

end

/-! ### The contract -/

/-- **What the decoder takes.** A dict decodes to what the dict it is read as decodes to,
and is taken exactly if that one conforms to the schema as it is relieved; so every dict
that conforms to this schema is taken. Where all is required as declared it is the
published one. -/
theorem fromDict_accepts_iff {α : Type} {type : FieldType α} (distinct : type.Distinct)
    {schema d : Dict} (described : type.toSchema = .ok schema) (plain : type.Plain d) :
    type.fromDict (type.converted d) = type.fromDict d ∧
      ((∃ value, type.fromDict d = .ok value) ↔
        Conforms (type.relieved type.empty schema) (type.converted d)) ∧
      (Conforms (type.relieved type.empty schema) d → ∃ value, type.fromDict d = .ok value) ∧
      (type.AsDeclared type.empty → ∀ other,
        Conforms (type.relieved type.empty schema) other ↔ Conforms schema other) := by
  have accepts : (∃ value, type.fromDict d = .ok value) ↔
      type.Admits type.empty (type.converted d) := type.accepts_iff distinct plain
  have relieved : ∀ {other}, Conforms (type.relieved type.empty schema) other ↔
      type.Admits type.empty other := type.conforms_relieved distinct described
  refine ⟨type.read_converted distinct _ d, accepts.trans relieved.symm, ?_, ?_⟩
  · intro conforms
    exact accepts.mpr (type.admits_converted distinct (relieved.mp conforms))
  · intro declared other
    exact relieved.trans (type.conforms_described distinct described declared).symm

/-- A person with an age. -/
def aged : FieldType (Field String × Field (BitVec 32) × Unit) :=
  .struct (.cons "name" "Name of the person" .required .string
    (.cons "age" "Age of the person" (.default 0) (.integer .int) .nil))

theorem aged_distinct : aged.Distinct := by
  simp [aged, FieldType.Distinct, Fields.Distinct, Fields.names]

/-- An age that is true. -/
def aged_true : Dict := .object [("age", .boolean true), ("name", .string "a")]

/-- Something that is owned, by X if nothing is said. -/
def owned : FieldType (Field (Field String × Unit) × Unit) :=
  .struct (.cons "owner" "Owner of the thing" (.default (.ofValue "X", ()))
    (.struct (.cons "name" "Name of the owner" .required .string .nil)) .nil)

/-- An owner of whom nothing is said. -/
def owned_unnamed : Dict := .object [("owner", .object [])]

/-- An age that is true is taken for 1, and it is not the integer that the schema asks
for; and the owner by default has a name, which the schema asks for. -/
theorem not_fromDict_accepts :
    (¬ ∀ schema, aged.toSchema = .ok schema →
      ((∃ value, aged.fromDict aged_true = .ok value) ↔ Conforms schema aged_true)) ∧
    ¬ ∀ schema, owned.toSchema = .ok schema →
      ((∃ value, owned.fromDict owned_unnamed = .ok value) ↔ Conforms schema owned_unnamed) := by
  constructor
  · intro always
    obtain ⟨-, -, -, -, members, -⟩ := (always _ rfl).mp ⟨_, rfl⟩
    obtain ⟨type, declared, hasType, -, -, -⟩ := members _ "age" _ _ rfl rfl rfl
    cases declared
    simp [Dict.HasType] at hasType
  · intro always
    obtain ⟨-, -, -, -, members, -⟩ := (always _ rfl).mp ⟨_, rfl⟩
    obtain ⟨-, -, -, -, -, present⟩ := members _ "owner" _ _ rfl rfl rfl
    obtain ⟨v, found⟩ := present "name" ⟨_, rfl, List.mem_singleton.mpr rfl⟩
    cases found

/-- An age that is true. -/
theorem fromDict_accepts_iff_true : ∃ schema, aged.toSchema = .ok schema ∧
    aged.fromDict (aged.converted aged_true) = aged.fromDict aged_true ∧
      ((∃ value, aged.fromDict aged_true = .ok value) ↔
        Conforms (aged.relieved aged.empty schema) (aged.converted aged_true)) ∧
      (Conforms (aged.relieved aged.empty schema) aged_true →
        ∃ value, aged.fromDict aged_true = .ok value) ∧
      (aged.AsDeclared aged.empty → ∀ other,
        Conforms (aged.relieved aged.empty schema) other ↔ Conforms schema other) :=
  ⟨_, rfl, fromDict_accepts_iff aged_distinct rfl
    ⟨fun _ _ => trivial, fun _ _ => trivial, trivial⟩⟩

end AlpacaCore.Schema
