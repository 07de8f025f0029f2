import AlpacaCore.Schema.Serialize

/-!
`SchemaVisitor`: the description of a type, and the values that conform to one.

The description and the encoder are two recursions over the same type. They agree
on every value but those of three kinds: a `bool` is described as an integer, a struct
of which nothing is written stays `null`, and a member can be declared required and
lose the flag when it is assigned to.
-/

namespace AlpacaCore.Schema

/-! ### Descriptions -/

/-- Assignment through `operator[]`. -/
def Dict.assign (d : Dict) (key : String) (value : Dict) : Except Exception Dict := do
  let _ ← d.slot key
  .ok (d.put key value)

/-- A description that is not empty is added. -/
def Dict.describedBy (obj : Dict) (desc : String) : Except Exception Dict :=
  if desc = "" then .ok obj else obj.assign "description" (.string desc)

/-- The default of a field that has one is added. -/
def FieldType.describeDefault {α : Type} (type : FieldType α) (field : Field α) (obj : Dict) :
    Except Exception Dict :=
  match field.defaultSet, field.value with
  | true, some value => do
      let slot ← obj.slot "default"
      let written ← type.write value slot
      .ok (obj.put "default" written)
  | _, _ => .ok obj

mutual

/-- `describeField`. -/
def FieldType.describe : {α : Type} → FieldType α → Dict → Except Exception Dict
  | _, .integer _, out => out.assign "type" (.string "integer")
  -- `bool` is a `std::unsigned_integral`, so its own branch is never reached
  | _, .boolean, out => out.assign "type" (.string "integer")
  | _, .number _, out => out.assign "type" (.string "number")
  | _, .string, out => out.assign "type" (.string "string")
  | _, .null, out => out.assign "type" (.string "null")
  | _, .struct fields, out => do
      let out ← out.assign "type" (.string "object")
      let props ← out.slot "properties"
      let (props, req) ← fields.describe fields.empty props
      let out := out.put "properties" props
      if req = [] then .ok out else out.assign "required" (.array (req.map .string))
  | _, .blob, out => out.assign "type" (.string "binary")
  | _, .array item, out => do
      let out ← out.assign "type" (.string "array")
      let items ← out.slot "items"
      let items ← item.describe items
      .ok (out.put "items" items)

/-- `SchemaVisitor::operator()`, for one field after the other of a struct as it is
declared: the properties and the names of the required ones. -/
def Fields.describe : {σ : Type} → Fields σ → σ → Dict → Except Exception (Dict × List String)
  | _, .nil, _, props => .ok (props, [])
  | _, .cons name desc _ type rest, (field, x), props => do
      let obj ← props.slot name
      let obj ← type.describe obj
      let obj ← obj.describedBy desc
      let obj ← type.describeDefault field obj
      let (props, req) ← rest.describe x (props.put name obj)
      .ok (props, if field.defaultSet = false ∧ field.required then name :: req else req)

end

/-- `Struct_toSchema`. -/
def FieldType.toSchema {α : Type} (type : FieldType α) : Except Exception Dict :=
  type.describe .null

/-! ### Conformance -/

/-- The type names of descriptions, and the values that have them. -/
def Dict.HasType (type : String) : Dict → Prop
  | .null => type = "null"
  | .boolean _ => type = "boolean"
  | .integer _ => type = "integer" ∨ type = "number"
  | .unsigned _ => type = "integer" ∨ type = "number"
  | .float _ => type = "number"
  | .string _ => type = "string"
  | .binary _ => type = "binary"
  | .array _ => type = "array"
  | .object _ => type = "object"

/-- The description lists the name as required. -/
def Dict.Requires (schema : Dict) (name : String) : Prop :=
  ∃ names, schema.find "required" = some (.array names) ∧ .string name ∈ names

/-- The value conforms to the description: it has the type, its elements conform to
`items`, what it has of the properties conforms to them, and it has the required ones. -/
inductive Conforms : (schema d : Dict) → Prop where
  | mk {schema d : Dict} (type : String) (declared : schema.find "type" = some (.string type))
      (hasType : d.HasType type)
      (elements : ∀ sub items v, schema.find "items" = some sub → d = .array items → v ∈ items →
        Conforms sub v)
      (members : ∀ props name sub v, schema.find "properties" = some props →
        props.find name = some sub → d.find name = some v → Conforms sub v)
      (present : ∀ name, schema.Requires name → ∃ v, d.find name = some v) : Conforms schema d

/-- The entries of a description that conformance looks at. -/
structure Agrees (schema schema' : Dict) : Prop where
  type : schema'.find "type" = schema.find "type"
  items : schema'.find "items" = schema.find "items"
  properties : schema'.find "properties" = schema.find "properties"
  required : schema'.find "required" = schema.find "required"

theorem Agrees.requires {schema schema' : Dict} (agrees : Agrees schema schema') (name : String) :
    schema'.Requires name ↔ schema.Requires name := by
  unfold Dict.Requires
  rw [agrees.required]

theorem Agrees.conforms {schema schema' d : Dict} (agrees : Agrees schema schema') :
    Conforms schema' d ↔ Conforms schema d := by
  constructor
  · rintro ⟨type, declared, hasType, elements, members, present⟩
    refine ⟨type, agrees.type ▸ declared, hasType, ?_, ?_, ?_⟩
    · exact fun sub items v found => elements sub items v (agrees.items.trans found)
    · exact fun props name sub v found => members props name sub v (agrees.properties.trans found)
    · exact fun name listed => present name ((agrees.requires name).mpr listed)
  · rintro ⟨type, declared, hasType, elements, members, present⟩
    refine ⟨type, agrees.type.trans declared, hasType, ?_, ?_, ?_⟩
    · exact fun sub items v found => elements sub items v (agrees.items.symm.trans found)
    · exact fun props name sub v found =>
        members props name sub v (agrees.properties.symm.trans found)
    · exact fun name listed => present name ((agrees.requires name).mp listed)

mutual

/-- No value written is a `bool`, something of every struct is written, and what is
declared required is written. -/
def FieldType.Described : {α : Type} → FieldType α → α → Prop
  | _, .boolean, _ => False
  | _, .struct fields, x => fields.Described x ∧ fields.SomeWritten x
  | _, .array item, xs => ∀ x ∈ xs, item.Described x
  | _, .string, _ => True
  | _, .integer _, _ => True
  | _, .number _, _ => True
  | _, .null, _ => True
  | _, .blob, _ => True

def Fields.Described : {σ : Type} → Fields σ → σ → Prop
  | _, .nil, _ => True
  | _, .cons _ _ init type rest, (field, x) =>
      (match field.written, init with
        | some value, _ => type.Described value
        | none, .required => False
        | none, .optional => True
        | none, .default _ => True) ∧
      rest.Described x

/-- The encoder writes some field of the struct. -/
def Fields.SomeWritten : {σ : Type} → Fields σ → σ → Prop
  | _, .nil, _ => False
  | _, .cons _ _ _ _ rest, (field, x) => field.written ≠ none ∨ rest.SomeWritten x

end

mutual

/-- The encoder does not throw: every field that it has to write, at any depth, has a
value. -/
def FieldType.Encodable : {α : Type} → FieldType α → α → Prop
  | _, .struct fields, x => fields.Encodable x
  | _, .array item, xs => ∀ x ∈ xs, item.Encodable x
  | _, .string, _ => True
  | _, .integer _, _ => True
  | _, .boolean, _ => True
  | _, .number _, _ => True
  | _, .null, _ => True
  | _, .blob, _ => True

def Fields.Encodable : {σ : Type} → Fields σ → σ → Prop
  | _, .nil, _ => True
  | _, .cons _ _ _ type rest, (field, x) =>
      (match field.defaultSet, field.value with
        | true, _ => True
        | false, none => field.required = false
        | false, some value => type.Encodable value) ∧
      rest.Encodable x

end

mutual

/-- The defaults of the type, at any depth, can be encoded. -/
def FieldType.Describable : {α : Type} → FieldType α → Prop
  | _, .struct fields => fields.Describable
  | _, .array item => item.Describable
  | _, .string => True
  | _, .integer _ => True
  | _, .boolean => True
  | _, .number _ => True
  | _, .null => True
  | _, .blob => True

def Fields.Describable : {σ : Type} → Fields σ → Prop
  | _, .nil => True
  | _, .cons _ _ init type rest =>
      type.Describable ∧
      (match init with
        | .required => True
        | .optional => True
        | .default value => type.Encodable value) ∧
      rest.Describable

end

/-! ### What is written to a description -/

theorem Dict.assign_of_open {d : Dict} (isOpen : d.Open) (key : String) (value : Dict) :
    d.assign key value = .ok (d.put key value) := by
  rcases isOpen with rfl | ⟨members, rfl⟩
  · rfl
  · rfl

/-- A description's type name, written first. -/
theorem Dict.assign_type {type : String} {schema : Dict}
    (computed : Dict.null.assign "type" (.string type) = .ok schema) :
    schema = .object [("type", .string type)] :=
  (Except.ok.inj computed).symm

theorem Agrees.refl (schema : Dict) : Agrees schema schema := ⟨rfl, rfl, rfl, rfl⟩

/-- Other entries do not matter. -/
theorem Agrees.put {schema schema' : Dict} (agrees : Agrees schema schema') (isOpen : schema'.Open)
    {key : String} (value : Dict) (other : key ∉ ["type", "items", "properties", "required"]) :
    Agrees schema (schema'.put key value) := by
  simp only [List.mem_cons, List.not_mem_nil, or_false, not_or] at other
  obtain ⟨type, items, properties, required⟩ := other
  refine ⟨?_, ?_, ?_, ?_⟩
  · rw [Dict.find_put_ne isOpen (Ne.symm type), agrees.type]
  · rw [Dict.find_put_ne isOpen (Ne.symm items), agrees.items]
  · rw [Dict.find_put_ne isOpen (Ne.symm properties), agrees.properties]
  · rw [Dict.find_put_ne isOpen (Ne.symm required), agrees.required]

/-- A description is an object. -/
theorem FieldType.describe_open : {α : Type} → (type : FieldType α) → ∀ {schema : Dict},
    type.describe .null = .ok schema → schema.Open
  | _, .integer _, _, computed => .inr ⟨_, Dict.assign_type computed⟩
  | _, .boolean, _, computed => .inr ⟨_, Dict.assign_type computed⟩
  | _, .number _, _, computed => .inr ⟨_, Dict.assign_type computed⟩
  | _, .string, _, computed => .inr ⟨_, Dict.assign_type computed⟩
  | _, .null, _, computed => .inr ⟨_, Dict.assign_type computed⟩
  | _, .blob, _, computed => .inr ⟨_, Dict.assign_type computed⟩
  | _, .array item, _, computed => by
      simp only [FieldType.describe, bind_ok] at computed
      obtain ⟨_, _, _, _, _, _, same⟩ := computed
      cases same
      exact Dict.put_open ..
  | _, .struct fields, _, computed => by
      simp only [FieldType.describe, bind_ok] at computed
      obtain ⟨out, _, _, _, ⟨props, req⟩, _, rest⟩ := computed
      simp only at rest
      split at rest
      · cases rest
        exact Dict.put_open ..
      · rw [Dict.assign_of_open (Dict.put_open ..)] at rest
        cases rest
        exact Dict.put_open ..

/-- The description of one field, and of those after it. -/
theorem Fields.describe_cons {α σ : Type} {name desc : String} {init : Init α}
    {type : FieldType α} {rest : Fields σ} {props props' : Dict} {req : List String}
    (isOpen : props.Open) (fresh : props.find name = none)
    (computed : (Fields.cons name desc init type rest).describe
      (Fields.cons name desc init type rest).empty props = .ok (props', req)) :
    ∃ obj obj' req', type.describe .null = .ok obj ∧ Agrees obj obj' ∧ obj'.Open ∧
      rest.describe rest.empty (props.put name obj') = .ok (props', req') ∧
        (∀ other, other ∈ req ↔
          (other = name ∧ (Field.make init).required = true) ∨ other ∈ req') := by
  simp only [Fields.describe, Fields.empty, Dict.slot_of_open isOpen fresh, bind_ok] at computed
  obtain ⟨_, same, obj, described, obj₁, commented, obj', defaulted, ⟨props₁, req'⟩, others,
    last⟩ := computed
  cases same
  have objOpen := type.describe_open described
  have agrees₁ : Agrees obj obj₁ ∧ obj₁.Open := by
    unfold Dict.describedBy at commented
    split at commented
    · cases commented
      exact ⟨.refl _, objOpen⟩
    · rw [Dict.assign_of_open objOpen] at commented
      cases commented
      exact ⟨(Agrees.refl obj).put objOpen _ (by decide), Dict.put_open ..⟩
  have agrees : Agrees obj obj' ∧ obj'.Open := by
    unfold FieldType.describeDefault at defaulted
    split at defaulted
    · obtain ⟨_, _, defaulted⟩ := bind_ok.mp defaulted
      obtain ⟨written, _, same⟩ := bind_ok.mp defaulted
      cases same
      exact ⟨agrees₁.1.put agrees₁.2 _ (by decide), Dict.put_open ..⟩
    · cases defaulted
      exact agrees₁
  cases last
  refine ⟨obj, obj', req', described, agrees.1, agrees.2, others, fun other => ?_⟩
  cases init with
  | required => simp [Field.make]
  | optional => simp [Field.make]
  | default value => simp [Field.make]

/-- The description of a struct leaves other properties alone. -/
theorem Fields.describe_find : {σ : Type} → (fields : Fields σ) → fields.Distinct →
    ∀ {props props' : Dict} {req : List String}, props.Open →
      (∀ name ∈ fields.names, props.find name = none) →
        fields.describe fields.empty props = .ok (props', req) →
          (∀ other, other ∉ fields.names → props'.find other = props.find other)
  | _, .nil, _, _, _, _, _, _, computed => by
      cases computed
      exact fun _ _ => rfl
  | _, .cons name desc init type rest, distinct, props, props', req, isOpen, fresh, computed => by
      intro other outside
      obtain ⟨apart, -, distinct⟩ := distinct
      obtain ⟨obj, obj', req', -, -, -, others, -⟩ :=
        Fields.describe_cons isOpen (fresh name (by simp [Fields.names])) computed
      simp only [Fields.names, List.mem_cons, not_or] at outside
      have untouched : ∀ member ∈ rest.names, (props.put name obj').find member = none :=
        Dict.find_put_fresh isOpen apart fun member inside =>
          fresh member (List.mem_cons_of_mem _ inside)
      rw [rest.describe_find distinct (Dict.put_open ..) untouched others other outside.2,
        Dict.find_put_ne isOpen outside.1]

/-- A struct of which something is written is an object. -/
theorem Fields.write_object : {σ : Type} → (fields : Fields σ) → fields.Distinct → ∀ {x : σ}
    {out d : Dict}, out.Open → (∀ name ∈ fields.names, out.find name = none) →
      fields.write x out = .ok d →
        ((∃ members, d = .object members) ↔ (∃ members, out = .object members) ∨
          fields.SomeWritten x)
  | _, .nil, _, _, _, _, _, _, computed => by
      cases computed
      exact ⟨.inl, fun either => either.resolve_right id⟩
  | _, .cons name desc init type rest, distinct, (field, x), out, d, isOpen, fresh, computed => by
      obtain ⟨apart, -, distinct⟩ := distinct
      have others : ∀ other ∈ rest.names, out.find other = none := fun other member =>
        fresh other (List.mem_cons_of_mem _ member)
      rcases Fields.write_cons isOpen (fresh name (by simp [Fields.names])) computed with
        ⟨omitted, computed⟩ | ⟨value, written, given, -, computed⟩
      · rw [rest.write_object distinct isOpen others computed]
        simp [Fields.SomeWritten, omitted]
      · have untouched : ∀ other ∈ rest.names, (out.put name written).find other = none :=
          Dict.find_put_fresh isOpen apart others
        have object : ∃ members, out.put name written = .object members := by
          cases out <;> exact ⟨_, rfl⟩
        rw [rest.write_object distinct (Dict.put_open ..) untouched computed]
        simp [Fields.SomeWritten, given, object]

/-! ### Conformance to the descriptions of the types -/

theorem conforms_leaf {type : String} {d : Dict} :
    Conforms (.object [("type", .string type)]) d ↔ d.HasType type := by
  constructor
  · rintro ⟨type', declared, hasType, -, -, -⟩
    obtain rfl : type = type' := by simpa [List.lookup_cons] using declared
    exact hasType
  · intro hasType
    refine ⟨type, by simp, hasType, ?_, ?_, ?_⟩
    · intro sub items v found
      simp [List.lookup_cons] at found
    · intro props name sub v found
      simp [List.lookup_cons] at found
    · rintro name ⟨names, found, -⟩
      simp [List.lookup_cons] at found

theorem Dict.hasType_object {d : Dict} : d.HasType "object" ↔ ∃ members, d = .object members := by
  cases d <;> simp [Dict.HasType]

theorem Dict.hasType_array {d : Dict} : d.HasType "array" ↔ ∃ items, d = .array items := by
  cases d <;> simp [Dict.HasType]

/-- A vector's description, by its entries. -/
theorem conforms_array {schema sub d : Dict} (type : schema.find "type" = some (.string "array"))
    (items : schema.find "items" = some sub) (properties : schema.find "properties" = none)
    (required : schema.find "required" = none) :
    Conforms schema d ↔ ∃ values, d = .array values ∧ ∀ v ∈ values, Conforms sub v := by
  constructor
  · rintro ⟨type', declared, hasType, elements, -, -⟩
    obtain rfl : "array" = type' := by simpa [type] using declared
    obtain ⟨values, rfl⟩ := Dict.hasType_array.mp hasType
    exact ⟨values, rfl, fun v member => elements sub values v items rfl member⟩
  · rintro ⟨values, rfl, each⟩
    refine ⟨"array", type, rfl, ?_, ?_, ?_⟩
    · intro sub' values' v found same member
      obtain rfl := Option.some.inj (items.symm.trans found)
      cases same
      exact each v member
    · intro props name sub' v found
      cases properties.symm.trans found
    · rintro name ⟨names, found, -⟩
      cases required.symm.trans found

/-- A struct's description, by its entries. -/
theorem conforms_object {schema d props : Dict} {req : List String}
    (type : schema.find "type" = some (.string "object")) (items : schema.find "items" = none)
    (properties : schema.find "properties" = some props)
    (required : ∀ name, schema.Requires name ↔ name ∈ req) :
    Conforms schema d ↔ (∃ members, d = .object members) ∧
      (∀ name sub v, props.find name = some sub → d.find name = some v → Conforms sub v) ∧
        ∀ name ∈ req, ∃ v, d.find name = some v := by
  constructor
  · rintro ⟨type', declared, hasType, -, members, present⟩
    obtain rfl : "object" = type' := by simpa [type] using declared
    refine ⟨Dict.hasType_object.mp hasType, fun name sub v => members props name sub v properties, ?_⟩
    exact fun name member => present name ((required name).mpr member)
  · rintro ⟨object, members, present⟩
    refine ⟨"object", type, Dict.hasType_object.mpr object, ?_, ?_, ?_⟩
    · intro sub items' v found
      simp [items] at found
    · intro props' name sub v found
      obtain rfl := Option.some.inj (properties.symm.trans found)
      exact members name sub v
    · exact fun name listed => present name ((required name).mp listed)

/-- The names listed are the ones of the list. -/
theorem Dict.requires_iff {schema : Dict} {req : List String}
    (required : schema.find "required" = some (.array (req.map .string))) (name : String) :
    schema.Requires name ↔ name ∈ req := by
  unfold Dict.Requires
  rw [required]
  simp

/-- The entries of a vector's description. -/
theorem FieldType.describe_array {α : Type} {item : FieldType α} {schema : Dict}
    (computed : (FieldType.array item).describe .null = .ok schema) :
    ∃ sub, item.describe .null = .ok sub ∧ schema.find "type" = some (.string "array") ∧
      schema.find "items" = some sub ∧ schema.find "properties" = none ∧
        schema.find "required" = none := by
  simp only [FieldType.describe, bind_ok] at computed
  obtain ⟨out, typed, slot, empty, sub, described, same⟩ := computed
  obtain rfl := Dict.assign_type typed
  obtain rfl : Dict.null = slot := Except.ok.inj empty
  cases same
  have found : ∀ key, ((Dict.object [("type", .string "array")]).put "items" sub).find key =
      if key = "items" then some sub
      else if key = "type" then some (.string "array") else none := by
    intro key
    rw [Dict.find_put _ _ _ _ (.inr ⟨_, rfl⟩)]
    by_cases here : key = "type"
    · simp [here]
    · simp [List.lookup_cons, here, beq_eq_false_iff_ne.mpr here]
  exact ⟨sub, described, by simp [found], by simp [found], by simp [found], by simp [found]⟩

/-- The entries of a struct's description. -/
theorem FieldType.describe_struct {σ : Type} {fields : Fields σ} {schema : Dict}
    (computed : (FieldType.struct fields).describe .null = .ok schema) :
    ∃ props req, fields.describe fields.empty .null = .ok (props, req) ∧
      schema.find "type" = some (.string "object") ∧ schema.find "items" = none ∧
        schema.find "properties" = some props ∧ ∀ name, schema.Requires name ↔ name ∈ req := by
  simp only [FieldType.describe, bind_ok] at computed
  obtain ⟨out, typed, slot, empty, ⟨props, req⟩, described, rest⟩ := computed
  obtain rfl := Dict.assign_type typed
  obtain rfl : Dict.null = slot := Except.ok.inj empty
  have isOpen : (Dict.object [("type", .string "object")]).Open := .inr ⟨_, rfl⟩
  have found : ∀ key, ((Dict.object [("type", .string "object")]).put "properties" props).find key =
      if key = "properties" then some props
      else if key = "type" then some (.string "object") else none := by
    intro key
    rw [Dict.find_put _ _ _ _ isOpen]
    by_cases here : key = "type"
    · simp [here]
    · simp [List.lookup_cons, here, beq_eq_false_iff_ne.mpr here]
  refine ⟨props, req, described, ?_⟩
  simp only at rest
  split at rest
  · rename_i none
    cases rest
    refine ⟨by simp [found], by simp [found], by simp [found], fun name => ?_⟩
    simp [Dict.Requires, found, none]
  · rw [Dict.assign_of_open (Dict.put_open ..)] at rest
    cases rest
    have listed := fun key => Dict.find_put _ "required" (.array (req.map .string)) key
      (Dict.put_open (.object [("type", .string "object")]) "properties" props)
    exact ⟨by simp [listed, found], by simp [listed, found], by simp [listed, found],
      Dict.requires_iff (by simp [listed])⟩

/-- The description of the first field, which those after it leave alone. -/
theorem Fields.describe_first {α σ : Type} {name desc : String} {init : Init α}
    {type : FieldType α} {rest : Fields σ} {props props' : Dict} {req : List String}
    (distinct : (Fields.cons name desc init type rest).Distinct) (isOpen : props.Open)
    (fresh : ∀ other ∈ (Fields.cons name desc init type rest).names, props.find other = none)
    (described : (Fields.cons name desc init type rest).describe
      (Fields.cons name desc init type rest).empty props = .ok (props', req)) :
    ∃ obj obj' req', type.describe .null = .ok obj ∧ Agrees obj obj' ∧ obj'.Open ∧
      rest.describe rest.empty (props.put name obj') = .ok (props', req') ∧
        (∀ other ∈ rest.names, (props.put name obj').find other = none) ∧
          props'.find name = some obj' ∧
            ∀ other, other ∈ req ↔
              (other = name ∧ (Field.make init).required = true) ∨ other ∈ req' := by
  obtain ⟨apart, -, distinctRest⟩ := distinct
  obtain ⟨obj, obj', req', describedFirst, agrees, isOpen', describedRest, required⟩ :=
    Fields.describe_cons isOpen (fresh name (by simp [Fields.names])) described
  have untouched : ∀ member ∈ rest.names, (props.put name obj').find member = none :=
    Dict.find_put_fresh isOpen apart fun member inside =>
      fresh member (List.mem_cons_of_mem _ inside)
  have property : props'.find name = some obj' := by
    rw [rest.describe_find distinctRest (Dict.put_open ..) untouched describedRest name apart,
      Dict.find_put_self isOpen]
  exact ⟨obj, obj', req', describedFirst, agrees, isOpen', describedRest, untouched, property,
    required⟩

/-- What it is to conform to the properties of a struct: the first one, and the others. -/
theorem Fields.properties_cons {α σ : Type} {name desc : String} {init : Init α}
    {type : FieldType α} {rest : Fields σ} {props props' : Dict} {req : List String}
    (distinct : (Fields.cons name desc init type rest).Distinct) (isOpen : props.Open)
    (fresh : ∀ other ∈ (Fields.cons name desc init type rest).names, props.find other = none)
    (described : (Fields.cons name desc init type rest).describe
      (Fields.cons name desc init type rest).empty props = .ok (props', req)) :
    ∃ obj obj' req', type.describe .null = .ok obj ∧
      rest.describe rest.empty (props.put name obj') = .ok (props', req') ∧
        (∀ other ∈ rest.names, (props.put name obj').find other = none) ∧
          ∀ d : Dict,
            ((∀ other ∈ (Fields.cons name desc init type rest).names, ∀ sub v,
                props'.find other = some sub → d.find other = some v → Conforms sub v) ∧
              ∀ other ∈ req, ∃ v, d.find other = some v) ↔
            ((∀ v, d.find name = some v → Conforms obj v) ∧
              ((Field.make init).required = true → ∃ v, d.find name = some v)) ∧
            (∀ other ∈ rest.names, ∀ sub v, props'.find other = some sub →
              d.find other = some v → Conforms sub v) ∧
            ∀ other ∈ req', ∃ v, d.find other = some v := by
  obtain ⟨obj, obj', req', describedFirst, agrees, -, describedRest, untouched, property, required⟩ :=
    Fields.describe_first distinct isOpen fresh described
  refine ⟨obj, obj', req', describedFirst, describedRest, untouched, fun d => ?_⟩
  simp only [Fields.names, List.forall_mem_cons, property, Option.some.injEq, required]
  constructor
  · rintro ⟨⟨here, members⟩, present⟩
    refine ⟨⟨fun v has => agrees.conforms.mp (here obj' v rfl has),
      fun needed => present name (.inl ⟨rfl, needed⟩)⟩, members,
        fun other member => present other (.inr member)⟩
  · rintro ⟨⟨here, needed⟩, members, present⟩
    refine ⟨⟨?_, members⟩, ?_⟩
    · rintro _ v rfl has
      exact agrees.conforms.mpr (here v has)
    · rintro other (⟨rfl, isRequired⟩ | member)
      · exact needed isRequired
      · exact present other member

mutual

/-- A written value conforms to its type's description exactly when nothing of the three
kinds is in it. -/
theorem FieldType.conforms_iff : {α : Type} → (type : FieldType α) → type.Distinct → ∀ {x : α}
    {schema d : Dict}, type.describe .null = .ok schema → type.write x .null = .ok d →
      (Conforms schema d ↔ type.Described x)
  | _, .integer type, _, _, _, _, described, wrote => by
      obtain rfl := Dict.assign_type described
      cases wrote
      rw [conforms_leaf]
      cases type.signed <;> simp [Dict.HasType, FieldType.Described]
  | _, .boolean, _, _, _, _, described, wrote => by
      obtain rfl := Dict.assign_type described
      cases wrote
      rw [conforms_leaf]
      simp [Dict.HasType, FieldType.Described]
  | _, .number _, _, _, _, _, described, wrote => by
      obtain rfl := Dict.assign_type described
      cases wrote
      rw [conforms_leaf]
      exact Iff.of_eq (by simp [Dict.HasType, FieldType.Described])
  | _, .string, _, _, _, _, described, wrote => by
      obtain rfl := Dict.assign_type described
      cases wrote
      rw [conforms_leaf]
      simp [Dict.HasType, FieldType.Described]
  | _, .null, _, _, _, _, described, wrote => by
      obtain rfl := Dict.assign_type described
      cases wrote
      rw [conforms_leaf]
      simp [Dict.HasType, FieldType.Described]
  | _, .blob, _, _, _, _, described, wrote => by
      obtain rfl := Dict.assign_type described
      cases wrote
      rw [conforms_leaf]
      simp [Dict.HasType, FieldType.Described]
  | _, .array item, distinct, xs, schema, d, described, wrote => by
      obtain ⟨sub, element, type, items, properties, required⟩ := FieldType.describe_array described
      obtain ⟨values, looped, rfl⟩ := map_ok.mp wrote
      have each : ∀ {x d}, item.write x .null = .ok d → (Conforms sub d ↔ item.Described x) :=
        fun first => item.conforms_iff distinct element first
      have written := mapM_ok.mp looped
      rw [conforms_array type items properties required]
      clear wrote looped
      simp only [FieldType.Described, Dict.array.injEq, exists_eq_left']
      induction written with
      | nil => simp
      | cons first _ ih => simp only [List.forall_mem_cons, ih, each first]
  | _, .struct fields, distinct, x, schema, d, described, wrote => by
      obtain ⟨props, req, described, type, items, properties, required⟩ :=
        FieldType.describe_struct described
      have nothing : ∀ name ∈ fields.names, Dict.null.find name = none := fun _ _ => rfl
      have object := fields.write_object distinct (.inl rfl) nothing wrote
      have inside := fields.conforms_iff distinct (.inl rfl) nothing (.inl rfl) nothing described wrote
      have outside := (fields.write_find distinct (.inl rfl) nothing wrote).2
      rw [conforms_object type items properties required, object, FieldType.Described, ← inside]
      constructor
      · rintro ⟨written, members, present⟩
        refine ⟨⟨fun name _ => members name, present⟩, written.resolve_left ?_⟩
        rintro ⟨_, absurd⟩
        cases absurd
      · rintro ⟨⟨members, present⟩, written⟩
        refine ⟨.inr written, fun name sub v found has => ?_, present⟩
        by_cases member : name ∈ fields.names
        · exact members name member sub v found has
        · simp [outside name member] at has

theorem Fields.conforms_iff : {σ : Type} → (fields : Fields σ) → fields.Distinct → ∀ {x : σ}
    {props props' out d : Dict} {req : List String}, props.Open →
      (∀ name ∈ fields.names, props.find name = none) → out.Open →
      (∀ name ∈ fields.names, out.find name = none) →
      fields.describe fields.empty props = .ok (props', req) → fields.write x out = .ok d →
        (((∀ name ∈ fields.names, ∀ sub v, props'.find name = some sub → d.find name = some v →
            Conforms sub v) ∧ ∀ name ∈ req, ∃ v, d.find name = some v) ↔ fields.Described x)
  | _, .nil, _, _, _, _, _, _, _, _, _, _, _, described, _ => by
      cases described
      simp [Fields.names, Fields.Described]
  | _, .cons name desc init type rest, distinct, (field, x), props, props', out, d, req, propsOpen,
      freshProps, isOpen, fresh, described, wrote => by
      obtain ⟨out', isOpen', fresh', others, first⟩ := Fields.write_first distinct isOpen fresh wrote
      obtain ⟨obj, obj', req', describedFirst, describedRest, untouched, split⟩ :=
        Fields.properties_cons distinct propsOpen freshProps described
      obtain ⟨apart, distinctFirst, distinctRest⟩ := distinct
      have later := rest.conforms_iff distinctRest (Dict.put_open ..) untouched isOpen' fresh'
        describedRest others
      rw [split, later]
      simp only [Fields.Described]
      refine and_congr ?_ Iff.rfl
      rcases first with ⟨omitted, absent⟩ | ⟨value, written, given, wroteFirst, entry⟩
      · cases init with
        | required => simp [omitted, absent, Field.make]
        | optional => simp [omitted, absent, Field.make]
        | default value => simp [omitted, absent, Field.make]
      · have here := type.conforms_iff distinctFirst describedFirst wroteFirst
        simp [given, entry, here]

end

/-! ### When there is a description -/

/-- A loop ends normally if its body does on every element. -/
theorem exists_mapM_ok {α β : Type} {f : α → Except Exception β} {xs : List α} :
    (∃ ys, xs.mapM f = .ok ys) ↔ ∀ x ∈ xs, ∃ y, f x = .ok y := by
  simp only [mapM_ok]
  induction xs with
  | nil => simp
  | cons x xs ih =>
      rw [List.forall_mem_cons, ← ih]
      constructor
      · rintro ⟨_, computed⟩
        cases computed with
        | @cons _ y _ ys first others => exact ⟨⟨y, first⟩, ys, others⟩
      · rintro ⟨⟨y, first⟩, ys, others⟩
        exact ⟨y :: ys, .cons first others⟩

mutual

theorem FieldType.encodable_iff : {α : Type} → (type : FieldType α) → type.Distinct → ∀ {x : α},
    (∃ d, type.write x .null = .ok d) ↔ type.Encodable x
  | _, .struct fields, distinct, _ => fields.encodable_iff distinct (.inl rfl) fun _ _ => rfl
  | _, .array item, distinct, xs => by
      have each : ∀ x, (∃ d, item.write x .null = .ok d) ↔ item.Encodable x := fun _ =>
        item.encodable_iff distinct
      simp only [FieldType.write, FieldType.Encodable, map_ok, ← each, ← exists_mapM_ok]
      constructor
      · rintro ⟨_, items, looped, -⟩
        exact ⟨items, looped⟩
      · rintro ⟨items, looped⟩
        exact ⟨_, items, looped, rfl⟩
  | _, .string, _, _ => ⟨fun _ => trivial, fun _ => ⟨_, rfl⟩⟩
  | _, .integer _, _, _ => ⟨fun _ => trivial, fun _ => ⟨_, rfl⟩⟩
  | _, .boolean, _, _ => ⟨fun _ => trivial, fun _ => ⟨_, rfl⟩⟩
  | _, .number _, _, _ => ⟨fun _ => trivial, fun _ => ⟨_, rfl⟩⟩
  | _, .null, _, _ => ⟨fun _ => trivial, fun _ => ⟨_, rfl⟩⟩
  | _, .blob, _, _ => ⟨fun _ => trivial, fun _ => ⟨_, rfl⟩⟩

theorem Fields.encodable_iff : {σ : Type} → (fields : Fields σ) → fields.Distinct → ∀ {x : σ}
    {out : Dict}, out.Open → (∀ name ∈ fields.names, out.find name = none) →
      ((∃ d, fields.write x out = .ok d) ↔ fields.Encodable x)
  | _, .nil, _, _, _, _, _ => ⟨fun _ => trivial, fun _ => ⟨_, rfl⟩⟩
  | _, .cons name _ _ type rest, distinct, (field, x), out, isOpen, fresh => by
      obtain ⟨apart, distinctFirst, distinct⟩ := distinct
      have others : ∀ other ∈ rest.names, out.find other = none := fun other member =>
        fresh other (List.mem_cons_of_mem _ member)
      have later : (∃ d, rest.write x out = .ok d) ↔ rest.Encodable x :=
        rest.encodable_iff distinct isOpen others
      simp only [Fields.write, Fields.Encodable]
      cases field.defaultSet with
      | true => simp [later]
      | false =>
          cases field.value with
          | none => cases field.required <;> simp [later]
          | some value =>
              have written : ∀ written, (∃ d, rest.write x (out.put name written) = .ok d) ↔
                  rest.Encodable x := fun _ =>
                rest.encodable_iff distinct (Dict.put_open ..)
                  (Dict.find_put_fresh isOpen apart others)
              simp only [Bool.false_eq_true, if_false, bind_ok,
                Dict.slot_of_open isOpen (fresh name (by simp [Fields.names])), Except.ok.injEq,
                exists_eq_left', ← type.encodable_iff distinctFirst]
              constructor
              · rintro ⟨d, value', first, computed⟩
                exact ⟨⟨value', first⟩, (written value').mp ⟨d, computed⟩⟩
              · rintro ⟨⟨value', first⟩, encodable⟩
                obtain ⟨d, computed⟩ := (written value').mpr encodable
                exact ⟨d, value', first, computed⟩

end

/-- A description has no other entries at first. -/
theorem FieldType.describe_default {α : Type} {type : FieldType α} {schema : Dict}
    (computed : type.describe .null = .ok schema) : schema.find "default" = none := by
  cases type with
  | array item =>
      simp only [FieldType.describe, bind_ok] at computed
      obtain ⟨out, typed, _, _, _, _, same⟩ := computed
      obtain rfl := Dict.assign_type typed
      cases same
      rw [Dict.find_put _ _ _ _ (.inr ⟨_, rfl⟩)]
      simp
  | struct fields =>
      simp only [FieldType.describe, bind_ok] at computed
      obtain ⟨out, typed, _, _, ⟨props, req⟩, _, rest⟩ := computed
      obtain rfl := Dict.assign_type typed
      have found : ((Dict.object [("type", .string "object")]).put "properties" props).find
          "default" = none := by
        rw [Dict.find_put _ _ _ _ (.inr ⟨_, rfl⟩)]
        simp
      simp only at rest
      split at rest
      · cases rest
        exact found
      · rw [Dict.assign_of_open (Dict.put_open ..)] at rest
        cases rest
        rw [Dict.find_put _ _ _ _ (Dict.put_open ..), found]
        simp
  | _ =>
      obtain rfl := Dict.assign_type computed
      simp

/-- What a field adds to its type's description. -/
theorem FieldType.exists_described {α : Type} {type : FieldType α} (distinct : type.Distinct)
    {init : Init α} {obj : Dict} (described : type.describe .null = .ok obj) (desc : String) :
    (∃ obj₁ obj₂, obj.describedBy desc = .ok obj₁ ∧
        type.describeDefault (.make init) obj₁ = .ok obj₂) ↔
      match init with
      | .required => True
      | .optional => True
      | .default value => type.Encodable value := by
  obtain ⟨obj₁, commented, isOpen, fresh⟩ :
      ∃ obj₁, obj.describedBy desc = .ok obj₁ ∧ obj₁.Open ∧ obj₁.find "default" = none := by
    have objOpen := type.describe_open described
    unfold Dict.describedBy
    split
    · exact ⟨obj, rfl, objOpen, FieldType.describe_default described⟩
    · refine ⟨_, Dict.assign_of_open objOpen .., Dict.put_open .., ?_⟩
      rw [Dict.find_put_ne objOpen (by decide), FieldType.describe_default described]
  simp only [commented, Except.ok.injEq]
  cases init with
  | required => simp [FieldType.describeDefault, Field.make]
  | optional => simp [FieldType.describeDefault, Field.make]
  | default value =>
      have empty : obj₁.slot "default" = .ok .null := Dict.slot_of_open isOpen fresh
      simp only [FieldType.describeDefault, Field.make, bind_ok, ← type.encodable_iff distinct]
      constructor
      · rintro ⟨_, _, rfl, slot, found, written, wrote, -⟩
        obtain rfl : Dict.null = slot := Except.ok.inj (empty.symm.trans found)
        exact ⟨written, wrote⟩
      · rintro ⟨written, wrote⟩
        exact ⟨_, _, rfl, _, empty, written, wrote, rfl⟩

mutual

/-- The description exists exactly if the defaults can be encoded. -/
theorem FieldType.describable_iff : {α : Type} → (type : FieldType α) → type.Distinct →
    ((∃ schema, type.describe .null = .ok schema) ↔ type.Describable)
  | _, .struct fields, distinct => by
      rw [FieldType.Describable, ← fields.describable_iff distinct (.inl rfl) fun _ _ => rfl]
      constructor
      · rintro ⟨schema, computed⟩
        obtain ⟨props, req, described, -⟩ := FieldType.describe_struct computed
        exact ⟨_, described⟩
      · rintro ⟨⟨props, req⟩, described⟩
        have typed : Dict.null.assign "type" (.string "object") =
            .ok (.object [("type", .string "object")]) := rfl
        have empty : (Dict.object [("type", .string "object")]).slot "properties" = .ok .null := rfl
        simp only [FieldType.describe, bind_ok, typed, empty, Except.ok.injEq, exists_eq_left',
          described]
        split
        · exact ⟨_, rfl⟩
        · exact ⟨_, Dict.assign_of_open (Dict.put_open ..) ..⟩
  | _, .array item, distinct => by
      rw [FieldType.Describable, ← item.describable_iff distinct]
      constructor
      · rintro ⟨schema, computed⟩
        obtain ⟨sub, element, -⟩ := FieldType.describe_array computed
        exact ⟨sub, element⟩
      · rintro ⟨sub, element⟩
        have typed : Dict.null.assign "type" (.string "array") =
            .ok (.object [("type", .string "array")]) := rfl
        have empty : (Dict.object [("type", .string "array")]).slot "items" = .ok .null := rfl
        simp only [FieldType.describe, bind_ok, typed, empty, Except.ok.injEq, exists_eq_left',
          element]
        exact ⟨_, rfl⟩
  | _, .string, _ => ⟨fun _ => trivial, fun _ => ⟨_, rfl⟩⟩
  | _, .integer _, _ => ⟨fun _ => trivial, fun _ => ⟨_, rfl⟩⟩
  | _, .boolean, _ => ⟨fun _ => trivial, fun _ => ⟨_, rfl⟩⟩
  | _, .number _, _ => ⟨fun _ => trivial, fun _ => ⟨_, rfl⟩⟩
  | _, .null, _ => ⟨fun _ => trivial, fun _ => ⟨_, rfl⟩⟩
  | _, .blob, _ => ⟨fun _ => trivial, fun _ => ⟨_, rfl⟩⟩

theorem Fields.describable_iff : {σ : Type} → (fields : Fields σ) → fields.Distinct →
    ∀ {props : Dict}, props.Open → (∀ name ∈ fields.names, props.find name = none) →
      ((∃ result, fields.describe fields.empty props = .ok result) ↔ fields.Describable)
  | _, .nil, _, _, _, _ => ⟨fun _ => trivial, fun _ => ⟨_, rfl⟩⟩
  | _, .cons name desc init type rest, distinct, props, isOpen, fresh => by
      obtain ⟨apart, distinctFirst, distinct⟩ := distinct
      have later : ∀ obj, (∃ result, rest.describe rest.empty (props.put name obj) = .ok result) ↔
          rest.Describable := fun obj =>
        rest.describable_iff distinct (Dict.put_open ..) (Dict.find_put_fresh isOpen apart
          fun other member => fresh other (List.mem_cons_of_mem _ member))
      simp only [Fields.describe, Fields.empty, Fields.Describable, bind_ok, Except.ok.injEq,
        Dict.slot_of_open isOpen (fresh name (by simp [Fields.names])), exists_eq_left',
        ← type.describable_iff distinctFirst]
      constructor
      · rintro ⟨_, obj, described, obj₁, commented, obj₂, defaulted, result, others, -⟩
        exact ⟨⟨obj, described⟩, (FieldType.exists_described distinctFirst described desc).mp
          ⟨obj₁, obj₂, commented, defaulted⟩, (later obj₂).mp ⟨result, others⟩⟩
      · rintro ⟨⟨obj, described⟩, encodable, others⟩
        obtain ⟨obj₁, obj₂, commented, defaulted⟩ :=
          (FieldType.exists_described distinctFirst described desc).mpr encodable
        obtain ⟨result, others⟩ := (later obj₂).mpr others
        exact ⟨_, obj, described, obj₁, commented, obj₂, defaulted, result, others, rfl⟩

end

/-! ### The contract -/

/-- **When the encoder conforms to the schema.** What is written for a value conforms to
a description of its type exactly when there is one, since every default in the type can
be encoded, and no `bool` is written, something is written of every struct, and every
member declared required is written. -/
theorem toDict_conforms_iff {α : Type} {type : FieldType α} (distinct : type.Distinct) {value : α}
    {d : Dict} (encoded : type.toDict value = .ok d) :
    (∃ schema, type.toSchema = .ok schema ∧ Conforms schema d) ↔
      type.Describable ∧ type.Described value := by
  rw [← type.describable_iff distinct]
  constructor
  · rintro ⟨schema, described, conforms⟩
    exact ⟨⟨schema, described⟩, (type.conforms_iff distinct described encoded).mp conforms⟩
  · rintro ⟨⟨schema, described⟩, written⟩
    exact ⟨schema, described, (type.conforms_iff distinct described encoded).mpr written⟩

/-- A struct with a text and a flag. -/
def note : FieldType (Field String × Field Bool × Unit) :=
  .struct (.cons "text" "Text of the note" .required .string
    (.cons "pinned" "Whether the note is pinned" (.default true) .boolean .nil))

theorem note_distinct : note.Distinct := by
  simp [note, FieldType.Distinct, Fields.Distinct, Fields.names]

/-- A note that is not pinned. -/
def note_unpinned : Field String × Field Bool × Unit :=
  ((Field.make .required).assign "a", (Field.make (.default true)).assign false, ())

/-- A flag that is written is not the integer its description says. -/
theorem toDict_not_conforms : ∃ schema d, note.toSchema = .ok schema ∧
    note.toDict note_unpinned = .ok d ∧ ¬ Conforms schema d := by
  refine ⟨_, _, rfl, rfl, fun conforms => ?_⟩
  have described : note.Described note_unpinned :=
    (note.conforms_iff note_distinct rfl rfl).mp conforms
  exact described.1.2.1

/-- A note whose flag is left as declared. -/
theorem toDict_conforms_iff_note :
    note.toDict ((Field.make .required).assign "a", Field.make (.default true), ()) =
        .ok (.object [("text", .string "a")]) ∧
      ((∃ schema, note.toSchema = .ok schema ∧ Conforms schema (.object [("text", .string "a")])) ↔
        note.Describable ∧
          note.Described ((Field.make .required).assign "a", Field.make (.default true), ())) :=
  ⟨rfl, toDict_conforms_iff note_distinct rfl⟩

end AlpacaCore.Schema
