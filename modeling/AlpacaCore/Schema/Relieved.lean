import AlpacaCore.Schema.Describe

/-!
The schema of what is filled in.

The decoder fills in a struct where it is. A struct that is there by default asks the dict
for what its own fields require, which is not always what they are declared to require:
a field that was given a value requires nothing. `relieved` is the published schema but
for the names it lists as required, which are those that are asked for.
-/

namespace AlpacaCore.Schema

/-! ### Members by name -/

/-- What `find` looks through. -/
def Dict.members : Dict → List (String × Dict)
  | .object members => members
  | _ => []

/-- Applies to each member the function that is listed under its name. -/
def mapNamed (functions : List (String × (Dict → Dict))) (members : List (String × Dict)) :
    List (String × Dict) :=
  members.map fun member => (member.1, ((functions.lookup member.1).getD id) member.2)

/-- The second dict has, under each name that is listed, the image of what the first one
has there. -/
def Dict.Maps (functions : List (String × (Dict → Dict))) (d d' : Dict) : Prop :=
  ∀ entry ∈ functions, d'.find entry.1 = (d.find entry.1).map entry.2

theorem Dict.find_members (d : Dict) (key : String) : d.find key = d.members.lookup key := by
  cases d <;> rfl

theorem lookup_mapNamed (functions : List (String × (Dict → Dict)))
    (members : List (String × Dict)) (name : String) :
    (mapNamed functions members).lookup name =
      (members.lookup name).map ((functions.lookup name).getD id) := by
  induction members with
  | nil => rfl
  | cons member members ih =>
      obtain ⟨key, value⟩ := member
      by_cases here : name = key
      · subst here
        simp [mapNamed]
      · simp only [mapNamed, List.map_cons, List.lookup_cons, beq_eq_false_iff_ne.mpr here]
        exact ih

theorem lookup_of_mem {functions : List (String × (Dict → Dict))}
    (distinct : (functions.map (·.1)).Nodup) : ∀ entry ∈ functions,
      functions.lookup entry.1 = some entry.2 := by
  induction functions with
  | nil => simp
  | cons first functions ih =>
      obtain ⟨key, f⟩ := first
      obtain ⟨apart, distinct⟩ := List.nodup_cons.mp distinct
      rintro entry member
      rcases List.mem_cons.mp member with rfl | inside
      · simp
      · have differs : entry.1 ≠ key := by
          rintro rfl
          exact apart (List.mem_map.mpr ⟨entry, inside, rfl⟩)
        rw [List.lookup_cons, beq_eq_false_iff_ne.mpr differs]
        exact ih distinct entry inside

theorem Dict.maps_mapNamed {functions : List (String × (Dict → Dict))}
    (distinct : (functions.map (·.1)).Nodup) (d : Dict) :
    d.Maps functions (.object (mapNamed functions d.members)) := by
  intro entry member
  rw [Dict.find_object, lookup_mapNamed, lookup_of_mem distinct entry member, d.find_members]
  rfl

/-- Names that are not listed keep what they have. -/
theorem Dict.find_mapNamed {functions : List (String × (Dict → Dict))} {d : Dict} {name : String}
    (absent : name ∉ functions.map (·.1)) :
    (Dict.object (mapNamed functions d.members)).find name = d.find name := by
  have none : functions.lookup name = none := by
    rw [List.lookup_eq_none_iff]
    intro entry member
    rw [bne_iff_ne]
    rintro rfl
    exact absent (List.mem_map_of_mem member)
  rw [Dict.find_object, lookup_mapNamed, none, d.find_members]
  cases d.members.lookup name <;> rfl

/-! ### The relieved schema -/

mutual

/-- The schema, where the names listed as required of a struct are the ones that are
required of the value it is filled in from. -/
def FieldType.relieved : {α : Type} → FieldType α → (base : α) → (schema : Dict) → Dict
  | _, .struct fields, base, schema =>
      (schema.put "properties" (.object
          (mapNamed (fields.relievers base) ((schema.find "properties").getD .null).members))).put
        "required" (.array ((fields.needed base).map .string))
  | _, .array item, _, schema =>
      schema.put "items" (item.relieved item.empty ((schema.find "items").getD .null))
  | _, .integer _, _, schema => schema
  | _, .number _, _, schema => schema
  | _, .string, _, schema => schema
  | _, .boolean, _, schema => schema
  | _, .null, _, schema => schema
  | _, .blob, _, schema => schema

/-- What becomes of the properties of a struct. -/
def Fields.relievers : {σ : Type} → Fields σ → (base : σ) → List (String × (Dict → Dict))
  | _, .nil, _ => []
  | _, .cons name _ _ type rest, (field, base) =>
      (name, type.relieved (field.materialize type.empty)) :: rest.relievers base

/-- The names required of the struct. -/
def Fields.needed : {σ : Type} → Fields σ → (base : σ) → List String
  | _, .nil, _ => []
  | _, .cons name _ _ _ rest, (field, base) =>
      if field.required then name :: rest.needed base else rest.needed base

end

theorem Fields.names_nodup : {σ : Type} → (fields : Fields σ) → fields.Distinct →
    fields.names.Nodup
  | _, .nil, _ => .nil
  | _, .cons _ _ _ _ rest, distinct =>
      List.nodup_cons.mpr ⟨distinct.1, rest.names_nodup distinct.2.2⟩

mutual

/-- What the value requires, down to the values that its structs are filled in from, is
what is declared. -/
def FieldType.AsDeclared : {α : Type} → FieldType α → (base : α) → Prop
  | _, .struct fields, base => fields.AsDeclared base
  | _, .array item, _ => item.AsDeclared item.empty
  | _, .integer _, _ => True
  | _, .number _, _ => True
  | _, .string, _ => True
  | _, .boolean, _ => True
  | _, .null, _ => True
  | _, .blob, _ => True

def Fields.AsDeclared : {σ : Type} → Fields σ → (base : σ) → Prop
  | _, .nil, _ => True
  | _, .cons _ _ init type rest, (field, base) =>
      field.required = (Field.make init).required ∧
        type.AsDeclared (field.materialize type.empty) ∧ rest.AsDeclared base

end

/-! ### Conforming -/

mutual

/-- The dict has the types of the description, and under the names that are required of
what is filled in there is something. -/
def FieldType.Admits : {α : Type} → FieldType α → (base : α) → Dict → Prop
  | _, .struct fields, base, d => (∃ members, d = .object members) ∧ fields.Admits base d
  | _, .array item, _, d => ∃ values, d = .array values ∧ ∀ v ∈ values, item.Admits item.empty v
  | _, .integer _, _, d => d.HasType "integer"
  | _, .boolean, _, d => d.HasType "integer"
  | _, .number _, _, d => d.HasType "number"
  | _, .string, _, d => d.HasType "string"
  | _, .null, _, d => d.HasType "null"
  | _, .blob, _, d => d.HasType "binary"

def Fields.Admits : {σ : Type} → Fields σ → (base : σ) → Dict → Prop
  | _, .nil, _, _ => True
  | _, .cons name _ _ type rest, (field, base), d =>
      ((∀ v, d.find name = some v → type.Admits (field.materialize type.empty) v) ∧
        (field.required = true → ∃ v, d.find name = some v)) ∧
      rest.Admits base d

end

mutual

/-- Conforming to the published schema, where all is required as declared. -/
theorem FieldType.conforms_described : {α : Type} → (type : FieldType α) → type.Distinct →
    ∀ {base : α} {schema d : Dict}, type.describe .null = .ok schema → type.AsDeclared base →
      (Conforms schema d ↔ type.Admits base d)
  | _, .integer _, _, _, _, _, described, _ => Dict.assign_type described ▸ conforms_leaf
  | _, .number _, _, _, _, _, described, _ => Dict.assign_type described ▸ conforms_leaf
  | _, .string, _, _, _, _, described, _ => Dict.assign_type described ▸ conforms_leaf
  | _, .boolean, _, _, _, _, described, _ => Dict.assign_type described ▸ conforms_leaf
  | _, .null, _, _, _, _, described, _ => Dict.assign_type described ▸ conforms_leaf
  | _, .blob, _, _, _, _, described, _ => Dict.assign_type described ▸ conforms_leaf
  | _, .array item, distinct, _, schema, d, described, declared => by
      obtain ⟨sub, element, type, items, properties, required⟩ := FieldType.describe_array described
      rw [conforms_array type items properties required, FieldType.Admits]
      have each : ∀ v, Conforms sub v ↔ item.Admits item.empty v := fun _ =>
        item.conforms_described distinct element declared
      simp only [each]
  | _, .struct fields, distinct, base, schema, d, described, declared => by
      obtain ⟨props, req, described, type, items, properties, required⟩ :=
        FieldType.describe_struct described
      have nothing : ∀ name ∈ fields.names, Dict.null.find name = none := fun _ _ => rfl
      have inside := fields.conforms_described distinct (.inl rfl) nothing described declared
      rw [conforms_object type items properties required, FieldType.Admits, ← inside d]
      apply and_congr_right
      intro _
      apply and_congr_left
      intro _
      constructor
      · exact fun members name _ => members name
      · intro members name sub v found
        by_cases member : name ∈ fields.names
        · exact members name member sub v found
        · have outside := fields.describe_find distinct (.inl rfl) nothing described name member
          cases outside.symm.trans found

theorem Fields.conforms_described : {σ : Type} → (fields : Fields σ) → fields.Distinct →
    ∀ {base : σ} {props props' : Dict} {req : List String}, props.Open →
      (∀ name ∈ fields.names, props.find name = none) →
      fields.describe fields.empty props = .ok (props', req) → fields.AsDeclared base →
        ∀ d : Dict, ((∀ name ∈ fields.names, ∀ sub v, props'.find name = some sub →
            d.find name = some v → Conforms sub v) ∧ ∀ name ∈ req, ∃ v, d.find name = some v) ↔
          fields.Admits base d
  | _, .nil, _, _, _, _, _, _, _, described, _, d => by
      cases described
      simp [Fields.names, Fields.Admits]
  | _, .cons name desc init type rest, distinct, (field, base), props, props', req, isOpen, fresh,
      described, declared, d => by
      obtain ⟨obj, obj', req', describedFirst, describedRest, untouched, split⟩ :=
        Fields.properties_cons distinct isOpen fresh described
      obtain ⟨-, distinctFirst, distinctRest⟩ := distinct
      obtain ⟨flag, declaredFirst, declaredRest⟩ := declared
      have later := rest.conforms_described distinctRest (Dict.put_open ..) untouched describedRest
        declaredRest d
      have here : ∀ v, Conforms obj v ↔ type.Admits (field.materialize type.empty) v := fun _ =>
        type.conforms_described distinctFirst describedFirst declaredFirst
      rw [split, later, Fields.Admits, flag]
      simp only [here]

end

/-- Replacing an entry keeps two descriptions alike. -/
theorem Agrees.put_same {schema schema' : Dict} (agrees : Agrees schema schema')
    (isOpen : schema.Open) (isOpen' : schema'.Open) (key : String) (value : Dict) :
    Agrees (schema.put key value) (schema'.put key value) := by
  constructor
  · rw [Dict.find_put _ _ _ _ isOpen, Dict.find_put _ _ _ _ isOpen', agrees.type]
  · rw [Dict.find_put _ _ _ _ isOpen, Dict.find_put _ _ _ _ isOpen', agrees.items]
  · rw [Dict.find_put _ _ _ _ isOpen, Dict.find_put _ _ _ _ isOpen', agrees.properties]
  · rw [Dict.find_put _ _ _ _ isOpen, Dict.find_put _ _ _ _ isOpen', agrees.required]

theorem FieldType.relieved_agrees {α : Type} (type : FieldType α) (base : α)
    {schema schema' : Dict} (agrees : Agrees schema schema') (isOpen : schema.Open)
    (isOpen' : schema'.Open) : Agrees (type.relieved base schema) (type.relieved base schema') := by
  cases type with
  | struct fields =>
      rw [FieldType.relieved, FieldType.relieved, agrees.properties]
      exact (agrees.put_same isOpen isOpen' ..).put_same (Dict.put_open ..) (Dict.put_open ..) ..
  | array item =>
      rw [FieldType.relieved, FieldType.relieved, agrees.items]
      exact agrees.put_same isOpen isOpen' ..
  | _ => exact agrees

theorem Fields.names_relievers : {σ : Type} → (fields : Fields σ) → ∀ (base : σ),
    (fields.relievers base).map (·.1) = fields.names
  | _, .nil, _ => rfl
  | _, .cons name _ _ _ rest, base => congrArg (name :: ·) (rest.names_relievers base.2)

mutual

/-- Conforming to the relieved schema. -/
theorem FieldType.conforms_relieved : {α : Type} → (type : FieldType α) → type.Distinct →
    ∀ {base : α} {schema d : Dict}, type.describe .null = .ok schema →
      (Conforms (type.relieved base schema) d ↔ type.Admits base d)
  | _, .integer type, _, _, _, _, described =>
      FieldType.conforms_described (.integer type) trivial described trivial
  | _, .number type, _, _, _, _, described =>
      FieldType.conforms_described (.number type) trivial described trivial
  | _, .string, _, _, _, _, described =>
      FieldType.conforms_described .string trivial described trivial
  | _, .boolean, _, _, _, _, described =>
      FieldType.conforms_described .boolean trivial described trivial
  | _, .null, _, _, _, _, described =>
      FieldType.conforms_described .null trivial described trivial
  | _, .blob, _, _, _, _, described =>
      FieldType.conforms_described .blob trivial described trivial
  | _, .array item, distinct, _, schema, d, described => by
      have isOpen := FieldType.describe_open _ described
      obtain ⟨sub, element, type, items, properties, required⟩ := FieldType.describe_array described
      have each : ∀ v, Conforms (item.relieved item.empty sub) v ↔ item.Admits item.empty v :=
        fun _ => item.conforms_relieved distinct element
      rw [FieldType.relieved, FieldType.Admits, items, Option.getD_some,
        conforms_array ((Dict.find_put_ne isOpen (by decide)).trans type)
          (Dict.find_put_self isOpen) ((Dict.find_put_ne isOpen (by decide)).trans properties)
          ((Dict.find_put_ne isOpen (by decide)).trans required)]
      simp only [each]
  | _, .struct fields, distinct, base, schema, d, described => by
      have isOpen := FieldType.describe_open _ described
      obtain ⟨props, req, described, type, items, properties, -⟩ :=
        FieldType.describe_struct described
      have nothing : ∀ name ∈ fields.names, Dict.null.find name = none := fun _ _ => rfl
      have maps : props.Maps (fields.relievers base)
          (.object (mapNamed (fields.relievers base) props.members)) :=
        Dict.maps_mapNamed (fields.names_relievers base ▸ fields.names_nodup distinct) props
      have inside := fields.conforms_relieved distinct (.inl rfl) nothing described maps
      have kept : ∀ {key : String}, key ≠ "properties" → key ≠ "required" →
          ((FieldType.struct fields).relieved base schema).find key = schema.find key := by
        intro key other other'
        rw [FieldType.relieved, Dict.find_put_ne (Dict.put_open ..) other',
          Dict.find_put_ne isOpen other]
      have replaced : ((FieldType.struct fields).relieved base schema).find "properties" =
          some (.object (mapNamed (fields.relievers base) props.members)) := by
        rw [FieldType.relieved, Dict.find_put_ne (Dict.put_open ..) (by decide),
          Dict.find_put_self isOpen, properties, Option.getD_some]
      have listed : ((FieldType.struct fields).relieved base schema).find "required" =
          some (.array ((fields.needed base).map .string)) := by
        rw [FieldType.relieved, Dict.find_put_self (Dict.put_open ..)]
      rw [conforms_object ((kept (by decide) (by decide)).trans type)
        ((kept (by decide) (by decide)).trans items) replaced (Dict.requires_iff listed),
        FieldType.Admits, ← inside d]
      apply and_congr_right
      intro _
      apply and_congr_left
      intro _
      constructor
      · exact fun members name _ => members name
      · intro members name sub v found
        by_cases member : name ∈ fields.names
        · exact members name member sub v found
        · rw [Dict.find_mapNamed (fields.names_relievers base ▸ member)] at found
          have outside := fields.describe_find distinct (.inl rfl) nothing described name member
          cases outside.symm.trans found

theorem Fields.conforms_relieved : {σ : Type} → (fields : Fields σ) → fields.Distinct →
    ∀ {base : σ} {props props' props'' : Dict} {req : List String}, props.Open →
      (∀ name ∈ fields.names, props.find name = none) →
      fields.describe fields.empty props = .ok (props', req) →
      props'.Maps (fields.relievers base) props'' →
        ∀ d : Dict, ((∀ name ∈ fields.names, ∀ sub v, props''.find name = some sub →
            d.find name = some v → Conforms sub v) ∧
              ∀ name ∈ fields.needed base, ∃ v, d.find name = some v) ↔
          fields.Admits base d
  | _, .nil, _, _, _, _, _, _, _, _, _, _, d => by
      simp [Fields.names, Fields.needed, Fields.Admits]
  | _, .cons name desc init type rest, distinct, (field, base), props, props', props'', req, isOpen,
      fresh, described, maps, d => by
      obtain ⟨obj, obj', req', describedFirst, agrees, isOpen', describedRest, untouched, property,
        -⟩ := Fields.describe_first distinct isOpen fresh described
      obtain ⟨-, distinctFirst, distinctRest⟩ := distinct
      obtain ⟨first, others⟩ := List.forall_mem_cons.mp maps
      have later := rest.conforms_relieved distinctRest (Dict.put_open ..) untouched describedRest
        others d
      have here : ∀ v, Conforms (type.relieved (field.materialize type.empty) obj') v ↔
          type.Admits (field.materialize type.empty) v := fun v =>
        (type.relieved_agrees _ agrees (type.describe_open describedFirst) isOpen').conforms.trans
          (type.conforms_relieved distinctFirst describedFirst)
      have property' :
          (∀ sub v, props''.find name = some sub → d.find name = some v → Conforms sub v) ↔
            ∀ v, d.find name = some v → type.Admits (field.materialize type.empty) v := by
        rw [first, property, Option.map_some]
        constructor
        · exact fun conforms v has => (here v).mp (conforms _ v rfl has)
        · rintro admits _ v ⟨⟩ has
          exact (here v).mpr (admits v has)
      rw [Fields.Admits, ← later, Fields.names, Fields.needed, List.forall_mem_cons, property']
      split
      · rename_i needed
        simp only [List.forall_mem_cons, needed, forall_const]
        exact and_and_and_comm
      · rename_i optional
        simp only [optional, Bool.false_eq_true, false_implies, and_true]
        exact and_assoc

end

end AlpacaCore.Schema
