import AlpacaCore.Schema.Field
import Mathlib.Data.List.Forall2

/-!
`ToDictVisitor` and `FromDictVisitor`.

Both are overload sets; here each is one recursion over the type. The encoder
writes into the `Dict&` it is given, so `write` takes the value that is there. The
decoder fills a value that exists already, so `read` takes that value.
-/

namespace AlpacaCore.Schema

/-- The value the encoder writes for a field, if it writes one. -/
def Field.written {α : Type} (field : Field α) : Option α :=
  if field.defaultSet then none else field.value

theorem Field.written_some {α : Type} {field : Field α} {value : α}
    (given : field.written = some value) : field.value = some value := by
  unfold Field.written at given
  split at given
  · cases given
  · exact given

mutual

/-- `writeToDict`. -/
def FieldType.write : {α : Type} → FieldType α → α → Dict → Except Exception Dict
  | _, .struct fields, x, out => fields.write x out
  | _, .blob, bytes, _ => .ok (.binary bytes)
  | _, .array item, xs, _ => (xs.mapM fun x => item.write x .null).map .array
  | _, .string, s, _ => .ok (.string s)
  | _, .integer type, n, _ =>
      .ok (if type.signed then .integer (n.signExtend 64) else .unsigned (n.setWidth 64))
  | _, .boolean, b, _ => .ok (.boolean b)
  | _, .number type, x, _ => .ok (.float (type.toDouble x))
  | _, .null, _, _ => .ok .null

/-- `ToDictVisitor::operator()`, for one field after the other. -/
def Fields.write : {σ : Type} → Fields σ → σ → Dict → Except Exception Dict
  | _, .nil, _, out => .ok out
  | _, .cons name _ _ type rest, (field, x), out =>
      if field.defaultSet then rest.write x out
      else
        match field.value with
        | none =>
            if field.required then .error (.runtime ("Required field " ++ name ++ " is not set"))
            else rest.write x out
        | some value => do
            let slot ← out.slot name
            let written ← type.write value slot
            rest.write x (out.put name written)

end

/-- `Struct_toDict`. -/
def FieldType.toDict {α : Type} (type : FieldType α) (value : α) : Except Exception Dict :=
  type.write value .null

mutual

/-- `readFromDict`. -/
def FieldType.read : {α : Type} → FieldType α → α → Dict → Except Exception α
  | _, .struct fields, x, d => fields.read x d
  | _, .string, _, d => d.getString
  | _, .blob, _, d => d.getBinary
  | _, .array item, _, d => d.items.mapM fun v => item.read item.empty v
  | _, .integer type, _, d => d.getInt type
  | _, .boolean, _, d => d.getBool
  | _, .number type, _, d => d.getFloat type
  | _, .null, _, d => d.getNull

/-- `FromDictVisitor::operator()`, for one field after the other. -/
def Fields.read : {σ : Type} → Fields σ → σ → Dict → Except Exception σ
  | _, .nil, _, _ => .ok ()
  | _, .cons name _ _ type rest, (field, x), d =>
      match d.find name with
      | none =>
          if field.required then .error (.runtime ("Required field " ++ name ++ " is not set"))
          else do
            let x ← rest.read x d
            .ok (field, x)
      | some v => do
          let value ← type.read (field.materialize type.empty) v
          let x ← rest.read x d
          .ok (field.fill value, x)

end

/-- `Struct_fromDict<T>`. -/
def FieldType.fromDict {α : Type} (type : FieldType α) (d : Dict) : Except Exception α :=
  type.read type.empty d

/-! ### Steps that may throw -/

theorem bind_ok {α β : Type} {x : Except Exception α} {f : α → Except Exception β} {b : β} :
    (x >>= f) = .ok b ↔ ∃ a, x = .ok a ∧ f a = .ok b := by
  cases x with
  | error e => simp [bind, Except.bind]
  | ok a => simp [bind, Except.bind]

theorem map_ok {α β : Type} {x : Except Exception α} {f : α → β} {b : β} :
    x.map f = .ok b ↔ ∃ a, x = .ok a ∧ f a = b := by
  cases x with
  | error e => simp [Except.map]
  | ok a => simp [Except.map]

/-- A loop that does not throw has run its body on every element. -/
theorem mapM_ok {α β : Type} {f : α → Except Exception β} {xs : List α} {ys : List β} :
    xs.mapM f = .ok ys ↔ List.Forall₂ (fun x y => f x = .ok y) xs ys := by
  induction xs generalizing ys with
  | nil =>
      simp only [List.mapM_nil, List.forall₂_nil_left_iff]
      constructor
      · intro empty
        cases empty
        rfl
      · rintro rfl
        rfl
  | cons x xs ih =>
      rw [List.mapM_cons]
      constructor
      · intro computed
        obtain ⟨y, first, rest⟩ := bind_ok.mp computed
        obtain ⟨ys', others, same⟩ := bind_ok.mp rest
        cases same
        exact .cons first (ih.mp others)
      · intro computed
        cases computed with
        | @cons _ y _ ys' first others =>
            exact bind_ok.mpr ⟨y, first, bind_ok.mpr ⟨ys', ih.mpr others, rfl⟩⟩

/-! ### What the decoder makes of one field -/

theorem Fields.read_absent {α σ : Type} {name desc : String} {init : Init α} {type : FieldType α}
    {rest : Fields σ} {found field : Field α} {base y : σ} {d : Dict}
    (absent : d.find name = none) :
    (Fields.cons name desc init type rest).read (found, base) d = .ok (field, y) ↔
      found.required = false ∧ field = found ∧ rest.read base d = .ok y := by
  simp only [Fields.read, absent]
  cases found.required with
  | true => simp
  | false =>
      simp only [Bool.false_eq_true, if_false, bind_ok, true_and, Except.ok.injEq, Prod.mk.injEq]
      constructor
      · rintro ⟨_, read, rfl, rfl⟩
        exact ⟨rfl, read⟩
      · rintro ⟨rfl, read⟩
        exact ⟨y, read, rfl, rfl⟩

theorem Fields.read_present {α σ : Type} {name desc : String} {init : Init α} {type : FieldType α}
    {rest : Fields σ} {found field : Field α} {base y : σ} {d v : Dict}
    (present : d.find name = some v) :
    (Fields.cons name desc init type rest).read (found, base) d = .ok (field, y) ↔
      ∃ value, type.read (found.materialize type.empty) v = .ok value ∧ field = found.fill value ∧
        rest.read base d = .ok y := by
  simp only [Fields.read, present, bind_ok, Except.ok.injEq, Prod.mk.injEq]
  constructor
  · rintro ⟨value, first, _, read, rfl, rfl⟩
    exact ⟨value, first, rfl, read⟩
  · rintro ⟨value, first, rfl, read⟩
    exact ⟨value, first, y, read, rfl, rfl⟩

/-! ### What the encoder leaves where -/

/-- A value fields can be written into. -/
def Dict.Open (d : Dict) : Prop := d = .null ∨ ∃ members, d = .object members

theorem Dict.put_open (d : Dict) (key : String) (value : Dict) : (d.put key value).Open := by
  cases d <;> exact .inr ⟨_, rfl⟩

/-- Nothing is there under a new name, and nothing throws. -/
theorem Dict.slot_of_open {d : Dict} (isOpen : d.Open) {key : String} (fresh : d.find key = none) :
    d.slot key = .ok .null := by
  rcases isOpen with rfl | ⟨members, rfl⟩
  · rfl
  · simp only [Dict.find_object] at fresh
    simp [Dict.slot, fresh]

/-- The encoder's visit of one field, and of those after it. -/
theorem Fields.write_cons {α σ : Type} {name desc : String} {init : Init α} {type : FieldType α}
    {rest : Fields σ} {field : Field α} {x : σ} {out d : Dict} (isOpen : out.Open)
    (fresh : out.find name = none)
    (computed : (Fields.cons name desc init type rest).write (field, x) out = .ok d) :
    (field.written = none ∧ rest.write x out = .ok d) ∨
      ∃ value written, field.written = some value ∧ type.write value .null = .ok written ∧
        rest.write x (out.put name written) = .ok d := by
  simp only [Fields.write] at computed
  split at computed
  · rename_i omitted
    exact .inl ⟨by simp [Field.written, omitted], computed⟩
  · rename_i given
    split at computed
    · rename_i absent
      split at computed
      · cases computed
      · exact .inl ⟨by simp [Field.written, absent], computed⟩
    · rename_i value present
      rw [Dict.slot_of_open isOpen fresh] at computed
      obtain ⟨slot, same, computed⟩ := bind_ok.mp computed
      cases same
      obtain ⟨written, first, others⟩ := bind_ok.mp computed
      exact .inr ⟨value, written, by simp [Field.written, given, present], first, others⟩

/-- A struct leaves names that are not its fields' alone. -/
theorem Fields.write_find : {σ : Type} → (fields : Fields σ) → fields.Distinct → ∀ {x : σ}
    {out d : Dict}, out.Open → (∀ name ∈ fields.names, out.find name = none) →
      fields.write x out = .ok d →
        d.Open ∧ ∀ other, other ∉ fields.names → d.find other = out.find other
  | _, .nil, _, _, _, _, isOpen, _, computed => by
      cases computed
      exact ⟨isOpen, fun _ _ => rfl⟩
  | _, .cons name desc init type rest, distinct, (field, x), out, d, isOpen, fresh, computed => by
      obtain ⟨apart, -, distinct⟩ := distinct
      have others : ∀ other ∈ rest.names, out.find other = none := fun other member =>
        fresh other (List.mem_cons_of_mem _ member)
      rcases Fields.write_cons isOpen (fresh name (by simp [Fields.names])) computed with
        ⟨-, computed⟩ | ⟨value, written, -, -, computed⟩
      · obtain ⟨result, kept⟩ := rest.write_find distinct isOpen others computed
        refine ⟨result, fun other outside => kept other fun member => outside ?_⟩
        exact List.mem_cons_of_mem _ member
      · have untouched : ∀ other, other ≠ name → (out.put name written).find other =
            out.find other := by
          exact fun _ differs => Dict.find_put_ne isOpen differs
        obtain ⟨result, kept⟩ := rest.write_find distinct (Dict.put_open ..)
          (Dict.find_put_fresh isOpen apart others) computed
        constructor
        · exact result
        · intro other outside
          simp only [Fields.names, List.mem_cons, not_or] at outside
          rw [kept other outside.2, untouched other outside.1]

/-- What a struct leaves under the name of its first field. -/
theorem Fields.write_first {α σ : Type} {name desc : String} {init : Init α} {type : FieldType α}
    {rest : Fields σ} {field : Field α} {x : σ} {out d : Dict}
    (distinct : (Fields.cons name desc init type rest).Distinct) (isOpen : out.Open)
    (fresh : ∀ other ∈ (Fields.cons name desc init type rest).names, out.find other = none)
    (computed : (Fields.cons name desc init type rest).write (field, x) out = .ok d) :
    ∃ out', out'.Open ∧ (∀ other ∈ rest.names, out'.find other = none) ∧
      rest.write x out' = .ok d ∧
        ((field.written = none ∧ d.find name = none) ∨ ∃ value written,
          field.written = some value ∧ type.write value .null = .ok written ∧
            d.find name = some written) := by
  obtain ⟨apart, -, distinct⟩ := distinct
  have others : ∀ other ∈ rest.names, out.find other = none := fun other member =>
    fresh other (List.mem_cons_of_mem _ member)
  have first := fresh name (by simp [Fields.names])
  rcases Fields.write_cons isOpen first computed with
    ⟨omitted, computed⟩ | ⟨value, written, given, first', computed⟩
  · refine ⟨out, isOpen, others, computed, .inl ⟨omitted, ?_⟩⟩
    rw [(rest.write_find distinct isOpen others computed).2 name apart, first]
  · have untouched : ∀ other ∈ rest.names, (out.put name written).find other = none :=
      Dict.find_put_fresh isOpen apart others
    refine ⟨out.put name written, Dict.put_open .., untouched, computed,
      .inr ⟨value, written, given, first', ?_⟩⟩
    rw [(rest.write_find distinct (Dict.put_open ..) untouched computed).2 name apart,
      Dict.find_put_self isOpen]

end AlpacaCore.Schema
