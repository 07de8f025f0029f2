import AlpacaCore.Schema.Serialize

/-!
Which values the decoder takes, and what it throws at the others.

Two kinds of exceptions come out of it: its own `std::runtime_error` for a missing
field, and the type errors of the JSON library for a value of another type. It stops at
the first field that is one or the other, so which exception it throws is decided by the
order of the fields.
-/

namespace AlpacaCore.Schema

/-- What the decoder meets first. -/
inductive Fit where
  | fits
  | missing
  | mistyped
deriving DecidableEq

namespace Fit

def andThen : Fit → Fit → Fit
  | .fits, next => next
  | bad, _ => bad

/-- How a computation of the decoder ended. -/
def of {α : Type} : Except Exception α → Fit
  | .ok _ => .fits
  | .error (.runtime _) => .missing
  | .error (.json _) => .mistyped

theorem of_bind {α β : Type} {x : Except Exception α} {f : α → Except Exception β} {next : Fit}
    (rest : ∀ a, x = .ok a → of (f a) = next) : of (x >>= f) = (of x).andThen next := by
  cases x with
  | ok a => exact rest a rfl
  | error e =>
      cases e with
      | runtime what => rfl
      | json what => rfl

theorem of_map {α β : Type} (x : Except Exception α) (f : α → β) :
    (of do
      let a ← x
      .ok (f a)) = of x := by
  cases x with
  | ok a => rfl
  | error e => cases e <;> rfl

theorem of_mapM {α β : Type} (f : α → Except Exception β) (xs : List α) :
    of (xs.mapM f) = (xs.map fun x => of (f x)).foldr andThen .fits := by
  induction xs with
  | nil => rfl
  | cons x xs ih =>
      rw [List.mapM_cons, List.map_cons, List.foldr_cons, ← ih]
      exact of_bind fun y _ => of_map (xs.mapM f) _

theorem of_eq_mistyped {α : Type} {x : Except Exception α} :
    of x = .mistyped ↔ ∃ what, x = .error (.json what) := by
  cases x with
  | ok a => simp [of]
  | error e => cases e <;> simp [of]

/-- An exception of the JSON library is thrown by the one step or by the other. -/
theorem of_bind_mistyped {α β : Type} {x : Except Exception α} {f : α → Except Exception β} :
    of (x >>= f) = .mistyped ↔ of x = .mistyped ∨ ∃ a, x = .ok a ∧ of (f a) = .mistyped := by
  cases x with
  | ok a => simp [bind, Except.bind, of]
  | error e => cases e <;> simp [bind, Except.bind, of]

end Fit

/-- A number of any kind; a boolean only if the type is none of the library's own. -/
def Dict.numberFit (own : Bool) : Dict → Fit
  | .unsigned _ => .fits
  | .integer _ => .fits
  | .float _ => .fits
  | .boolean _ => if own then .mistyped else .fits
  | _ => .mistyped

mutual

/-- Read off the value alone; `base` is what the decoder fills. -/
def FieldType.fit : {α : Type} → FieldType α → (base : α) → Dict → Fit
  | _, .struct fields, base, d => fields.fit base d
  | _, .array item, _, d => (d.items.map fun v => item.fit item.empty v).foldr Fit.andThen .fits
  | _, .string, _, d => if d.typeName = "string" then .fits else .mistyped
  | _, .blob, _, d => if d.typeName = "binary" then .fits else .mistyped
  | _, .integer type, _, d => d.numberFit type.isNumber
  | _, .boolean, _, d => if d.typeName = "boolean" then .fits else .mistyped
  | _, .number type, _, d => d.numberFit type.isDouble
  | _, .null, _, d => if d.typeName = "null" then .fits else .mistyped

def Fields.fit : {σ : Type} → Fields σ → (base : σ) → Dict → Fit
  | _, .nil, _, _ => .fits
  | _, .cons name _ _ type rest, (field, base), d =>
      match d.find name with
      | none => if field.required then .missing else rest.fit base d
      | some v => (type.fit (field.materialize type.empty) v).andThen (rest.fit base d)

end

mutual

/-- It is what the decoder does. -/
theorem FieldType.of_read : {α : Type} → (type : FieldType α) → (base : α) → (d : Dict) →
    Fit.of (type.read base d) = type.fit base d
  | _, .struct fields, base, d => fields.of_read base d
  | _, .array item, _, d => by
      have each : ∀ v, Fit.of (item.read item.empty v) = item.fit item.empty v := fun v =>
        item.of_read item.empty v
      simp only [FieldType.read, FieldType.fit, Fit.of_mapM, each]
  | _, .string, _, d => by cases d <;> rfl
  | _, .blob, _, d => by cases d <;> rfl
  | _, .integer type, _, d => by
      cases d with
      | boolean b =>
          simp only [FieldType.read, FieldType.fit, Dict.getInt, Dict.numberFit]
          split <;> rfl
      | _ => rfl
  | _, .boolean, _, d => by cases d <;> rfl
  | _, .number type, _, d => by
      cases d with
      | boolean b =>
          simp only [FieldType.read, FieldType.fit, Dict.getFloat, Dict.numberFit]
          split <;> rfl
      | _ => rfl
  | _, .null, _, d => by cases d <;> rfl

theorem Fields.of_read : {σ : Type} → (fields : Fields σ) → (base : σ) → (d : Dict) →
    Fit.of (fields.read base d) = fields.fit base d
  | _, .nil, _, _ => rfl
  | _, .cons name _ _ type rest, (field, base), d => by
      simp only [Fields.read, Fields.fit]
      cases d.find name with
      | none =>
          simp only
          split
          · rfl
          · rw [Fit.of_map, rest.of_read base d]
      | some v =>
          simp only
          rw [← type.of_read (field.materialize type.empty) v, ← rest.of_read base d]
          exact Fit.of_bind fun value _ => Fit.of_map _ _

end

end AlpacaCore.Schema
