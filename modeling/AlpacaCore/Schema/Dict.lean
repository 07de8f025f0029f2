import Mathlib.Algebra.Ring.Int.Defs
import Mathlib.Data.List.Basic

/-!
`ac::Dict`, the bundled JSON value, as far as the schema visitors use it, and the
numeric types a field can have.

A string of the source is a sequence of bytes; here it is a `String`, whose order
agrees with the order of the bytes. A binary value carries its bytes and not its
subtype, which nothing reads.
-/

namespace AlpacaCore.Schema

/-! ### Numbers -/

/-- The integer part, which infinities and what is not a number do not have. -/
def truncate (x : Float) : Option Int :=
  if x.toModel.unpack.isFinite then some (x.toModel.unpack.toInt 0 0) else none

/-- The integers that a type of this signedness and width has. -/
def InRange (signed : Bool) (width : Nat) (n : Int) : Prop :=
  if signed then -2 ^ (width - 1) ≤ n ∧ n < 2 ^ (width - 1) else 0 ≤ n ∧ n < 2 ^ width

/-- An integral type: its signedness, its width in bits and the cast from `double`. The
cast takes the integer part where the type has it; elsewhere it is undefined, and any
value can come out. -/
structure IntType where
  signed : Bool
  width : Nat
  /-- the type is `number_integer_t` or `number_unsigned_t` itself -/
  isNumber : Bool
  ofDouble : Float → BitVec width
  width_le : width ≤ 64
  ofDouble_truncate : ∀ x n, truncate x = some n → InRange signed width n → ofDouble x = .ofInt width n

/-- `int`; its cast gives the least value where it is undefined, as on x86-64. -/
def IntType.int : IntType where
  signed := true
  width := 32
  isNumber := false
  ofDouble x :=
    match truncate x with
    | some n => if -2 ^ 31 ≤ n ∧ n < 2 ^ 31 then .ofInt 32 n else .intMin 32
    | none => .intMin 32
  width_le := by decide
  ofDouble_truncate x n whole inside := by
    simp only [whole]
    exact if_pos inside

/-- A floating-point type with the casts from and to `double`. Widening to `double`
loses nothing. -/
structure FloatType where
  Value : Type
  toDouble : Value → Float
  ofDouble : Float → Value
  ofInt : Int → Value
  /-- the type is `number_float_t` itself -/
  isDouble : Bool
  ofDouble_toDouble : ∀ x, ofDouble (toDouble x) = x

namespace FloatType

open Float.Model (Format UnpackedFloat)

def double : FloatType where
  Value := Float
  toDouble := id
  ofDouble := id
  ofInt n := .ofModel (.ofInt n)
  isDouble := true
  ofDouble_toDouble _ := rfl

/-- Rounds to the nearest value of the format, ties to even. -/
def nearest (format : Format) : UnpackedFloat → UnpackedFloat
  | .finite sign mantissa exponent _ => .round format sign mantissa exponent
  | other => other

/-- `static_cast<float>` of a `double`. -/
def narrow (x : Float) : Float32 := .ofModel (.pack (nearest .binary32 x.toModel.unpack))

/-- `static_cast<double>` of a `float`. -/
def widen (x : Float32) : Float := .ofModel (.pack (nearest .binary64 x.toModel.unpack))

/-- The values of a `float`: they survive widening, as every `float` does. -/
abbrev Single : Type := { x : Float32 // narrow (widen x) = x }

def single (x : Float32) : Single :=
  if exact : narrow (widen x) = x then ⟨x, exact⟩ else ⟨.ofModel (.ofNat 0), by decide⟩

def float : FloatType where
  Value := Single
  toDouble x := widen x.val
  ofDouble x := single (narrow x)
  ofInt n := single (.ofModel (.ofInt n))
  isDouble := false
  ofDouble_toDouble x := by simp [single, x.property]

end FloatType

/-! ### Values -/

/-- `ac::Blob`. -/
abbrev Blob : Type := List UInt8

/-- `ac::Dict`. The members of an object are in the order of its keys. -/
inductive Dict where
  | null
  | boolean (value : Bool)
  | integer (value : BitVec 64)
  | unsigned (value : BitVec 64)
  | float (value : Float)
  | string (value : String)
  | binary (value : Blob)
  | array (items : List Dict)
  | object (members : List (String × Dict))

/-- What leaves a function by `throw`: a `std::runtime_error`, or an exception of the
JSON library, which derives from `std::exception` only. -/
inductive Exception where
  | runtime (what : String)
  | json (what : String)
deriving DecidableEq, Repr

/-- `type_error::create`. -/
def Exception.typeError (id : Nat) (what : String) : Exception :=
  .json ("[json.exception.type_error." ++ toString id ++ "] " ++ what)

namespace Dict

def typeName : Dict → String
  | .null => "null"
  | .object _ => "object"
  | .array _ => "array"
  | .string _ => "string"
  | .boolean _ => "boolean"
  | .binary _ => "binary"
  | .integer _ => "number"
  | .unsigned _ => "number"
  | .float _ => "number"

/-- `find`: no value but an object has members. -/
def find : Dict → String → Option Dict
  | .object members, key => members.lookup key
  | _, _ => none

/-- `begin` to `end`. -/
def items : Dict → List Dict
  | .object members => members.map (·.2)
  | .array items => items
  | .null => []
  | scalar => [scalar]

/-- Inserts or replaces the member with this key. -/
def putMember (key : String) (value : Dict) : List (String × Dict) → List (String × Dict)
  | [] => [(key, value)]
  | member :: members =>
      if key = member.1 then (key, value) :: members
      else if key < member.1 then (key, value) :: member :: members
      else member :: putMember key value members

/-- `operator[]` with a key: the value there, `null` when there was none. -/
def slot (d : Dict) (key : String) : Except Exception Dict :=
  match d with
  | .null => .ok .null
  | .object members => .ok ((members.lookup key).getD .null)
  | other => .error (.typeError 305
      ("cannot use operator[] with a string argument with " ++ other.typeName))

/-- The value with what was assigned through `operator[]`. -/
def put (d : Dict) (key : String) (value : Dict) : Dict :=
  match d with
  | .object members => .object (putMember key value members)
  | _ => .object [(key, value)]

/-- `get<T>` for an integral type. Only the types of the library's own numbers do not take
a boolean: another type of 64 bits does. -/
def getInt (type : IntType) : Dict → Except Exception (BitVec type.width)
  | .unsigned n => .ok (n.setWidth type.width)
  | .integer n => .ok (n.setWidth type.width)
  | .float x => .ok (type.ofDouble x)
  | .boolean b =>
      if type.isNumber then
        .error (.typeError 302 "type must be number, but is boolean")
      else .ok (.ofNat type.width b.toNat)
  | other => .error (.typeError 302 ("type must be number, but is " ++ other.typeName))

/-- `get<T>` for a floating-point type. -/
def getFloat (type : FloatType) : Dict → Except Exception type.Value
  | .unsigned n => .ok (type.ofInt n.toNat)
  | .integer n => .ok (type.ofInt n.toInt)
  | .float x => .ok (type.ofDouble x)
  | .boolean b =>
      if type.isDouble then
        .error (.typeError 302 "type must be number, but is boolean")
      else .ok (type.ofInt b.toNat)
  | other => .error (.typeError 302 ("type must be number, but is " ++ other.typeName))

/-- `get<bool>`. -/
def getBool : Dict → Except Exception Bool
  | .boolean b => .ok b
  | other => .error (.typeError 302 ("type must be boolean, but is " ++ other.typeName))

/-- `get<std::nullptr_t>`. -/
def getNull : Dict → Except Exception Unit
  | .null => .ok ()
  | other => .error (.typeError 302 ("type must be null, but is " ++ other.typeName))

/-- `get_ref<std::string&>`. -/
def getString : Dict → Except Exception String
  | .string s => .ok s
  | other => .error (.typeError 303
      ("incompatible ReferenceType for get_ref, actual type is " ++ other.typeName))

/-- `get_binary`. -/
def getBinary : Dict → Except Exception Blob
  | .binary bytes => .ok bytes
  | other => .error (.typeError 302 ("type must be binary, but is " ++ other.typeName))

/-! ### Members -/

@[simp] theorem find_null (key : String) : find .null key = none := rfl

@[simp] theorem find_object (members : List (String × Dict)) (key : String) :
    (object members).find key = members.lookup key := rfl

theorem lookup_putMember (key : String) (value : Dict) (members : List (String × Dict))
    (other : String) : (putMember key value members).lookup other =
      if other = key then some value else members.lookup other := by
  induction members with
  | nil =>
      by_cases same : other = key
      · simp [putMember, same]
      · simp [putMember, List.lookup_cons, same, beq_eq_false_iff_ne.mpr same]
  | cons member members ih =>
      obtain ⟨first, contents⟩ := member
      unfold putMember
      split
      · rename_i same
        subst same
        by_cases here : other = key
        · simp [here]
        · simp [List.lookup_cons, here, beq_eq_false_iff_ne.mpr here]
      · rename_i differs
        split
        · by_cases here : other = key
          · simp [here]
          · simp [List.lookup_cons, here, beq_eq_false_iff_ne.mpr here]
        · by_cases here : other = first
          · have apart : other ≠ key := fun same => differs (same ▸ here)
            simp [here, here ▸ apart]
          · simp only [List.lookup_cons, beq_eq_false_iff_ne.mpr here, ih]

theorem find_put (d : Dict) (key : String) (value : Dict) (other : String)
    (empty : d = .null ∨ ∃ members, d = .object members) :
    (d.put key value).find other = if other = key then some value else d.find other := by
  rcases empty with rfl | ⟨members, rfl⟩
  · by_cases same : other = key
    · simp [put, same]
    · simp [put, List.lookup_cons, same, beq_eq_false_iff_ne.mpr same]
  · exact lookup_putMember key value members other

theorem find_put_self {d : Dict} {key : String} {value : Dict}
    (empty : d = .null ∨ ∃ members, d = .object members) : (d.put key value).find key = some value := by
  rw [find_put _ _ _ _ empty, if_pos rfl]

theorem find_put_ne {d : Dict} {key other : String} {value : Dict}
    (empty : d = .null ∨ ∃ members, d = .object members) (differs : other ≠ key) :
    (d.put key value).find other = d.find other := by
  rw [find_put _ _ _ _ empty, if_neg differs]

/-- Names that have nothing have nothing after another name is given something. -/
theorem find_put_fresh {d : Dict} {key : String} {value : Dict} {names : List String}
    (empty : d = .null ∨ ∃ members, d = .object members) (apart : key ∉ names)
    (fresh : ∀ other ∈ names, d.find other = none) :
    ∀ other ∈ names, (d.put key value).find other = none := by
  intro other member
  have differs : other ≠ key := by
    rintro rfl
    exact apart member
  exact (find_put_ne empty differs).trans (fresh other member)

end Dict

end AlpacaCore.Schema
