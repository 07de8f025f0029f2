import Mathlib.Data.Nat.Digits.Lemmas

/-!
`write_integer` and `write_padded`: how numbers are put in a log.

The digits are written from the back of an array with a byte for each bit of the integer, and the
sign in front of them. An integer is its bits, and whether its type is signed. To write in front of
the array is undefined, and so `none`.
-/

namespace AlpacaCore.Jalog.QWrite

inductive PadType where
  | left
  | right
  | inner
deriving DecidableEq

structure Pad where
  size : BitVec 16
  type : PadType
  character : UInt8

/-- `pad{}` -/
def Pad.none : Pad := ⟨0, .left, 32⟩

def minus : UInt8 := 45

/-- What is in the stream after `write_padded`. -/
def writePadded (out numstr : List UInt8) (padding : Pad) : List UInt8 :=
  let size := padding.size - BitVec.ofNat 16 numstr.length
  let fill := List.replicate size.toNat padding.character
  if size.toInt ≤ 0 then out ++ numstr
  else if padding.type = .right then out ++ numstr ++ fill
  else
    let sign := if padding.type = .inner ∧ numstr.head? = some minus then [minus] else []
    out ++ sign ++ fill ++ numstr.drop sign.length

/-- `char_from_digit` -/
def charFromDigit : List UInt8 :=
  [48, 49, 50, 51, 52, 53, 54, 55, 56, 57, 97, 98, 99, 100, 101, 102, 103, 104,
    105, 106, 107, 108, 109, 110, 111, 112, 113, 114, 115, 116, 117, 118, 119, 120, 121, 122]

def digit (base d : Nat) : UInt8 :=
  if base ≤ 10 then (48 + d).toUInt8 else charFromDigit.getD d 0

/-- The loop of `write_integer`, where so many bytes of the array are in front of `p`. -/
def writeDigits (base : Nat) : Nat → Nat → List UInt8 → Option (Nat × List UInt8)
  | 0, _, _ => none
  | room + 1, uvalue, text =>
      let text := digit base (uvalue % base) :: text
      if uvalue / base = 0 then some (room, text) else writeDigits base room (uvalue / base) text

/-- `value.i < 0`, which only a signed integer can be. -/
def negative {w : Nat} (signed : Bool) (i : BitVec w) : Bool := signed && i.msb

def uvalue {w : Nat} (signed : Bool) (i : BitVec w) : BitVec w :=
  if negative signed i then 0#w - i else i

/-- What is in the stream after `write_integer`, of an integer of so many bytes. -/
def writeInteger (signed : Bool) (base : Nat) {bytes : Nat} (i : BitVec (bytes * 8)) (padding : Pad)
    (out : List UInt8) : Option (List UInt8) :=
  match writeDigits base (bytes * 8) (uvalue signed i).toNat [] with
  | none => none
  | some (room, text) =>
      if negative signed i then
        match room with
        | 0 => none
        | _ + 1 => some (writePadded out (minus :: text) padding)
      else some (writePadded out text padding)

/-- The number that it is. -/
def number {w : Nat} (signed : Bool) (i : BitVec w) : Int := if signed then i.toInt else i.toNat

/-! ### Digits -/

/-- The digits of a number, the last one first; zero has one. -/
def digitsOf (base n : Nat) : List Nat := if n = 0 then [0] else base.digits n

/-- The text of a number, without a leading zero. -/
def textOf (base : Nat) (v : Int) : List UInt8 :=
  (if v < 0 then [minus] else []) ++ ((digitsOf base v.natAbs).reverse.map fun d => charFromDigit.getD d 0)

variable {base : Nat}

theorem digitsOf_cons (range : 2 ≤ base) (n : Nat) :
    digitsOf base n = n % base :: if n / base = 0 then [] else digitsOf base (n / base) := by
  unfold digitsOf
  rcases Nat.eq_zero_or_pos n with rfl | pos
  · simp
  · rw [if_neg (by omega), Nat.digits_def' range pos]
    split
    · rename_i small
      rw [small, Nat.digits_zero]
    · rfl

theorem digit_eq {d : Nat} (range : base ≤ 36) (below : d < base) : digit base d = charFromDigit.getD d 0 := by
  unfold digit
  split
  · have decimal : ∀ d : Fin 10, (48 + d.val).toUInt8 = charFromDigit.getD d.val 0 := by decide
    exact decimal ⟨d, by omega⟩
  · rfl

theorem length_digitsOf_pos (range : 2 ≤ base) (n : Nat) : 0 < (digitsOf base n).length := by
  rw [digitsOf_cons range]
  simp

/-- The loop stays in the array exactly if there is room for all digits. -/
theorem writeDigits_eq (range : 2 ≤ base) (upper : base ≤ 36) (room n : Nat) (text : List UInt8) :
    writeDigits base room n text =
      if (digitsOf base n).length ≤ room then
        some (room - (digitsOf base n).length,
          ((digitsOf base n).reverse.map fun d => charFromDigit.getD d 0) ++ text)
      else none := by
  induction room generalizing n text with
  | zero =>
      have some := length_digitsOf_pos range n
      rw [if_neg (by omega), writeDigits]
  | succ room ih =>
      have below : n % base < base := Nat.mod_lt _ (by omega)
      rw [writeDigits, digit_eq upper below, digitsOf_cons range]
      split
      · simp
      · rw [ih]
        simp only [List.length_cons, Nat.add_le_add_iff_right, Nat.add_sub_add_right, List.reverse_cons,
          List.map_append, List.map_cons, List.map_nil, List.append_assoc, List.singleton_append]

theorem length_digitsOf_le_iff (range : 2 ≤ base) {n k : Nat} (pos : 0 < k) :
    (digitsOf base n).length ≤ k ↔ n < base ^ k := by
  unfold digitsOf
  split
  · rename_i zero
    rw [zero]
    simp only [List.length_singleton]
    have positive : 0 < base ^ k := Nat.pow_pos (by omega)
    omega
  · exact Nat.digits_length_le_iff range n

/-! ### Bits -/

section Bits

variable {w : Nat} {signed : Bool} {i : BitVec w}

theorem negative_iff : negative signed i = true ↔ number signed i < 0 := by
  unfold negative number
  cases signed with
  | false => simp
  | true => simp [BitVec.msb_eq_toInt]

theorem toNat_uvalue : (uvalue signed i).toNat = (number signed i).natAbs := by
  unfold uvalue
  split
  · rename_i isNegative
    have below := negative_iff.mp isNegative
    have isSigned : signed = true := by
      cases signed with
      | false => cases isNegative
      | true => rfl
    simp only [number, isSigned, if_true] at below ⊢
    have size := i.isLt
    rw [BitVec.toInt_eq_toNat_cond] at below ⊢
    rw [BitVec.zero_sub, BitVec.toNat_neg]
    split at below
    · omega
    · rename_i high
      rw [if_neg high, Nat.mod_eq_of_lt (by omega)]
      omega
  · rename_i notNegative
    have above : 0 ≤ number signed i := by
      by_contra below
      exact notNegative (negative_iff.mpr (by omega))
    unfold number at above ⊢
    split
    · rename_i isSigned
      rw [if_pos isSigned, BitVec.toInt_eq_toNat_cond] at above
      rw [BitVec.toInt_eq_toNat_cond]
      have size := i.isLt
      split at above <;> omega
    · rfl

theorem natAbs_number_lt : (number signed i).natAbs < 2 ^ w := by
  rw [← toNat_uvalue]
  exact (uvalue signed i).isLt

theorem natAbs_le_of_negative (below : number signed i < 0) : (number signed i).natAbs ≤ 2 ^ (w - 1) := by
  unfold number at below ⊢
  split at below
  · rename_i isSigned
    rw [if_pos isSigned]
    have least := @BitVec.le_toInt w i
    have cast : ((2 ^ (w - 1) : Nat) : Int) = 2 ^ (w - 1) := Nat.cast_pow 2 (w - 1)
    omega
  · omega

theorem natAbs_eq_iff (width : 0 < w) (below : number signed i < 0) :
    (number signed i).natAbs = 2 ^ (w - 1) ↔ i = BitVec.intMin w := by
  have isSigned : signed = true := by
    cases signed with
    | false => exact absurd below (by simp [number])
    | true => rfl
  simp only [number, isSigned, if_true] at below ⊢
  rw [← BitVec.toInt_inj, BitVec.toInt_intMin_of_pos width]
  have cast : ((2 ^ (w - 1) : Nat) : Int) = 2 ^ (w - 1) := Nat.cast_pow 2 (w - 1)
  omega

end Bits

/-! ### Texts -/

theorem length_textOf (base : Nat) (v : Int) :
    (textOf base v).length = (if v < 0 then 1 else 0) + (digitsOf base v.natAbs).length := by
  unfold textOf
  split
  · simp [Nat.add_comm]
  · simp

section Text

variable {signed : Bool} {bytes : Nat} {i : BitVec (bytes * 8)}

theorem writeInteger_eq (range : 2 ≤ base) (upper : base ≤ 36) (padding : Pad) (out : List UInt8) :
    writeInteger signed base i padding out =
      if (textOf base (number signed i)).length ≤ bytes * 8 then
        some (writePadded out (textOf base (number signed i)) padding)
      else none := by
  unfold writeInteger
  rw [writeDigits_eq range upper, toNat_uvalue, List.append_nil, length_textOf]
  by_cases below : number signed i < 0
  · rw [if_pos below]
    by_cases room : (digitsOf base (number signed i).natAbs).length ≤ bytes * 8
    · rw [if_pos room]
      simp only [negative_iff.mpr below, if_true]
      split
      · rename_i full
        rw [if_neg (by omega)]
      · rename_i left
        rw [if_pos (by omega), textOf, if_pos below]
        rfl
    · rw [if_neg room, if_neg (by omega)]
  · have notNegative : negative signed i = false := by
      rw [← Bool.not_eq_true, negative_iff]
      exact below
    rw [if_neg below, notNegative, Nat.zero_add]
    by_cases room : (digitsOf base (number signed i).natAbs).length ≤ bytes * 8
    · rw [if_pos room, if_pos room, textOf, if_neg below]
      rfl
    · rw [if_neg room, if_neg room]

/-- There is a byte for each bit, and none for the sign. -/
theorem length_textOf_le_iff (range : 2 ≤ base) (width : 0 < bytes) :
    (textOf base (number signed i)).length ≤ bytes * 8 ↔
      ¬ (signed = true ∧ base = 2 ∧ i = BitVec.intMin (bytes * 8)) := by
  rw [length_textOf]
  by_cases below : number signed i < 0
  · have isSigned : signed = true := by
      cases signed with
      | false => exact absurd below (by simp [number])
      | true => rfl
    have small := natAbs_le_of_negative below
    have least := natAbs_eq_iff (by omega) below
    have digits : 1 + (digitsOf base (number signed i).natAbs).length ≤ bytes * 8 ↔
        (number signed i).natAbs < base ^ (bytes * 8 - 1) := by
      rw [← length_digitsOf_le_iff range (by omega)]
      omega
    rw [if_pos below, digits, isSigned]
    rw [isSigned] at small least
    rcases Nat.eq_or_lt_of_le range with rfl | larger
    · have binary : (number true i).natAbs < 2 ^ (bytes * 8 - 1) ↔ i ≠ BitVec.intMin (bytes * 8) := by
        rw [ne_eq, ← least]
        omega
      rw [binary]
      simp
    · have room : 2 ^ (bytes * 8 - 1) < base ^ (bytes * 8 - 1) :=
        Nat.pow_lt_pow_left larger (by omega)
      have notBinary : base ≠ 2 := by omega
      simp only [notBinary, false_and, and_false, not_false_iff, iff_true]
      omega
  · have room : (number signed i).natAbs < base ^ (bytes * 8) :=
      Nat.lt_of_lt_of_le natAbs_number_lt (Nat.pow_le_pow_left range _)
    rw [if_neg below, Nat.zero_add, length_digitsOf_le_iff range (by omega)]
    constructor
    · rintro - ⟨rfl, -, rfl⟩
      apply below
      rw [number, if_pos rfl, BitVec.toInt_intMin_of_pos (by omega)]
      have positive : (0 : Int) < 2 ^ (bytes * 8 - 1) := by positivity
      omega
    · exact fun _ => room

end Text

/-! ### Reading -/

/-- What the character means as a digit. -/
def digitOf (base : Nat) (c : UInt8) : Option Nat :=
  if charFromDigit.idxOf c < base then some (charFromDigit.idxOf c) else none

def readNat (base : Nat) (text : List UInt8) : Option Nat :=
  if text = [] then none else (text.mapM (digitOf base)).map fun digits => Nat.ofDigits base digits.reverse

/-- Which number a text means. -/
def readInteger (base : Nat) (text : List UInt8) : Option Int :=
  if text.head? = some minus then (readNat base text.tail).map fun n : Nat => -(n : Int)
  else (readNat base text).map fun n : Nat => (n : Int)

theorem digitOf_charFromDigit {d : Nat} (upper : base ≤ 36) (below : d < base) :
    digitOf base (charFromDigit.getD d 0) = some d := by
  have found : ∀ d : Fin 36, charFromDigit.idxOf (charFromDigit.getD d.val 0) = d.val := by decide
  unfold digitOf
  rw [found ⟨d, by omega⟩, if_pos below]

theorem lt_of_mem_digitsOf (range : 2 ≤ base) {n d : Nat} (member : d ∈ digitsOf base n) : d < base := by
  unfold digitsOf at member
  split at member
  · rw [List.mem_singleton.mp member]
    omega
  · exact Nat.digits_lt_base range member

theorem ofDigits_digitsOf (base n : Nat) : Nat.ofDigits base (digitsOf base n) = n := by
  unfold digitsOf
  split
  · rename_i zero
    rw [zero]
    simp
  · exact Nat.ofDigits_digits base n

theorem mapM_digitOf (upper : base ≤ 36) {digits : List Nat} (below : ∀ d ∈ digits, d < base) :
    (digits.map fun d => charFromDigit.getD d 0).mapM (digitOf base) = some digits := by
  induction digits with
  | nil => rfl
  | cons d digits ih =>
      rw [List.map_cons, List.mapM_cons, digitOf_charFromDigit upper (below d List.mem_cons_self),
        ih fun d member => below d (List.mem_cons_of_mem _ member)]
      rfl

theorem readNat_digits (range : 2 ≤ base) (upper : base ≤ 36) (n : Nat) :
    readNat base ((digitsOf base n).reverse.map fun d => charFromDigit.getD d 0) = some n := by
  have some := length_digitsOf_pos range n
  have text : (digitsOf base n).reverse.map (fun d => charFromDigit.getD d 0) ≠ [] := by
    intro empty
    rw [List.map_eq_nil_iff, List.reverse_eq_nil_iff] at empty
    rw [empty] at some
    exact absurd some (Nat.lt_irrefl 0)
  rw [readNat, if_neg text, mapM_digitOf upper, Option.map_some, List.reverse_reverse, ofDigits_digitsOf]
  intro d member
  exact lt_of_mem_digitsOf range (List.mem_reverse.mp member)

/-- A digit is no sign. -/
theorem head_ne_minus (range : 2 ≤ base) (upper : base ≤ 36) (n : Nat) :
    ((digitsOf base n).reverse.map fun d => charFromDigit.getD d 0).head? ≠ some minus := by
  have unlike : ∀ d : Fin 36, charFromDigit.getD d.val 0 ≠ minus := by decide
  intro same
  obtain ⟨d, member, isMinus⟩ := List.mem_map.mp (List.mem_of_mem_head? same)
  have below := lt_of_mem_digitsOf range (List.mem_reverse.mp member)
  exact unlike ⟨d, by omega⟩ isMinus

theorem readInteger_textOf (range : 2 ≤ base) (upper : base ≤ 36) (v : Int) :
    readInteger base (textOf base v) = some v := by
  unfold readInteger textOf
  by_cases below : v < 0
  · rw [if_pos below, List.singleton_append, List.head?_cons, if_pos rfl, List.tail_cons,
      readNat_digits range upper, Option.map_some]
    congr 1
    omega
  · rw [if_neg below, List.nil_append, if_neg (head_ne_minus range upper _), readNat_digits range upper,
      Option.map_some]
    congr 1
    omega

/-! ### Padding -/

/-- What is in front of the padding. -/
def Pad.front (padding : Pad) (numstr : List UInt8) : List UInt8 :=
  match padding.type with
  | .left => []
  | .right => numstr
  | .inner => if numstr.head? = some minus then [minus] else []

theorem Pad.front_append_drop (padding : Pad) (numstr : List UInt8) :
    padding.front numstr ++ numstr.drop (padding.front numstr).length = numstr := by
  unfold Pad.front
  cases padding.type with
  | left => rfl
  | right => simp
  | inner =>
      cases numstr with
      | nil => simp
      | cons c numstr =>
          by_cases sign : c = minus <;> simp [sign]

/-- The text in the padding: as long as the size says, if it is not longer itself. -/
def Pad.pad (padding : Pad) (numstr : List UInt8) : List UInt8 :=
  padding.front numstr ++ List.replicate (padding.size.toInt.toNat - numstr.length) padding.character ++
    numstr.drop (padding.front numstr).length

theorem writePadded_eq (out numstr : List UInt8) (padding : Pad) :
    writePadded out numstr padding = out ++ padding.front numstr ++
      List.replicate (padding.size - BitVec.ofNat 16 numstr.length).toInt.toNat padding.character ++
        numstr.drop (padding.front numstr).length := by
  have whole := padding.front_append_drop numstr
  unfold writePadded
  by_cases enough : (padding.size - BitVec.ofNat 16 numstr.length).toInt ≤ 0
  · rw [if_pos enough, Int.toNat_of_nonpos enough, List.replicate_zero, List.append_nil,
      List.append_assoc, whole]
  · have count : (padding.size - BitVec.ofNat 16 numstr.length).toInt.toNat =
        (padding.size - BitVec.ofNat 16 numstr.length).toNat := by
      rw [BitVec.toInt_eq_toNat_cond] at enough ⊢
      split at enough <;> omega
    simp only [if_neg enough, count]
    unfold Pad.front
    cases padding.type with
    | left => simp
    | right => simp
    | inner => simp

/-- The difference is a number of 16 bits again. -/
theorem toInt_size_sub (size : BitVec 16) {length : Nat} (short : length < 2 ^ 15) :
    (size - BitVec.ofNat 16 length).toInt =
      if length ≤ size.toInt + 2 ^ 15 then size.toInt - length else size.toInt - length + 2 ^ 16 := by
  have bound := size.isLt
  have least := @BitVec.le_toInt 16 size
  rw [BitVec.toInt_eq_toNat_cond, BitVec.toInt_eq_toNat_cond, BitVec.toNat_sub, BitVec.toNat_ofNat]
  split <;> split <;> split <;> omega

/-- The text is padded as it should be as long as the difference does not wrap around. -/
theorem writePadded_eq_iff {padding : Pad} {numstr : List UInt8} (short : numstr.length < 2 ^ 15)
    (out : List UInt8) :
    writePadded out numstr padding = out ++ padding.pad numstr ↔
      numstr.length ≤ padding.size.toInt + 2 ^ 15 := by
  have least : -2 ^ 15 ≤ padding.size.toInt := BitVec.le_toInt padding.size
  rw [writePadded_eq, toInt_size_sub _ short]
  constructor
  · intro same
    have lengths := congrArg List.length same
    simp only [Pad.pad, List.length_append, List.length_replicate, List.length_drop] at lengths
    by_contra wraps
    rw [if_neg wraps] at lengths
    omega
  · intro fits
    have count : (padding.size.toInt - numstr.length).toNat =
        padding.size.toInt.toNat - numstr.length := by omega
    rw [if_pos fits, count, Pad.pad]
    simp only [List.append_assoc]

/-- **An integer is written so that it can be read again**, padded where the type of the padding says
and no further than its size. There are two exceptions: the least of a signed type in base 2, where
the sign goes in front of the array; and sizes that are negative and so small that they wrap around
when the length is taken from them. -/
theorem writeInteger_reads {bytes : Nat} (width : 0 < bytes) (small : bytes < 2 ^ 12) (range : 2 ≤ base)
    (upper : base ≤ 36) (signed : Bool) (i : BitVec (bytes * 8)) (padding : Pad) (out : List UInt8) :
    readInteger base (textOf base (number signed i)) = some (number signed i) ∧
    (writeInteger signed base i padding out =
        some (out ++ padding.pad (textOf base (number signed i))) ↔
      ¬ (signed = true ∧ base = 2 ∧ i = BitVec.intMin (bytes * 8)) ∧
        (textOf base (number signed i)).length ≤ padding.size.toInt + 2 ^ 15) := by
  rw [← length_textOf_le_iff range width, writeInteger_eq range upper]
  refine ⟨readInteger_textOf range upper _, ?_⟩
  by_cases inside : (textOf base (number signed i)).length ≤ bytes * 8
  · rw [if_pos inside, Option.some.injEq, writePadded_eq_iff (by omega)]
    exact (and_iff_right inside).symm
  · rw [if_neg inside]
    constructor
    · intro written
      cases written
    · intro both
      exact absurd both.1 inside

theorem writeInteger_reads_inner :
    readInteger 10 (textOf 10 (-87)) = some (-87) ∧
    (@writeInteger true 10 2 (-87) ⟨5, .inner, 108⟩ [] =
        some ([] ++ Pad.pad ⟨5, .inner, 108⟩ (textOf 10 (-87))) ↔
      ¬ (true = true ∧ 10 = 2 ∧ (-87 : BitVec 16) = BitVec.intMin 16) ∧
        (textOf 10 (-87)).length ≤ (5 : BitVec 16).toInt + 2 ^ 15) :=
  @writeInteger_reads 10 2 (by decide) (by decide) (by decide) (by decide) true (-87) ⟨5, .inner, 108⟩ []

/-- `-ll87` -/
example : @writeInteger true 10 2 (-87) ⟨5, .inner, 108⟩ [] = some [45, 108, 108, 56, 55] := by decide

end AlpacaCore.Jalog.QWrite
