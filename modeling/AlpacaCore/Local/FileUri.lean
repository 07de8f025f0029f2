import Mathlib.Data.List.TakeWhile

/-!
`file:` URIs and paths, as bytes.

The splitting of a URI is left to `furi`, which is a parameter here: `path` stands for
`uri_split::get_path_from_uri`. So does `signed`, for whether `char` is signed, since the
value of an escape is read with `std::from_chars` into a plain `char`.
-/

namespace AlpacaCore.Local.FileUri

/-- What `throw_ex` is given: the text and the URI. -/
structure Error where
  text : String
  uri : List UInt8
deriving DecidableEq, Repr

/-! ### `std::from_chars` to the base 16 -/

def hexValue (b : UInt8) : Option Nat :=
  if '0'.toUInt8 ≤ b ∧ b ≤ '9'.toUInt8 then some (b - '0'.toUInt8).toNat
  else if 'a'.toUInt8 ≤ b ∧ b ≤ 'f'.toUInt8 then some ((b - 'a'.toUInt8).toNat + 10)
  else if 'A'.toUInt8 ≤ b ∧ b ≤ 'F'.toUInt8 then some ((b - 'A'.toUInt8).toNat + 10)
  else none

def IsHex (b : UInt8) : Prop := (hexValue b).isSome

instance (b : UInt8) : Decidable (IsHex b) := inferInstanceAs (Decidable (_ = true))

inductive Errc where
  | invalidArgument
  | resultOutOfRange
deriving DecidableEq, Repr

/-- The digits at the front, and their value. -/
def readDigits : List UInt8 → List Nat
  | [] => []
  | b :: rest =>
      match hexValue b with
      | some digit => digit :: readDigits rest
      | none => []

/-- The number as a `char`, if it is one. -/
def toChar (signed : Bool) (value : Int) : Except Errc UInt8 :=
  let least : Int := if signed then -128 else 0
  let greatest : Int := if signed then 127 else 255
  if least ≤ value ∧ value ≤ greatest then .ok (UInt8.ofNat (value % 256).toNat)
  else .error .resultOutOfRange

/-- `from_chars` into a `char`: what follows the number is not looked at, and a minus sign
is taken when the type is signed. -/
def fromChars (signed : Bool) (text : List UInt8) : Except Errc UInt8 :=
  let negative := signed && text.head? == some '-'.toUInt8
  let digits := readDigits (if negative then text.tail else text)
  let magnitude : Nat := digits.foldl (fun value digit => 16 * value + digit) 0
  if digits = [] then .error .invalidArgument
  else toChar signed (if negative then -magnitude else magnitude)

/-! ### The functions -/

/-- The loop of `FileUri_toPath` over what is left of the path. -/
def decode (signed : Bool) (uri : List UInt8) : List UInt8 → Except Error (List UInt8)
  | [] => .ok []
  | b :: first :: second :: rest =>
      if b = '%'.toUInt8 then
        match fromChars signed [first, second] with
        | .ok c => (decode signed uri rest).map (c :: ·)
        | .error _ => .error ⟨"invalid percent encoding in URI: ", uri⟩
      else (decode signed uri (first :: second :: rest)).map (b :: ·)
  | b :: rest => (decode signed uri rest).map (b :: ·)

/-- The path without the slash in front of what is taken for a drive. -/
def withoutSlash (path : List UInt8) : List UInt8 :=
  if path.length ≥ 3 ∧ path[2]? = some ':'.toUInt8 then path.tail else path

def toPath (signed : Bool) (path : List UInt8 → List UInt8) (uri : List UInt8) :
    Except Error (List UInt8) :=
  if (path uri).head? ≠ some '/'.toUInt8 then .error ⟨"file URI must be absolute: ", uri⟩
  else decode signed uri (withoutSlash (path uri))

/-- What a byte of a path becomes. -/
def escape (c : UInt8) : List UInt8 :=
  if c = '%'.toUInt8 then ['%'.toUInt8, '2'.toUInt8, '5'.toUInt8]
  else if c = ' '.toUInt8 then ['%'.toUInt8, '2'.toUInt8, '0'.toUInt8]
  else [c]

/-- `file://` -/
def scheme : List UInt8 := ['f', 'i', 'l', 'e', ':', '/', '/'].map Char.toUInt8

def fromPath (path : List UInt8) : List UInt8 :=
  let slash := if path ≠ [] ∧ path.head? ≠ some '/'.toUInt8 then ['/'.toUInt8] else []
  scheme ++ slash ++ path.flatMap escape

/-! ### What an escape is read as -/

/-- What `from_chars` makes of the two bytes behind a percent sign, when it refuses them:
the first is not a digit, nor a minus sign before one; or a signed `char` is too small. -/
def Refused (signed : Bool) (pair : UInt8 × UInt8) : Prop :=
  match hexValue pair.1 with
  | some high => signed ∧ 8 ≤ high ∧ IsHex pair.2
  | none => ¬ (signed ∧ pair.1 = '-'.toUInt8 ∧ IsHex pair.2)

/-- The byte that two digits stand for. -/
def byteOf (first second : UInt8) : UInt8 :=
  UInt8.ofNat (16 * (hexValue first).getD 0 + (hexValue second).getD 0)

theorem toNat_sub_le {b low high : UInt8} (above : low ≤ b) (below : b ≤ high) :
    (b - low).toNat ≤ high.toNat - low.toNat := by
  rw [UInt8.toNat_sub_of_le _ _ above]
  exact Nat.sub_le_sub_right (UInt8.le_iff_toNat_le.mp below) _

theorem hexValue_lt {b : UInt8} {digit : Nat} (value : hexValue b = some digit) : digit < 16 := by
  have decimal : '9'.toUInt8.toNat - '0'.toUInt8.toNat = 9 := by decide
  have lower : 'f'.toUInt8.toNat - 'a'.toUInt8.toNat = 5 := by decide
  have upper : 'F'.toUInt8.toNat - 'A'.toUInt8.toNat = 5 := by decide
  unfold hexValue at value
  split at value
  · rename_i range
    have bound := toNat_sub_le range.1 range.2
    obtain rfl := Option.some.inj value
    omega
  · split at value
    · rename_i range
      have bound := toNat_sub_le range.1 range.2
      obtain rfl := Option.some.inj value
      omega
    · split at value
      · rename_i range
        have bound := toNat_sub_le range.1 range.2
        obtain rfl := Option.some.inj value
        omega
      · cases value

theorem not_isHex_of_none {b : UInt8} (none : hexValue b = none) : ¬ IsHex b := by
  simp [IsHex, none]

theorem isHex_of_some {b : UInt8} {digit : Nat} (value : hexValue b = some digit) : IsHex b := by
  simp [IsHex, value]

theorem toChar_nat (signed : Bool) {n : Nat} (small : n < 256) :
    toChar signed n = if signed ∧ 128 ≤ n then .error .resultOutOfRange else .ok (UInt8.ofNat n) := by
  have same : ((n : Int) % 256).toNat = n := by omega
  unfold toChar
  rw [same]
  cases signed with
  | false =>
      have range : (0 : Int) ≤ n ∧ (n : Int) ≤ 255 := by omega
      simp [range]
  | true =>
      by_cases above : 128 ≤ n
      · have range : ¬ (n : Int) ≤ 127 := by omega
        simp [range, above]
      · have range : (-128 : Int) ≤ n ∧ (n : Int) ≤ 127 := by omega
        simp [range, above]

/-- A digit in front: the number is that digit, or both. -/
theorem fromChars_digit (signed : Bool) {first second : UInt8} {high : Nat}
    (isHigh : hexValue first = some high) :
    fromChars signed [first, second] =
      toChar signed (((hexValue second).elim high (16 * high + ·) : Nat)) := by
  have positive : (some first == some '-'.toUInt8) = false := by
    have minus : hexValue '-'.toUInt8 = none := by decide
    rw [beq_eq_false_iff_ne]
    intro same
    rw [Option.some.inj same, minus] at isHigh
    cases isHigh
  unfold fromChars
  simp only [List.head?_cons, positive, Bool.and_false, Bool.false_eq_true, if_false, readDigits,
    isHigh]
  cases hexValue second <;> simp

/-- Another byte in front: only a minus sign before a digit is taken. -/
theorem fromChars_other (signed : Bool) {first second : UInt8} (isOther : hexValue first = none) :
    fromChars signed [first, second] =
      match hexValue second with
      | some low =>
          if signed ∧ first = '-'.toUInt8 then toChar signed (-low) else .error .invalidArgument
      | none => .error .invalidArgument := by
  unfold fromChars
  by_cases negative : signed ∧ first = '-'.toUInt8
  · obtain ⟨rfl, rfl⟩ := negative
    cases isLow : hexValue second <;> simp [readDigits, isLow]
  · have positive : (signed && some first == some '-'.toUInt8) = false := by
      simpa using negative
    simp only [List.head?_cons, positive, Bool.false_eq_true, if_false, readDigits, isOther]
    cases hexValue second <;> simp [negative]

theorem fromChars_ok_iff (signed : Bool) (first second : UInt8) :
    (∃ c, fromChars signed [first, second] = .ok c) ↔ ¬ Refused signed (first, second) := by
  cases isHigh : hexValue first with
  | some high =>
      have highSmall := hexValue_lt isHigh
      rw [fromChars_digit signed isHigh]
      cases isLow : hexValue second with
      | some low =>
          have lowSmall := hexValue_lt isLow
          have small : 16 * high + low < 256 := by omega
          simp only [Option.elim_some, toChar_nat signed small, Refused, isHigh,
            isHex_of_some isLow, and_true]
          have bound : 128 ≤ 16 * high + low ↔ 8 ≤ high := by omega
          by_cases tooSmall : signed = true ∧ 8 ≤ high
          · simp [bound, tooSmall]
          · simp [bound, tooSmall]
      | none =>
          have small : high < 256 := by omega
          simp only [Option.elim_none, toChar_nat signed small, Refused, isHigh,
            not_isHex_of_none isLow, and_false, not_false_iff, iff_true]
          have bound : ¬ 128 ≤ high := by omega
          simp [bound]
  | none =>
      rw [fromChars_other signed isHigh]
      simp only [Refused, isHigh, not_not]
      cases isLow : hexValue second with
      | some low =>
          have lowSmall := hexValue_lt isLow
          simp only [isHex_of_some isLow, and_true]
          split
          · rename_i negative
            have range : (-128 : Int) ≤ -low ∧ -(low : Int) ≤ 127 := by omega
            simp [toChar, negative.1, negative.2, range]
          · rename_i other
            simp [other]
      | none => simp [not_isHex_of_none isLow]

theorem fromChars_digits {signed : Bool} {first second : UInt8} (isHigh : IsHex first)
    (isLow : IsHex second) (taken : ¬ Refused signed (first, second)) :
    fromChars signed [first, second] = .ok (byteOf first second) := by
  obtain ⟨high, isHigh⟩ := Option.isSome_iff_exists.mp isHigh
  obtain ⟨low, isLow⟩ := Option.isSome_iff_exists.mp isLow
  have highSmall := hexValue_lt isHigh
  have lowSmall := hexValue_lt isLow
  have small : 16 * high + low < 256 := by omega
  have fits : ¬ (signed = true ∧ 128 ≤ 16 * high + low) := by
    rintro ⟨isSigned, above⟩
    simp only [Refused, isHigh, isHex_of_some isLow, isSigned, true_and, and_true] at taken
    omega
  rw [fromChars_digit signed isHigh, isLow, Option.elim_some, toChar_nat signed small, if_neg fits,
    byteOf, isHigh, isLow]
  rfl

/-! ### What the loop makes of a path -/

/-- The two bytes behind each percent sign that the loop comes to, where there are two. -/
def escapes : List UInt8 → List (UInt8 × UInt8)
  | [] => []
  | b :: first :: second :: rest =>
      if b = '%'.toUInt8 then (first, second) :: escapes rest
      else escapes (first :: second :: rest)
  | _ :: rest => escapes rest

/-- Each percent sign with two digits behind it is replaced by the byte they stand for. -/
def replaced : List UInt8 → List UInt8
  | [] => []
  | b :: first :: second :: rest =>
      if b = '%'.toUInt8 ∧ IsHex first ∧ IsHex second then byteOf first second :: replaced rest
      else b :: replaced (first :: second :: rest)
  | b :: rest => b :: replaced rest

/-- Every percent sign is followed by two digits. -/
def WellEncoded (path : List UInt8) : Prop :=
  ∀ before after, path = before ++ '%'.toUInt8 :: after →
    ∃ first second rest, after = first :: second :: rest ∧ IsHex first ∧ IsHex second

theorem wellEncoded_cons {b : UInt8} {rest : List UInt8} (other : b ≠ '%'.toUInt8) :
    WellEncoded (b :: rest) ↔ WellEncoded rest := by
  constructor
  · intro encoded before after split
    exact encoded (b :: before) after (by rw [split, List.cons_append])
  · intro encoded before after split
    cases before with
    | nil => exact absurd (List.cons.inj split).1 other
    | cons _ before => exact encoded before after (List.cons.inj split).2

theorem wellEncoded_percent {rest : List UInt8} : WellEncoded ('%'.toUInt8 :: rest) ↔
    (∃ first second after, rest = first :: second :: after ∧ IsHex first ∧ IsHex second) ∧
      WellEncoded rest := by
  constructor
  · intro encoded
    exact ⟨encoded [] rest rfl, fun before after split =>
      encoded ('%'.toUInt8 :: before) after (by rw [split, List.cons_append])⟩
  · rintro ⟨digits, encoded⟩ before after split
    cases before with
    | nil => exact (List.cons.inj split).2 ▸ digits
    | cons _ before => exact encoded before after (List.cons.inj split).2

theorem IsHex.ne_percent {b : UInt8} (hex : IsHex b) : b ≠ '%'.toUInt8 := by
  rintro rfl
  exact absurd hex (by decide)

theorem wellEncoded_escape {first second : UInt8} {rest : List UInt8} :
    WellEncoded ('%'.toUInt8 :: first :: second :: rest) ↔
      IsHex first ∧ IsHex second ∧ WellEncoded rest := by
  rw [wellEncoded_percent]
  constructor
  · rintro ⟨⟨_, _, _, split, isFirst, isSecond⟩, encoded⟩
    cases split
    rw [wellEncoded_cons isFirst.ne_percent, wellEncoded_cons isSecond.ne_percent] at encoded
    exact ⟨isFirst, isSecond, encoded⟩
  · rintro ⟨isFirst, isSecond, encoded⟩
    constructor
    · exact ⟨first, second, rest, rfl, isFirst, isSecond⟩
    · rwa [wellEncoded_cons isFirst.ne_percent, wellEncoded_cons isSecond.ne_percent]

theorem decode_cons {b : UInt8} (signed : Bool) (uri : List UInt8) {rest : List UInt8}
    (plain : b ≠ '%'.toUInt8 ∨ ∀ first second after, rest ≠ first :: second :: after) :
    decode signed uri (b :: rest) = (decode signed uri rest).map (b :: ·) := by
  match rest with
  | [] => rfl
  | [_] => rfl
  | first :: second :: after =>
      have other : b ≠ '%'.toUInt8 := plain.resolve_right fun short => short first second after rfl
      rw [decode, if_neg other]

theorem map_ok_iff {f : List UInt8 → List UInt8} (result : Except Error (List UInt8)) :
    (∃ r, result.map f = .ok r) ↔ ∃ r, result = .ok r := by
  cases result <;> simp [Except.map]

/-- The loop succeeds unless an escape it comes to is refused. -/
theorem decode_ok_iff (signed : Bool) (uri path : List UInt8) :
    (∃ r, decode signed uri path = .ok r) ↔ ∀ pair ∈ escapes path, ¬ Refused signed pair := by
  fun_induction escapes path with
  | case1 => simp [decode]
  | case2 first second rest ih =>
      rw [List.forall_mem_cons, ← fromChars_ok_iff, ← ih, decode, if_pos rfl]
      cases fromChars signed [first, second] with
      | ok c => simp [map_ok_iff]
      | error _ => simp
  | case3 b first second rest other ih =>
      rw [decode_cons signed uri (.inl other), map_ok_iff, ih]
  | case4 b rest short ih =>
      rw [decode_cons signed uri (.inr fun _ _ _ => short _ _ _), map_ok_iff, ih]

/-- In a well encoded path the loop comes to digits only. -/
theorem WellEncoded.escapes {path : List UInt8} (encoded : WellEncoded path) :
    ∀ pair ∈ escapes path, IsHex pair.1 ∧ IsHex pair.2 := by
  fun_induction FileUri.escapes path with
  | case1 => simp
  | case2 first second rest ih =>
      obtain ⟨isFirst, isSecond, encoded⟩ := wellEncoded_escape.mp encoded
      rw [List.forall_mem_cons]
      exact ⟨⟨isFirst, isSecond⟩, ih encoded⟩
  | case3 b first second rest other ih => exact ih ((wellEncoded_cons other).mp encoded)
  | case4 b rest short ih =>
      apply ih
      by_cases percent : b = '%'.toUInt8
      · subst percent
        exact (wellEncoded_percent.mp encoded).2
      · exact (wellEncoded_cons percent).mp encoded

theorem replaced_cons {b : UInt8} (other : b ≠ '%'.toUInt8) (rest : List UInt8) :
    replaced (b :: rest) = b :: replaced rest := by
  match rest with
  | [] => rfl
  | [_] => rfl
  | _ :: _ :: _ => rw [replaced, if_neg fun percent => other percent.1]

/-- And replaces the escapes, if none is refused. -/
theorem decode_replaced {signed : Bool} {path : List UInt8} (uri : List UInt8)
    (encoded : WellEncoded path) (taken : ∀ pair ∈ escapes path, ¬ Refused signed pair) :
    decode signed uri path = .ok (replaced path) := by
  fun_induction FileUri.escapes path with
  | case1 => rfl
  | case2 first second rest ih =>
      obtain ⟨isFirst, isSecond, encoded⟩ := wellEncoded_escape.mp encoded
      obtain ⟨here, later⟩ := List.forall_mem_cons.mp taken
      rw [decode, if_pos rfl, fromChars_digits isFirst isSecond here, ih encoded later, replaced,
        if_pos ⟨rfl, isFirst, isSecond⟩]
      rfl
  | case3 b first second rest other ih =>
      rw [decode_cons signed uri (.inl other), ih ((wellEncoded_cons other).mp encoded) taken,
        replaced_cons other]
      rfl
  | case4 b rest short ih =>
      have other : b ≠ '%'.toUInt8 := by
        rintro rfl
        obtain ⟨⟨first, second, after, split, -⟩, -⟩ := wellEncoded_percent.mp encoded
        exact short first second after split
      rw [decode_cons signed uri (.inl other), ih ((wellEncoded_cons other).mp encoded) taken,
        replaced_cons other]
      rfl

/-! ### The path of a URI -/

/-- What ends the path of a URI. -/
def Delimits (b : UInt8) : Prop := b = '?'.toUInt8 ∨ b = '#'.toUInt8

instance (b : UInt8) : Decidable (Delimits b) := inferInstanceAs (Decidable (_ ∨ _))

/-- What is relied on of `get_path_from_uri`: of a `file:` URI with an empty authority it
gives what follows the authority, up to the first delimiter. -/
def SplitsFileUri (path : List UInt8 → List UInt8) : Prop :=
  ∀ text, (∀ b ∈ text.head?, b = '/'.toUInt8 ∨ Delimits b) →
    path (scheme ++ text) = text.takeWhile fun b => ¬ Delimits b

/-- `get_path_from_uri` where the authority is empty. -/
def filePath (uri : List UInt8) : List UInt8 :=
  (uri.drop scheme.length).takeWhile fun b => ¬ Delimits b

theorem filePath_splits : SplitsFileUri filePath := by
  intro text _
  simp [filePath]

/-! ### Decoding a URI -/

theorem withoutSlash_cases {path : List UInt8} (absolute : path.head? = some '/'.toUInt8) :
    withoutSlash path = path ∨ path = '/'.toUInt8 :: withoutSlash path := by
  unfold withoutSlash
  split
  · cases path with
    | nil => cases absolute
    | cons b rest => exact .inr (by rw [Option.some.inj absolute]; rfl)
  · exact .inl rfl

theorem wellEncoded_withoutSlash {path : List UInt8} (absolute : path.head? = some '/'.toUInt8) :
    WellEncoded (withoutSlash path) ↔ WellEncoded path := by
  rcases withoutSlash_cases absolute with same | slash
  · rw [same]
  · rw [slash, wellEncoded_cons (by decide), ← slash]

/-- Percent-decoding as it should be. -/
structure DecodesExactly (signed : Bool) (path : List UInt8 → List UInt8) (uri : List UInt8) :
    Prop where
  succeeds : (∃ r, toPath signed path uri = .ok r) ↔ WellEncoded (path uri)
  result : ∀ r, toPath signed path uri = .ok r → r = replaced (withoutSlash (path uri))

/-- Two digits are refused when they stand for a byte that a signed `char` has not. -/
theorem refused_digits {signed : Bool} {pair : UInt8 × UInt8} (isHigh : IsHex pair.1)
    (isLow : IsHex pair.2) : Refused signed pair ↔ signed ∧ 0x80 ≤ byteOf pair.1 pair.2 := by
  obtain ⟨high, isHigh⟩ := Option.isSome_iff_exists.mp isHigh
  obtain ⟨low, isSome⟩ := Option.isSome_iff_exists.mp isLow
  have highSmall := hexValue_lt isHigh
  have lowSmall := hexValue_lt isSome
  have value : (byteOf pair.1 pair.2).toNat = 16 * high + low := by
    rw [byteOf, isHigh, isSome]
    simp only [Option.getD_some, UInt8.toNat_ofNat']
    omega
  have bound : (0x80 : UInt8) ≤ byteOf pair.1 pair.2 ↔ 8 ≤ high := by
    rw [UInt8.le_iff_toNat_le, value]
    change 128 ≤ 16 * high + low ↔ 8 ≤ high
    omega
  rw [bound]
  simp [Refused, isHigh, isLow]

/-- **When a URI is decoded as it should be.** Either every percent sign is followed by two
digits, and where `char` is signed they stand for no byte above `0x7F`; or not every one
is, and the loop comes to one that `from_chars` refuses. -/
theorem decodesExactly_iff (signed : Bool) (path : List UInt8 → List UInt8) (uri : List UInt8)
    (absolute : (path uri).head? = some '/'.toUInt8) :
    DecodesExactly signed path uri ↔
      (WellEncoded (path uri) ∧
        ∀ pair ∈ escapes (withoutSlash (path uri)), signed → byteOf pair.1 pair.2 < 0x80) ∨
      (¬ WellEncoded (path uri) ∧
        ∃ pair ∈ escapes (withoutSlash (path uri)), Refused signed pair) := by
  have decoded : toPath signed path uri = decode signed uri (withoutSlash (path uri)) := by
    simp [toPath, absolute]
  by_cases encoded : WellEncoded (path uri)
  · have inside := (wellEncoded_withoutSlash absolute).mpr encoded
    have digits : (∀ pair ∈ escapes (withoutSlash (path uri)), ¬ Refused signed pair) ↔
        ∀ pair ∈ escapes (withoutSlash (path uri)), signed → byteOf pair.1 pair.2 < 0x80 := by
      apply forall₂_congr
      intro pair member
      obtain ⟨isHigh, isLow⟩ := inside.escapes pair member
      rw [refused_digits isHigh isLow, not_and, UInt8.not_le]
    simp only [encoded, true_and, not_true, false_and, or_false, ← digits]
    constructor
    · intro exactly
      rw [← decode_ok_iff signed uri, ← decoded]
      exact exactly.succeeds.mpr encoded
    · intro taken
      have result := decode_replaced uri inside taken
      rw [← decoded] at result
      constructor
      · simp [encoded, result]
      · intro r succeeded
        rw [result] at succeeded
        exact (Except.ok.inj succeeded).symm
  · simp only [encoded, false_and, not_false_iff, true_and, false_or]
    have succeeds := decode_ok_iff signed uri (withoutSlash (path uri))
    rw [← decoded] at succeeds
    constructor
    · intro exactly
      by_contra none
      refine encoded (exactly.succeeds.mp (succeeds.mpr fun pair member refused => ?_))
      exact none ⟨pair, member, refused⟩
    · rintro ⟨pair, member, refused⟩
      have fails : ¬ ∃ r, toPath signed path uri = .ok r := fun succeeded =>
        succeeds.mp succeeded pair member refused
      exact ⟨by simp [encoded, fails], fun r succeeded => absurd ⟨r, succeeded⟩ fails⟩

/-- A space, encoded as the functions do it. -/
theorem decodesExactly_iff_space :
    DecodesExactly true filePath (scheme ++ ['/', 'a', '%', '2', '0'].map Char.toUInt8) := by
  have only : escapes (withoutSlash (filePath (scheme ++ ['/', 'a', '%', '2', '0'].map Char.toUInt8))) =
      [('2'.toUInt8, '0'.toUInt8)] := rfl
  refine (decodesExactly_iff true filePath _ (by decide)).mpr (.inl ⟨?_, ?_⟩)
  · have digits : WellEncoded ('%'.toUInt8 :: '2'.toUInt8 :: '0'.toUInt8 :: []) :=
      wellEncoded_escape.mpr ⟨by decide, by decide, by simp [WellEncoded]⟩
    exact (wellEncoded_cons (by decide)).mpr ((wellEncoded_cons (by decide)).mpr digits)
  · intro pair member _
    rw [only, List.mem_singleton] at member
    subst member
    decide

/-- Two digits above `7F` are refused, and one digit is taken for two. -/
theorem not_decodesExactly :
    ¬ DecodesExactly true filePath (scheme ++ ['/', '%', 'C', '3'].map Char.toUInt8) ∧
      ∀ signed, ¬ DecodesExactly signed filePath
        (scheme ++ ['/', '%', '4', 'g'].map Char.toUInt8) := by
  constructor
  · intro exactly
    have encoded : WellEncoded ('/'.toUInt8 :: '%'.toUInt8 :: 'C'.toUInt8 :: '3'.toUInt8 :: []) :=
      (wellEncoded_cons (by decide)).mpr
        (wellEncoded_escape.mpr ⟨by decide, by decide, by simp [WellEncoded]⟩)
    obtain ⟨r, succeeded⟩ := exactly.succeeds.mpr encoded
    cases succeeded
  · intro signed exactly
    have succeeded : toPath signed filePath (scheme ++ ['/', '%', '4', 'g'].map Char.toUInt8) =
        .ok ['/'.toUInt8, 4] := by
      cases signed <;> decide
    have encoded : WellEncoded ('/'.toUInt8 :: '%'.toUInt8 :: '4'.toUInt8 :: 'g'.toUInt8 :: []) :=
      exactly.succeeds.mp ⟨_, succeeded⟩
    have digits := wellEncoded_escape.mp ((wellEncoded_cons (by decide)).mp encoded)
    exact absurd digits.2.1 (by decide)

/-! ### There and back -/

def IsLetter (b : UInt8) : Prop :=
  ('a'.toUInt8 ≤ b ∧ b ≤ 'z'.toUInt8) ∨ ('A'.toUInt8 ≤ b ∧ b ≤ 'Z'.toUInt8)

instance (b : UInt8) : Decidable (IsLetter b) := inferInstanceAs (Decidable (_ ∨ _))

/-- An absolute path: from the root, or from that of a drive. -/
inductive Absolute : List UInt8 → Prop where
  | root (rest : List UInt8) : Absolute ('/'.toUInt8 :: rest)
  | drive {letter : UInt8} (isLetter : IsLetter letter) (rest : List UInt8) :
      Absolute (letter :: ':'.toUInt8 :: '/'.toUInt8 :: rest)

theorem decode_escape (signed : Bool) (uri : List UInt8) (c : UInt8) (rest : List UInt8) :
    decode signed uri (escape c ++ rest) = (decode signed uri rest).map (c :: ·) := by
  unfold escape
  split
  · rename_i percent
    have read : fromChars signed ['2'.toUInt8, '5'.toUInt8] = .ok '%'.toUInt8 := by
      cases signed <;> decide
    simp only [List.cons_append, List.nil_append]
    rw [decode, if_pos rfl, read, percent]
  · rename_i other
    split
    · rename_i space
      have read : fromChars signed ['2'.toUInt8, '0'.toUInt8] = .ok ' '.toUInt8 := by
        cases signed <;> decide
      simp only [List.cons_append, List.nil_append]
      rw [decode, if_pos rfl, read, space]
    · exact decode_cons signed uri (.inl other)

/-- The loop undoes the escapes. -/
theorem decode_flatMap_escape (signed : Bool) (uri path : List UInt8) :
    decode signed uri (path.flatMap escape) = .ok path := by
  induction path with
  | nil => rfl
  | cons c rest ih =>
      rw [List.flatMap_cons, decode_escape, ih]
      rfl

/-- Escaping neither makes nor hides a delimiter. -/
theorem takeWhile_flatMap_escape (path : List UInt8) :
    (path.flatMap escape).takeWhile (fun b => ¬ Delimits b) =
      (path.takeWhile fun b => ¬ Delimits b).flatMap escape := by
  induction path with
  | nil => rfl
  | cons c rest ih =>
      rw [List.flatMap_cons]
      by_cases delimits : Delimits c
      · have single : escape c = [c] := by
          rcases delimits with rfl | rfl <;> decide
        simp [single, delimits]
      · have whole : (escape c).takeWhile (fun b => ¬ Delimits b) = escape c := by
          unfold escape
          split
          · decide
          · split
            · decide
            · simp [delimits]
        have all : ∀ b ∈ escape c, ¬ Delimits b := by
          simpa using List.takeWhile_eq_self_iff.mp whole
        rw [List.takeWhile_append_of_pos (by simpa using all), ih]
        simp [delimits]

/-- A path from the root whose first component is one byte before a colon looks like one
from a drive. -/
def LooksLikeDrive (path : List UInt8) : Prop :=
  ∃ b rest, path = '/'.toUInt8 :: b :: ':'.toUInt8 :: rest ∧ b ≠ '%'.toUInt8 ∧ b ≠ ' '.toUInt8

theorem IsLetter.ne {letter b : UInt8} (isLetter : IsLetter letter) (below : b < 'A'.toUInt8) :
    letter ≠ b := by
  rintro rfl
  have above : 'A'.toUInt8 ≤ letter := by
    rcases isLetter with ⟨low, -⟩ | ⟨low, -⟩
    · exact UInt8.le_trans (by decide) low
    · exact low
  exact UInt8.not_le.mpr below above

theorem IsLetter.not_delimits {letter : UInt8} (isLetter : IsLetter letter) :
    ¬ Delimits letter := by
  rintro (mark | hash)
  · exact isLetter.ne (by decide) mark
  · exact isLetter.ne (by decide) hash

theorem escape_other {c : UInt8} (percent : c ≠ '%'.toUInt8) (space : c ≠ ' '.toUInt8) :
    escape c = [c] := by
  rw [escape, if_neg percent, if_neg space]

@[simp] theorem escape_slash : escape '/'.toUInt8 = ['/'.toUInt8] := rfl

@[simp] theorem escape_colon : escape ':'.toUInt8 = [':'.toUInt8] := rfl

theorem IsLetter.escape {letter : UInt8} (isLetter : IsLetter letter) : escape letter = [letter] :=
  escape_other (isLetter.ne (by decide)) (isLetter.ne (by decide))

theorem not_delimits_slash : ¬ Delimits '/'.toUInt8 := by decide

theorem not_delimits_colon : ¬ Delimits ':'.toUInt8 := by decide

/-- What delimits ends no path before its slash. -/
theorem takeWhile_slash (rest : List UInt8) : ('/'.toUInt8 :: rest).takeWhile (fun b => ¬ Delimits b) =
    '/'.toUInt8 :: rest.takeWhile fun b => ¬ Delimits b :=
  List.takeWhile_cons_of_pos (by simpa using not_delimits_slash)

/-- Only a colon is escaped to something that starts with one. -/
theorem head?_escape_iff (d : UInt8) (rest : List UInt8) :
    (escape d ++ rest)[0]? = some ':'.toUInt8 ↔ d = ':'.toUInt8 := by
  have notPercent : '%'.toUInt8 ≠ ':'.toUInt8 := by decide
  unfold escape
  split
  · rename_i percent
    simp [percent]
  · split
    · rename_i space
      have notSpace : ' '.toUInt8 ≠ ':'.toUInt8 := by decide
      simpa [space, notSpace] using notPercent
    · simp

/-- The third byte of what a path from the root becomes. -/
theorem third_flatMap_escape (rest : List UInt8) :
    ('/'.toUInt8 :: rest.flatMap escape)[2]? = some ':'.toUInt8 ↔
      LooksLikeDrive ('/'.toUInt8 :: rest) := by
  cases rest with
  | nil => simp [LooksLikeDrive]
  | cons c rest =>
      by_cases plain : c ≠ '%'.toUInt8 ∧ c ≠ ' '.toUInt8
      · obtain ⟨percent, space⟩ := plain
        rw [List.flatMap_cons, escape_other percent space]
        cases rest with
        | nil => simp [LooksLikeDrive]
        | cons d rest =>
            have third := head?_escape_iff d (rest.flatMap escape)
            simp only [List.flatMap_cons, List.cons_append, List.nil_append,
              List.getElem?_cons_succ]
            rw [third]
            constructor
            · rintro rfl
              exact ⟨c, rest, rfl, percent, space⟩
            · rintro ⟨_, _, same, -⟩
              exact (List.cons.inj (List.cons.inj (List.cons.inj same).2).2).1
      · -- what stands for the second byte goes on with a digit
        have digit : ('/'.toUInt8 :: (c :: rest).flatMap escape)[2]? = some '2'.toUInt8 := by
          rw [List.flatMap_cons]
          by_cases percent : c = '%'.toUInt8
          · simp [escape, percent]
          · have space : c = ' '.toUInt8 := not_not.mp fun space => plain ⟨percent, space⟩
            rw [escape, if_neg percent, if_pos space]
            rfl
        rw [digit]
        constructor
        · intro same
          exact absurd (Option.some.inj same) (by decide)
        · rintro ⟨b, after, same, other⟩
          exact absurd ((List.cons.inj (List.cons.inj same).2).1 ▸ other) plain

/-- From the root: what comes back is the path up to the first delimiter, without its slash
if it looks like one from a drive. -/
theorem toPath_fromPath_root {path : List UInt8 → List UInt8} (splits : SplitsFileUri path)
    (signed : Bool) (rest : List UInt8) :
    let kept := rest.takeWhile fun b => ¬ Delimits b
    (LooksLikeDrive ('/'.toUInt8 :: kept) →
      toPath signed path (fromPath ('/'.toUInt8 :: rest)) = .ok kept) ∧
    (¬ LooksLikeDrive ('/'.toUInt8 :: kept) →
      toPath signed path (fromPath ('/'.toUInt8 :: rest)) = .ok ('/'.toUInt8 :: kept)) := by
  intro kept
  have uri : fromPath ('/'.toUInt8 :: rest) = scheme ++ ('/'.toUInt8 :: rest.flatMap escape) := by
    simp [fromPath]
  have component : path (fromPath ('/'.toUInt8 :: rest)) = '/'.toUInt8 :: kept.flatMap escape := by
    rw [uri, splits _ (by simp), takeWhile_slash, takeWhile_flatMap_escape]
  have third := third_flatMap_escape kept
  have decoded : toPath signed path (fromPath ('/'.toUInt8 :: rest)) =
      decode signed (fromPath ('/'.toUInt8 :: rest))
        (withoutSlash ('/'.toUInt8 :: kept.flatMap escape)) := by
    simp [toPath, component]
  rw [decoded]
  constructor
  · intro looks
    have long : ('/'.toUInt8 :: kept.flatMap escape).length ≥ 3 := by
      obtain ⟨inside, -⟩ := List.getElem?_eq_some_iff.mp (third.mpr looks)
      exact inside
    rw [withoutSlash, if_pos ⟨long, third.mpr looks⟩]
    exact decode_flatMap_escape signed _ kept
  · intro other
    rw [withoutSlash, if_neg fun cond => other (third.mp cond.2)]
    have whole := decode_flatMap_escape signed (fromPath ('/'.toUInt8 :: rest))
      ('/'.toUInt8 :: kept)
    rwa [List.flatMap_cons, escape_slash] at whole

theorem toPath_fromPath_drive {path : List UInt8 → List UInt8} (splits : SplitsFileUri path)
    (signed : Bool) {letter : UInt8} (isLetter : IsLetter letter) (rest : List UInt8) :
    toPath signed path (fromPath (letter :: ':'.toUInt8 :: '/'.toUInt8 :: rest)) =
      .ok (letter :: ':'.toUInt8 :: '/'.toUInt8 :: rest.takeWhile fun b => ¬ Delimits b) := by
  have noSlash : letter ≠ '/'.toUInt8 := isLetter.ne (by decide)
  have uri : fromPath (letter :: ':'.toUInt8 :: '/'.toUInt8 :: rest) = scheme ++
      ('/'.toUInt8 :: (letter :: ':'.toUInt8 :: '/'.toUInt8 :: rest).flatMap escape) := by
    simp [fromPath, noSlash]
  have kept : ((letter :: ':'.toUInt8 :: '/'.toUInt8 :: rest).takeWhile fun b => ¬ Delimits b) =
      letter :: ':'.toUInt8 :: '/'.toUInt8 :: rest.takeWhile fun b => ¬ Delimits b := by
    rw [List.takeWhile_cons_of_pos (by simpa using isLetter.not_delimits),
      List.takeWhile_cons_of_pos (by simpa using not_delimits_colon), takeWhile_slash]
  have component : path (fromPath (letter :: ':'.toUInt8 :: '/'.toUInt8 :: rest)) = '/'.toUInt8 ::
      (letter :: ':'.toUInt8 :: '/'.toUInt8 :: rest.takeWhile fun b => ¬ Delimits b).flatMap escape := by
    rw [uri, splits _ (by simp), takeWhile_slash, takeWhile_flatMap_escape, kept]
  have stripped : withoutSlash ('/'.toUInt8 ::
      (letter :: ':'.toUInt8 :: '/'.toUInt8 :: rest.takeWhile fun b => ¬ Delimits b).flatMap escape) =
      (letter :: ':'.toUInt8 :: '/'.toUInt8 :: rest.takeWhile fun b => ¬ Delimits b).flatMap escape := by
    simp [withoutSlash, isLetter.escape]
  have decoded := decode_flatMap_escape signed
    (fromPath (letter :: ':'.toUInt8 :: '/'.toUInt8 :: rest))
    (letter :: ':'.toUInt8 :: '/'.toUInt8 :: rest.takeWhile fun b => ¬ Delimits b)
  rw [toPath, component, if_neg (by simp), stripped, decoded]

/-- **When a path comes back from its URI.** No byte of it delimits the path of a URI, and
it does not look like one from a drive. -/
theorem toPath_fromPath_iff {path : List UInt8 → List UInt8} (splits : SplitsFileUri path)
    (signed : Bool) {p : List UInt8} (absolute : Absolute p) :
    toPath signed path (fromPath p) = .ok p ↔ (∀ b ∈ p, ¬ Delimits b) ∧ ¬ LooksLikeDrive p := by
  cases absolute with
  | root rest =>
      obtain ⟨drive, root⟩ := toPath_fromPath_root splits signed rest
      have shorter : (rest.takeWhile fun b => ¬ Delimits b).length ≤ rest.length :=
        (List.takeWhile_prefix _).length_le
      have clean : (rest.takeWhile fun b => ¬ Delimits b) = rest ↔
          ∀ b ∈ '/'.toUInt8 :: rest, ¬ Delimits b := by
        rw [List.takeWhile_eq_self_iff, List.forall_mem_cons]
        simp [not_delimits_slash]
      rw [← clean]
      by_cases looks : LooksLikeDrive ('/'.toUInt8 :: rest.takeWhile fun b => ¬ Delimits b)
      · rw [drive looks]
        constructor
        · intro same
          have length := congrArg List.length (Except.ok.inj same)
          rw [List.length_cons] at length
          omega
        · rintro ⟨whole, other⟩
          rw [whole] at looks
          exact absurd looks other
      · rw [root looks]
        constructor
        · intro same
          have whole := (List.cons.inj (Except.ok.inj same)).2
          exact ⟨whole, whole ▸ looks⟩
        · rintro ⟨whole, -⟩
          rw [whole]
  | drive isLetter rest =>
      have other : ∀ letter, IsLetter letter →
          ¬ LooksLikeDrive (letter :: ':'.toUInt8 :: '/'.toUInt8 :: rest) := by
        rintro letter isLetter ⟨b, after, same, -⟩
        exact isLetter.ne (by decide) (List.cons.inj same).1
      rw [toPath_fromPath_drive splits signed isLetter, Except.ok.injEq]
      simp only [List.cons.injEq, true_and, List.takeWhile_eq_self_iff, other _ isLetter,
        not_false_iff, and_true, List.forall_mem_cons, isLetter.not_delimits,
        not_delimits_colon, not_delimits_slash]
      simp

theorem toPath_fromPath_iff_space :
    toPath true filePath (fromPath (['/', 'a', ' ', 'b'].map Char.toUInt8)) =
      .ok (['/', 'a', ' ', 'b'].map Char.toUInt8) := by
  refine (toPath_fromPath_iff filePath_splits true (.root _)).mpr ⟨by decide +kernel, ?_⟩
  rintro ⟨b, rest, same, -⟩
  have colon := (List.cons.inj (List.cons.inj (List.cons.inj same).2).2).1
  exact absurd colon (by decide)

/-- A file whose name has a hash in it. -/
theorem not_toPath_fromPath :
    ¬ (∀ path, SplitsFileUri path → ∀ p, Absolute p → toPath true path (fromPath p) = .ok p) := by
  intro always
  have hash := always filePath filePath_splits _ (.root (['a', '#', '1'].map Char.toUInt8))
  exact absurd hash (by decide)

end AlpacaCore.Local.FileUri
