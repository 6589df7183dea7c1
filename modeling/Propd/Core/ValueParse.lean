import Propd.Core.ValueText

/-!
# Which numbers and bytes are parsed

A text with the tag of an integer type is meant to be refused unless its payload is a numeral as a
whole, with a value of the type; one with `data:` unless its payload is hexadecimal as a whole.
`value_parse` takes what the payload starts with, asks an `errno` it has not set, and lets
`strtoul` negate.
-/

namespace Propd

open Lib

/-- The integer types. -/
inductive IntTag
  | i32
  | u32
  | i64
  | u64
  deriving DecidableEq

namespace IntTag

def tag : IntTag → ValueTag
  | i32 => .i32
  | u32 => .u32
  | i64 => .i64
  | u64 => .u64

/-- The size of the C type. -/
def size : IntTag → ℕ
  | i32 => 4
  | u32 => 4
  | i64 => 8
  | u64 => 8

/-- The numbers of the C type. -/
def InRange : IntTag → ℤ → Prop
  | i32, n => -2 ^ 31 ≤ n ∧ n < 2 ^ 31
  | u32, n => 0 ≤ n ∧ n < 2 ^ 32
  | i64, n => -2 ^ 63 ≤ n ∧ n < 2 ^ 63
  | u64, n => 0 ≤ n ∧ n < 2 ^ 64

/-- The number in a variable of the C type. -/
def read : IntTag → List UInt8 → ℤ
  | i32, bytes => (int32Code.decode bytes).toInt
  | u32, bytes => (uint32Code.decode bytes).toNat
  | i64, bytes => (int64Code.decode bytes).toInt
  | u64, bytes => (uint64Code.decode bytes).toNat

/-- The value of this type with a number, which is cut to its bits. -/
def value : IntTag → ℤ → Value
  | i32, n => ⟨ValueType.i32, int32Code.encode (Int32.ofInt n),
      (int32Code.length_encode _).trans_lt (by decide)⟩
  | u32, n => ⟨ValueType.u32, uint32Code.encode (UInt32.ofInt n),
      (uint32Code.length_encode _).trans_lt (by decide)⟩
  | i64, n => ⟨ValueType.i64, int64Code.encode (Int64.ofInt n),
      (int64Code.length_encode _).trans_lt (by decide)⟩
  | u64, n => ⟨ValueType.u64, uint64Code.encode (UInt64.ofInt n),
      (uint64Code.length_encode _).trans_lt (by decide)⟩

end IntTag

/-- `value_to_<typ>` gives the number. -/
def Value.Holds (v : Value) (t : IntTag) (n : ℤ) : Prop :=
  ∃ bytes, v.valueTo t.tag.type t.size = .ok bytes ∧ t.read bytes = n

/-- A value of the type is made of exactly the payloads that are numerals of its range, and holds
their number; everything else is invalid. -/
structure ParsesNumeral (lib : FloatLib) (a : ParseAlloc) (errno : Int32) (t : IntTag)
    (r : CString) : Prop where
  accepts : ∀ n, IsNumeral r.bytes n → t.InRange n →
    ∃ v, valueParse lib a errno (tagged t.tag r) = .ok v ∧ v.Holds t n
  refuses : (¬∃ n, IsNumeral r.bytes n ∧ t.InRange n) →
    valueParse lib a errno (tagged t.tag r) = .error EINVAL

/-- A data value is made of exactly the payloads that are hexadecimal text, and has their bytes. -/
structure ParsesHex (lib : FloatLib) (a : ParseAlloc) (errno : Int32) (r : CString) : Prop where
  accepts : ∀ bytes, IsHexText r.bytes bytes →
    ∃ v, valueParse lib a errno (tagged .data r) = .ok v ∧ v.type = ValueType.data ∧ v.data = bytes
  refuses : (¬∃ bytes, IsHexText r.bytes bytes) →
    valueParse lib a errno (tagged .data r) = .error EINVAL

/-- The numbers that pass the tests behind `strtol` and `strtoul`. A negative number of
`unsigned long` is what it is in 64 bits, and the largest and smallest are refused where `errno` was
`ERANGE` already. -/
def IntTag.Taken (errno : Int32) : IntTag → ℤ → Prop
  | i32, n => -2 ^ 31 ≤ n ∧ n < 2 ^ 31
  | u32, n => n.natAbs < 2 ^ 64 ∧ n % 2 ^ 64 < 2 ^ 32
  | i64, n => -2 ^ 63 ≤ n ∧ n < 2 ^ 63 ∧ ¬(errno = ERANGE.1 ∧ (n = 2 ^ 63 - 1 ∨ n = -2 ^ 63))
  | u64, n => n.natAbs < 2 ^ 64 ∧ ¬(errno = ERANGE.1 ∧ n % 2 ^ 64 = 2 ^ 64 - 1)

instance (errno : Int32) (t : IntTag) (n : ℤ) : Decidable (t.Taken errno n) := by
  cases t <;> exact inferInstanceAs (Decidable (_ ∧ _))

/-- The numeral the payload starts with is taken exactly if it is all of it and in range, and there
is memory for it then. -/
structure NumeralClean (a : ParseAlloc) (errno : Int32) (t : IntTag) (r : CString) : Prop where
  star : ¬StartsWithStar r
  whole : ∀ n rest, scanNumeral r.bytes = some (n, rest) →
    (t.Taken errno n ↔ rest = [] ∧ t.InRange n)
  memory : ∀ n rest, scanNumeral r.bytes = some (n, rest) → t.Taken errno n → a.value = true

/-- The digits of a payload, behind an optional `0x`. -/
def hexRun (r : CString) : List UInt8 := (skipHexPrefix r.bytes).takeWhile ishexchar

/-- If the digits of the payload make whole bytes they are all of it, fewer than `2 ^ 32` bytes, and
there is memory. -/
structure HexClean (a : ParseAlloc) (r : CString) : Prop where
  star : ¬StartsWithStar r
  memory : a.memory = true
  whole : 2 ∣ (hexRun r).length →
    skipHexPrefix r.bytes = hexRun r ∧ (hexRun r).length < 2 ^ 33 ∧ a.value = true

/-! ## Numbers -/

/-- A number of the range is read back. -/
theorem IntTag.holds_value {t : IntTag} {n : ℤ} (h : t.InRange n) : (t.value n).Holds t n := by
  cases t with
  | i32 =>
    refine ⟨_, (Value.valueTo_ok rfl).mpr (int32Code.length_encode _), ?_⟩
    show (int32Code.decode (int32Code.encode (Int32.ofInt n))).toInt = n
    rw [int32Code.decode_encode]
    exact Int32.toInt_ofInt_of_le h.1 h.2
  | u32 =>
    refine ⟨_, (Value.valueTo_ok rfl).mpr (uint32Code.length_encode _), ?_⟩
    show ((uint32Code.decode (uint32Code.encode (UInt32.ofInt n))).toNat : ℤ) = n
    rw [uint32Code.decode_encode, UInt32.ofInt, UInt32.toNat_ofNat_of_lt']
    · have hmod : n % 2 ^ 32 = n := Int.emod_eq_of_lt h.1 h.2
      rw [hmod, Int.toNat_of_nonneg h.1]
    · have hlt := h.2
      have hmod : n % 2 ^ 32 = n := Int.emod_eq_of_lt h.1 h.2
      rw [hmod, UInt32.size]
      omega
  | i64 =>
    refine ⟨_, (Value.valueTo_ok rfl).mpr (int64Code.length_encode _), ?_⟩
    show (int64Code.decode (int64Code.encode (Int64.ofInt n))).toInt = n
    rw [int64Code.decode_encode]
    exact Int64.toInt_ofInt_of_le h.1 h.2
  | u64 =>
    refine ⟨_, (Value.valueTo_ok rfl).mpr (uint64Code.length_encode _), ?_⟩
    show ((uint64Code.decode (uint64Code.encode (UInt64.ofInt n))).toNat : ℤ) = n
    rw [uint64Code.decode_encode, UInt64.ofInt, UInt64.toNat_ofNat_of_lt']
    · have hmod : n % 2 ^ 64 = n := Int.emod_eq_of_lt h.1 h.2
      rw [hmod, Int.toNat_of_nonneg h.1]
    · have hlt := h.2
      have hmod : n % 2 ^ 64 = n := Int.emod_eq_of_lt h.1 h.2
      rw [hmod, UInt64.size]
      omega

/-- A value of a fixed size is allocated with all of its bytes. -/
theorem valueAlloc_eq {alloc : Bool} {type : ValueType} {length : UInt32} {data : List UInt8}
    (h : data.length = length.toNat) :
    valueAlloc alloc type length data =
      if alloc then .ok ⟨type, data, h.trans_lt length.toNat_lt⟩ else .error ENOMEM := by
  unfold valueAlloc
  cases alloc with
  | false => rfl
  | true =>
    simp only [if_true, Except.ok.injEq]
    exact Value.ext rfl (List.take_of_length_le h.le)

/-- Memory that is missing is not an invalid text. -/
theorem allocated_ne_inval (alloc : Bool) (v : Value) :
    (if alloc then .ok v else .error ENOMEM : Except Errno Value) ≠ .error EINVAL := by
  cases alloc with
  | true => nofun
  | false => exact fun h => absurd (Except.error.inj h) (by decide)

theorem alloc_of_allocated {alloc : Bool} {v v' : Value}
    (h : (if alloc then .ok v else .error ENOMEM : Except Errno Value) = .ok v') :
    alloc = true := by
  cases alloc with
  | true => rfl
  | false => cases h

section Long

variable {alloc : Bool} {errno : Int32} {r : CString} {n : ℤ} {rest : List UInt8}

/-- The tests behind `strtol`: the numeral fits, and is not taken for an overflow. -/
theorem parseLong_number (h : scanNumeral r.bytes = some (n, rest)) (tag : ValueTag) :
    parseLong alloc errno tag r =
      if ¬(IntTag.i64.Taken errno n) ∨ (tag = .i32 ∧ ¬(-2 ^ 31 ≤ n ∧ n < 2 ^ 31)) then
        .error EINVAL
      else if tag = .i32 then valueI32 alloc (Int32.ofInt n) else valueI64 alloc (Int64.ofInt n) := by
  have hlt := length_scanNumeral_lt h
  have hend : ¬r.bytes.length - rest.length = 0 := by omega
  unfold parseLong strtol
  rw [h]
  by_cases hlow : n < -2 ^ 63
  · -- below the range: the smallest number, with `ERANGE`
    have htaken : ¬IntTag.i64.Taken errno n := fun h => absurd h.1 (by omega)
    simp only [if_pos hlow, errnoAfter, if_true, or_true, and_self, true_or, htaken,
      not_false_eq_true]
  · by_cases hhigh : 2 ^ 63 ≤ n
    · have htaken : ¬IntTag.i64.Taken errno n := fun h => absurd h.2.1 (by omega)
      simp only [if_neg hlow, if_pos hhigh, errnoAfter, if_true, or_true, true_or, and_self, htaken,
        not_false_eq_true]
    · -- in the range
      have hnum : (Int64.ofInt n).toInt = n := Int64.toInt_ofInt_of_le (by omega) (by omega)
      have hmax : Int64.ofInt n = Int64.maxValue ↔ n = 2 ^ 63 - 1 := by
        rw [← Int64.toInt_inj, hnum]
        exact Iff.rfl
      have hmin : Int64.ofInt n = Int64.minValue ↔ n = -2 ^ 63 := by
        rw [← Int64.toInt_inj, hnum]
        exact Iff.rfl
      have hbelow : Int64.ofInt n < -2147483648 ↔ n < -2 ^ 31 := by
        rw [Int64.lt_iff_toInt_lt, hnum]
        exact Iff.rfl
      have habove : 2147483647 < Int64.ofInt n ↔ ¬n < 2 ^ 31 := by
        rw [Int64.lt_iff_toInt_lt, hnum]
        have hconst : (2147483647 : Int64).toInt = 2 ^ 31 - 1 := rfl
        rw [hconst]
        omega
      have htaken : IntTag.i64.Taken errno n ↔
          ¬(errno = ERANGE.1 ∧ (n = 2 ^ 63 - 1 ∨ n = -2 ^ 63)) := by
        unfold IntTag.Taken
        exact ⟨fun h => h.2.2, fun h => ⟨by omega, by omega, h⟩⟩
      simp only [if_neg hlow, if_neg hhigh, errnoAfter, Bool.false_eq_true, if_false, hend,
        false_or, hmax, hmin, hbelow, habove, htaken, not_not, Int64.toInt32_ofInt]
      by_cases hext : errno = ERANGE.1 ∧ (n = 2 ^ 63 - 1 ∨ n = -2 ^ 63)
      · rw [if_pos hext, if_pos (.inl hext)]
      · rw [if_neg hext]
        refine if_congr ?_ rfl rfl
        rw [or_iff_right hext, not_and_or, not_le]

/-- The tests behind `strtoul`: the number fits behind its sign, and is not taken for an
overflow. -/
theorem parseUnsignedLong_number (h : scanNumeral r.bytes = some (n, rest)) (tag : ValueTag) :
    parseUnsignedLong alloc errno tag r =
      if ¬(IntTag.u64.Taken errno n) ∨ (tag = .u32 ∧ ¬n % 2 ^ 64 < 2 ^ 32) then .error EINVAL
      else if tag = .u32 then valueU32 alloc (UInt32.ofInt n)
      else valueU64 alloc (UInt64.ofInt n) := by
  have hlt := length_scanNumeral_lt h
  have hend : ¬r.bytes.length - rest.length = 0 := by omega
  unfold parseUnsignedLong strtoul
  rw [h]
  by_cases hhigh : 2 ^ 64 ≤ n.natAbs
  · -- out of range: the largest number, with `ERANGE`
    have htaken : ¬IntTag.u64.Taken errno n := fun h => absurd h.1 (by omega)
    simp only [if_pos hhigh, errnoAfter, if_true, and_self, or_true, htaken, not_false_eq_true,
      true_or]
  · -- in the range, if negated in 64 bits
    have hnum : ((UInt64.ofInt n).toNat : ℤ) = n % 2 ^ 64 := by
      rw [UInt64.ofInt, UInt64.toNat_ofNat_of_lt']
      · omega
      · rw [UInt64.size]
        omega
    have hmax : UInt64.ofInt n = UInt64.ofNat (2 ^ 64 - 1) ↔ n % 2 ^ 64 = 2 ^ 64 - 1 := by
      rw [← hnum, ← UInt64.toNat_inj]
      have hconst : (UInt64.ofNat (2 ^ 64 - 1)).toNat = 2 ^ 64 - 1 := rfl
      rw [hconst]
      omega
    have habove : 4294967295 < UInt64.ofInt n ↔ ¬n % 2 ^ 64 < 2 ^ 32 := by
      rw [← hnum, UInt64.lt_iff_toNat_lt]
      have hconst : (4294967295 : UInt64).toNat = 2 ^ 32 - 1 := rfl
      rw [hconst]
      omega
    have hlow : (UInt64.ofInt n).toUInt32 = UInt32.ofInt n := by
      rw [← UInt32.toNat_inj, UInt64.toNat_toUInt32, UInt32.ofInt, UInt32.toNat_ofNat_of_lt']
      · omega
      · rw [UInt32.size]
        omega
    have htaken : IntTag.u64.Taken errno n ↔ ¬(errno = ERANGE.1 ∧ n % 2 ^ 64 = 2 ^ 64 - 1) := by
      unfold IntTag.Taken
      exact ⟨fun h => h.2, fun h => ⟨by omega, h⟩⟩
    simp only [if_neg hhigh, errnoAfter, Bool.false_eq_true, if_false, hend, false_or, hmax, habove,
      htaken, not_not, hlow]
    by_cases hext : errno = ERANGE.1 ∧ n % 2 ^ 64 = 2 ^ 64 - 1
    · rw [if_pos hext, if_pos (.inl hext)]
    · rw [if_neg hext]
      refine if_congr ?_ rfl rfl
      rw [or_iff_right hext]

end Long

/-- What fits into 32 bits passes the test for 64. -/
theorem IntTag.taken_i32 {errno : Int32} {n : ℤ} :
    i32.Taken errno n ↔ i64.Taken errno n ∧ (-2 ^ 31 ≤ n ∧ n < 2 ^ 31) := by
  unfold IntTag.Taken
  refine ⟨fun h => ⟨⟨by omega, by omega, ?_⟩, h⟩, fun h => h.2⟩
  rintro ⟨-, hext⟩
  omega

theorem IntTag.taken_u32 {errno : Int32} {n : ℤ} :
    u32.Taken errno n ↔ u64.Taken errno n ∧ n % 2 ^ 64 < 2 ^ 32 := by
  unfold IntTag.Taken
  refine ⟨fun h => ⟨⟨h.1, ?_⟩, h.2⟩, fun h => ⟨h.1.1, h.2⟩⟩
  rintro ⟨-, hext⟩
  omega

/-- **A payload that starts with a numeral**: its value is taken or refused. -/
theorem valueParse_number {lib : FloatLib} {a : ParseAlloc} {errno : Int32} {t : IntTag}
    {r : CString} {n : ℤ} {rest : List UInt8} (hstar : ¬StartsWithStar r)
    (h : scanNumeral r.bytes = some (n, rest)) :
    valueParse lib a errno (tagged t.tag r) =
      if t.Taken errno n then (if a.value then .ok (t.value n) else .error ENOMEM)
      else .error EINVAL := by
  unfold valueParse
  rw [(valueTag_tagged t.tag r).1 hstar]
  -- the code tests what is refused
  cases t with
  | i32 =>
    have hrefused : (¬IntTag.i64.Taken errno n ∨
        (ValueTag.i32 = .i32 ∧ ¬(-2 ^ 31 ≤ n ∧ n < 2 ^ 31))) ↔ ¬IntTag.i32.Taken errno n := by
      rw [IntTag.taken_i32, and_iff_right rfl]
      exact not_and_or.symm
    show parseLong a.value errno .i32 r = _
    rw [parseLong_number h, if_congr hrefused rfl rfl, ite_not, if_pos rfl, valueI32,
      valueAlloc_eq (int32Code.length_encode _)]
    rfl
  | i64 =>
    have hne : ¬ValueTag.i64 = .i32 := nofun
    have hrefused : (¬IntTag.i64.Taken errno n ∨
        (ValueTag.i64 = .i32 ∧ ¬(-2 ^ 31 ≤ n ∧ n < 2 ^ 31))) ↔ ¬IntTag.i64.Taken errno n :=
      or_iff_left fun hno => hne hno.1
    show parseLong a.value errno .i64 r = _
    rw [parseLong_number h, if_congr hrefused rfl rfl, ite_not, if_neg hne, valueI64,
      valueAlloc_eq (int64Code.length_encode _)]
    rfl
  | u32 =>
    have hrefused : (¬IntTag.u64.Taken errno n ∨ (ValueTag.u32 = .u32 ∧ ¬n % 2 ^ 64 < 2 ^ 32)) ↔
        ¬IntTag.u32.Taken errno n := by
      rw [IntTag.taken_u32, and_iff_right rfl]
      exact not_and_or.symm
    show parseUnsignedLong a.value errno .u32 r = _
    rw [parseUnsignedLong_number h, if_congr hrefused rfl rfl, ite_not, if_pos rfl, valueU32,
      valueAlloc_eq (uint32Code.length_encode _)]
    rfl
  | u64 =>
    have hne : ¬ValueTag.u64 = .u32 := nofun
    have hrefused : (¬IntTag.u64.Taken errno n ∨ (ValueTag.u64 = .u32 ∧ ¬n % 2 ^ 64 < 2 ^ 32)) ↔
        ¬IntTag.u64.Taken errno n := or_iff_left fun hno => hne hno.1
    show parseUnsignedLong a.value errno .u64 r = _
    rw [parseUnsignedLong_number h, if_congr hrefused rfl rfl, ite_not, if_neg hne, valueU64,
      valueAlloc_eq (uint64Code.length_encode _)]
    rfl

/-- A payload that starts with no numeral is refused. -/
theorem valueParse_noNumber {lib : FloatLib} {a : ParseAlloc} {errno : Int32} {t : IntTag}
    {r : CString} (hstar : ¬StartsWithStar r) (h : scanNumeral r.bytes = none) :
    valueParse lib a errno (tagged t.tag r) = .error EINVAL := by
  unfold valueParse
  rw [(valueTag_tagged t.tag r).1 hstar]
  cases t with
  | i32 => simp [IntTag.tag, parseLong, strtol, h]
  | i64 => simp [IntTag.tag, parseLong, strtol, h]
  | u32 => simp [IntTag.tag, parseUnsignedLong, strtoul, h]
  | u64 => simp [IntTag.tag, parseUnsignedLong, strtoul, h]

/-- A payload that hides the `*` of the pattern is never refused as it should be. -/
theorem valueParse_star (lib : FloatLib) (a : ParseAlloc) (errno : Int32) (tag : ValueTag)
    {r : CString} (hstar : StartsWithStar r) :
    valueParse lib a errno (tagged tag r) = valueCstring a.value (tagged tag r) := by
  unfold valueParse
  rw [(valueTag_tagged tag r).2 hstar]

/-- A payload that is refused where it should be does not start with a `*`. -/
theorem not_startsWithStar {lib : FloatLib} {a : ParseAlloc} {errno : Int32} {tag : ValueTag}
    {r : CString} {P : Prop} (hrefuses : ¬P → valueParse lib a errno (tagged tag r) = .error EINVAL)
    (hP : StartsWithStar r → ¬P) : ¬StartsWithStar r := by
  intro hstar
  have hinval := hrefuses (hP hstar)
  rw [valueParse_star lib a errno tag hstar] at hinval
  exact allocated_ne_inval _ _ hinval

/-- A payload that starts with `*` starts with no numeral. -/
theorem scanNumeral_star {r : CString} (hstar : StartsWithStar r) : scanNumeral r.bytes = none := by
  obtain ⟨c, tail, h⟩ := hstar
  rw [h, scanNumeral, List.dropWhile_cons_of_neg (by decide), scanSigned, if_neg (by decide),
    if_neg (by decide), scanConstant, if_neg (by decide), if_neg (by decide)]
  rfl

section Exact

variable {lib : FloatLib} {a : ParseAlloc} {errno : Int32} {t : IntTag} {r : CString} {n : ℤ}
  {rest : List UInt8}

/-- The payload as a whole is one numeral at most, the one that is scanned. -/
theorem numeral_unique (h : scanNumeral r.bytes = some (n, rest)) {n' : ℤ}
    (hnum : IsNumeral r.bytes n') : n' = n ∧ rest = [] := by
  have hscan := scanNumeral_iff.mpr hnum
  rw [h] at hscan
  cases hscan
  exact ⟨rfl, rfl⟩

/-- **Numbers are parsed exactly as they are meant where the payload is clean.** -/
theorem parsesNumeral_iff : ParsesNumeral lib a errno t r ↔ NumeralClean a errno t r := by
  constructor
  · intro h
    have hstar : ¬StartsWithStar r := by
      refine not_startsWithStar h.refuses ?_
      rintro hstar ⟨n, hnum, -⟩
      have hscan := scanNumeral_iff.mpr hnum
      rw [scanNumeral_star hstar] at hscan
      cases hscan
    -- what is taken must be the whole payload
    have hwhole : ∀ n rest, scanNumeral r.bytes = some (n, rest) → t.Taken errno n →
        rest = [] ∧ t.InRange n := by
      intro n rest hscan htaken
      by_contra hno
      have hparse := h.refuses (by
        rintro ⟨n', hnum, hrange⟩
        obtain ⟨rfl, hrest⟩ := numeral_unique hscan hnum
        exact hno ⟨hrest, hrange⟩)
      rw [valueParse_number hstar hscan, if_pos htaken] at hparse
      exact allocated_ne_inval _ _ hparse
    have haccept : ∀ n rest, scanNumeral r.bytes = some (n, rest) → rest = [] ∧ t.InRange n →
        t.Taken errno n ∧ a.value = true := by
      rintro n rest hscan ⟨rfl, hrange⟩
      obtain ⟨v, hparse, -⟩ := h.accepts n (scanNumeral_iff.mp hscan) hrange
      rw [valueParse_number hstar hscan] at hparse
      by_cases htaken : t.Taken errno n
      · rw [if_pos htaken] at hparse
        exact ⟨htaken, alloc_of_allocated hparse⟩
      · rw [if_neg htaken] at hparse
        cases hparse
    refine ⟨hstar, ?_, ?_⟩
    · intro n rest hscan
      exact ⟨hwhole n rest hscan, fun hr => (haccept n rest hscan hr).1⟩
    · intro n rest hscan htaken
      exact (haccept n rest hscan (hwhole n rest hscan htaken)).2
  · intro h
    refine ⟨?_, ?_⟩
    · intro n hnum hrange
      have hscan := scanNumeral_iff.mpr hnum
      have htaken := (h.whole n [] hscan).mpr ⟨rfl, hrange⟩
      refine ⟨t.value n, ?_, IntTag.holds_value hrange⟩
      rw [valueParse_number h.star hscan, if_pos htaken, h.memory n [] hscan htaken, if_pos rfl]
    · intro hno
      cases hscan : scanNumeral r.bytes with
      | none => exact valueParse_noNumber h.star hscan
      | some x =>
        obtain ⟨n, rest⟩ := x
        have htaken : ¬t.Taken errno n := by
          intro htaken
          obtain ⟨rfl, hrange⟩ := (h.whole n rest hscan).mp htaken
          exact hno ⟨n, scanNumeral_iff.mp hscan, hrange⟩
        rw [valueParse_number h.star hscan, if_neg htaken]

/-! ## Bytes -/

/-- A payload is hexadecimal text exactly if its digits are all of it, in pairs. -/
theorem isHexText_iff {bytes : List UInt8} :
    IsHexText r.bytes bytes ↔
      skipHexPrefix r.bytes = hexRun r ∧ 2 ∣ (hexRun r).length ∧ hexBytes (hexRun r) = bytes := by
  unfold IsHexText hexRun
  constructor
  · rintro ⟨digits, rfl, hall, heven, hbytes⟩
    rw [List.takeWhile_eq_self_iff.mpr hall]
    exact ⟨rfl, heven, hbytes⟩
  · rintro ⟨hself, heven, hbytes⟩
    refine ⟨_, rfl, List.takeWhile_eq_self_iff.mp hself.symm, ?_, ?_⟩
    · rw [hself]
      exact heven
    · rw [hself]
      exact hbytes

theorem length_skipHexPrefix_le (s : List UInt8) : (skipHexPrefix s).length ≤ s.length := by
  unfold skipHexPrefix
  split
  · split
    · exact (Nat.le_succ _).trans (Nat.le_succ _)
    · exact le_rfl
  · exact le_rfl

/-- The memory of half the payload is enough for its digits. -/
theorem hex2mem_payload :
    ((hex2mem (r.length / 2) r).2 = true ↔ 2 ∣ (hexRun r).length) ∧
      ((hex2mem (r.length / 2) r).2 = true → (hex2mem (r.length / 2) r).1 = hexBytes (hexRun r)) := by
  obtain ⟨hok, hbytes⟩ := hex2memLoop_eq (skipHexPrefix r.bytes) (r.length / 2)
  refine ⟨?_, hbytes⟩
  have hle : (hexRun r).length ≤ r.length :=
    (List.takeWhile_sublist _).length_le.trans (length_skipHexPrefix_le r.bytes)
  refine hok.trans (and_iff_left_of_imp fun heven => ?_)
  show (hexRun r).length ≤ _
  have heven' : 2 ∣ (hexRun r).length := heven
  omega

/-- A payload that starts with `*` starts with no digit. -/
theorem not_isHexText_star {bytes : List UInt8} (hstar : StartsWithStar r) :
    ¬IsHexText r.bytes bytes := by
  obtain ⟨c, tail, h⟩ := hstar
  rintro ⟨digits, hskip, hall, -, -⟩
  have hself : skipHexPrefix r.bytes = star :: c :: tail := by
    rw [h]
    rfl
  rw [hself] at hskip
  subst hskip
  exact absurd (hall star List.mem_cons_self) (by decide)

theorem valueParse_data (hstar : ¬StartsWithStar r) :
    valueParse lib a errno (tagged .data r) = parseData a r := by
  unfold valueParse
  rw [(valueTag_tagged .data r).1 hstar]

/-- Digits in pairs are decoded, whatever follows them. -/
theorem parseData_even (hmem : a.memory = true) (heven : 2 ∣ (hexRun r).length) :
    parseData a r =
      valueData a.value (UInt32.ofNat ((hexRun r).length / 2)) (hexBytes (hexRun r)) := by
  obtain ⟨hok, hbytes⟩ : _ ∧ _ := hex2mem_payload (r := r)
  have hread := hok.mpr heven
  unfold parseData
  simp only [hmem, hread, hbytes hread, length_hexBytes, Bool.not_true, Bool.false_eq_true,
    if_false]

theorem parseData_odd (hmem : a.memory = true) (hodd : ¬2 ∣ (hexRun r).length) :
    parseData a r = .error EINVAL := by
  have hread : (hex2mem (r.length / 2) r).2 = false :=
    Bool.eq_false_iff.mpr fun h => hodd (hex2mem_payload.1.mp h)
  unfold parseData
  simp only [hmem, hread, Bool.not_true, Bool.not_false, Bool.false_eq_true, if_false, if_true]

theorem parseData_noMemory (hmem : a.memory ≠ true) : parseData a r = .error ENOMEM := by
  unfold parseData
  rw [Bool.eq_false_iff.mpr hmem]
  rfl

/-- What is parsed as it is meant is clean. -/
theorem ParsesHex.clean (h : ParsesHex lib a errno r) : HexClean a r := by
  have hstar : ¬StartsWithStar r := by
    refine not_startsWithStar h.refuses ?_
    rintro hstar ⟨bytes, hhex⟩
    exact not_isHexText_star hstar hhex
  have hmem : a.memory = true := by
    by_contra hno
    have hfail : valueParse lib a errno (tagged .data r) = .error ENOMEM :=
      (valueParse_data hstar).trans (parseData_noMemory hno)
    by_cases hhex : ∃ bytes, IsHexText r.bytes bytes
    · obtain ⟨bytes, hhex⟩ := hhex
      obtain ⟨v, hv, -⟩ := h.accepts bytes hhex
      rw [hfail] at hv
      cases hv
    · have hinval := h.refuses hhex
      rw [hfail] at hinval
      exact absurd (Except.error.inj hinval) (by decide)
  refine ⟨hstar, hmem, fun heven => ?_⟩
  have hparse : valueParse lib a errno (tagged .data r) = _ :=
    (valueParse_data hstar).trans (parseData_even hmem heven)
  -- otherwise the digits are taken, and what follows them is dropped
  have hwhole : skipHexPrefix r.bytes = hexRun r := by
    by_contra hno
    have hinval := h.refuses (by
      rintro ⟨bytes, hhex⟩
      exact hno (isHexText_iff.mp hhex).1)
    rw [hparse] at hinval
    exact allocated_ne_inval _ _ hinval
  obtain ⟨v, hv, -, hdata⟩ := h.accepts _ (isHexText_iff.mpr ⟨hwhole, heven, rfl⟩)
  rw [hparse] at hv
  refine ⟨hwhole, ?_, alloc_of_allocated hv⟩
  -- a value has fewer than 2 ^ 32 bytes
  have hlt := v.length_lt
  rw [hdata, length_hexBytes] at hlt
  omega

/-- What is clean is parsed as it is meant. -/
theorem HexClean.parses (h : HexClean a r) : ParsesHex lib a errno r where
  accepts := by
    intro bytes hhex
    obtain ⟨-, heven, rfl⟩ := isHexText_iff.mp hhex
    obtain ⟨-, hlt, hvalue⟩ := h.whole heven
    have hlen : (hexBytes (hexRun r)).length = (UInt32.ofNat ((hexRun r).length / 2)).toNat := by
      rw [length_hexBytes, UInt32.toNat_ofNat_of_lt']
      rw [UInt32.size]
      omega
    refine ⟨⟨ValueType.data, hexBytes (hexRun r), hlen.trans_lt (UInt32.toNat_lt _)⟩, ?_, rfl, rfl⟩
    rw [valueParse_data h.star, parseData_even h.memory heven, valueData, valueAlloc_eq hlen, hvalue,
      if_pos rfl]
  refuses := by
    intro hno
    rw [valueParse_data h.star]
    refine parseData_odd h.memory fun heven => hno ⟨_, isHexText_iff.mpr ⟨?_, heven, rfl⟩⟩
    exact (h.whole heven).1

/-- **Bytes are parsed exactly as they are meant where the payload is clean.** -/
theorem parsesHex_iff : ParsesHex lib a errno r ↔ HexClean a r :=
  ⟨ParsesHex.clean, HexClean.parses⟩

end Exact

/-- **`value_parse` accepts and refuses as it is meant exactly for clean payloads.** -/
theorem valueParse_exact_iff (lib : FloatLib) (a : ParseAlloc) (errno : Int32) (r : CString) :
    (∀ t, ParsesNumeral lib a errno t r ↔ NumeralClean a errno t r) ∧
      (ParsesHex lib a errno r ↔ HexClean a r) :=
  ⟨fun _ => parsesNumeral_iff, parsesHex_iff⟩

section Example

/-- A library that converts no floating point number. -/
def noFloats : FloatLib :=
  ⟨fun _ => ⟨0, false, false⟩, fun _ => ⟨0, false, false⟩, fun _ => ⟨[], CString.nonul_nil⟩,
    fun _ => ⟨[], CString.nonul_nil⟩⟩

/-- `i32:7a` is 7. -/
theorem valueParse_partial :
    valueParse noFloats .all 0 (tagged .i32 ⟨[55, 97], by decide⟩) = .ok (IntTag.i32.value 7) ∧
      ¬ParsesNumeral noFloats .all 0 .i32 ⟨[55, 97], by decide⟩ := by
  have hscan : scanNumeral [55, 97] = some (7, [97]) := by decide
  refine ⟨rfl, fun h => ?_⟩
  have hinval := h.refuses (by
    rintro ⟨n, hnum, -⟩
    cases (numeral_unique hscan hnum).2)
  cases hinval

/-- A negative number is taken modulo `2 ^ 64`. -/
example : valueParse noFloats .all 0 (tagged .u64 ⟨[45, 49], by decide⟩) =
    .ok (IntTag.u64.value (2 ^ 64 - 1)) := rfl

end Example

end Propd
