import Propd.Core.ValueParse

/-!
# Printing and parsing back

What `value_fmt` prints of a cstring or an integer, and what `value_parse` makes of it.
-/

namespace Propd

open Lib

/-- The value that `value_cstring` makes of a string. -/
def Value.IsCstring (v : Value) (s : CString) : Prop :=
  v.type = ValueType.cstring ∧ v.data = s.bytes ++ [0]

/-- A string is parsed to its cstring value: behind `cstring:`, by itself if it has no tag, and
after its value was printed into a buffer that is long enough. -/
structure ParsesCstring (lib : FloatLib) (a : ParseAlloc) (errno : Int32) (s : CString) :
    Prop where
  tagged : ∃ v, valueParse lib a errno (tagged .cstring s) = .ok v ∧ v.IsCstring s
  untagged : (∀ tag : ValueTag, ¬tag.text.bytes <+: s.bytes) →
    ∃ v, valueParse lib a errno s = .ok v ∧ v.IsCstring s
  printed : ∀ (v : Value) (buffer : CString) (length : ℕ), v.IsCstring s →
    (Propd.tagged .cstring s).length < length →
      ∃ text : CString, valueText lib buffer length v false = .ok text.bytes ∧
        valueParse lib a errno text = .ok v

/-! ## Strings -/

section Cstring

variable {lib : FloatLib} {a : ParseAlloc} {errno : Int32} {s : CString}

/-- The constructor makes the value of every string that can be counted in 32 bits. -/
theorem valueCstring_eq (h : s.length + 1 < 2 ^ 32) :
    ∃ v : Value, v.IsCstring s ∧
      ∀ alloc, valueCstring alloc s = if alloc then .ok v else .error ENOMEM := by
  have hlen : (s.bytes ++ [0]).length = (UInt32.ofNat (s.length + 1)).toNat := by
    rw [UInt32.toNat_ofNat_of_lt' (by rw [UInt32.size]; exact h), List.length_append]
    rfl
  exact ⟨⟨ValueType.cstring, s.bytes ++ [0], hlen.trans_lt (UInt32.toNat_lt _)⟩, ⟨rfl, rfl⟩,
    fun alloc => valueAlloc_eq hlen⟩

/-- Two values of a string are the same. -/
theorem Value.IsCstring.unique {v v' : Value} (h : v.IsCstring s) (h' : v'.IsCstring s) : v = v' :=
  Value.ext (h.1.trans h'.1.symm) (h.2.trans h'.2.symm)

/-- A cstring value is printed with its tag. -/
theorem valueText_cstring {v : Value} (h : v.IsCstring s) (lib : FloatLib) (buffer : CString)
    {length : ℕ} (hfits : (tagged .cstring s).length < length) :
    valueText lib buffer length v false = .ok (tagged .cstring s).bytes := by
  have hread : v.readCString = .ok s := by
    unfold Value.readCString
    rw [h.2, CString.ofBuffer_append s []]
  have hfmt : v.valueFmt = .ok (.text s) := by
    unfold Value.valueFmt
    simp only [h.1, hread]
    rfl
  unfold valueText snprintf
  simp only [hfmt, h.1, Bool.false_eq_true, if_false, Except.ok.injEq]
  rw [if_neg (by omega)]
  refine List.take_of_length_le ?_
  show (tagged .cstring s).length ≤ length - 1
  omega

theorem valueParse_cstring (hstar : ¬StartsWithStar s) :
    valueParse lib a errno (tagged .cstring s) = valueCstring a.value s := by
  unfold valueParse
  rw [(valueTag_tagged .cstring s).1 hstar]

/-- The value made of a whole text begins with its tag, which a payload with a `*` does not. -/
theorem not_isCstring_star {v : Value} {alloc : Bool} (hstar : StartsWithStar s)
    (hv : valueCstring alloc (tagged .cstring s) = .ok v) : ¬v.IsCstring s := by
  intro hcstring
  unfold valueCstring valueAlloc at hv
  rw [alloc_of_allocated hv, if_pos rfl] at hv
  cases hv
  obtain ⟨c, tail, hs⟩ := hstar
  have hdata : ((tagged .cstring s).bytes ++ [0]).take
      (UInt32.ofNat ((tagged .cstring s).length + 1)).toNat = s.bytes ++ [0] := hcstring.2
  rw [hs] at hdata
  cases hcount : (UInt32.ofNat ((tagged .cstring s).length + 1)).toNat with
  | zero =>
    rw [hcount] at hdata
    cases hdata
  | succ k =>
    rw [hcount] at hdata
    exact absurd (List.cons.inj hdata).1 (by decide)

/-- **Strings come back exactly where there is memory, the length has 32 bits, and they do not hide
the `*` of the pattern.** -/
theorem parsesCstring_iff :
    ParsesCstring lib a errno s ↔
      a.value = true ∧ s.length + 1 < 2 ^ 32 ∧ ¬StartsWithStar s := by
  constructor
  · intro h
    obtain ⟨v, hv, hcstring⟩ := h.tagged
    -- a value is a value of its own length
    have hlen : s.length + 1 < 2 ^ 32 := by
      have hlt := v.length_lt
      rw [hcstring.2, List.length_append] at hlt
      exact hlt
    have hstar : ¬StartsWithStar s := by
      intro hstar
      rw [valueParse_star lib a errno .cstring hstar] at hv
      exact not_isCstring_star hstar hv hcstring
    obtain ⟨v', -, hmake⟩ := valueCstring_eq hlen
    rw [valueParse_cstring hstar, hmake] at hv
    exact ⟨alloc_of_allocated hv, hlen, hstar⟩
  · rintro ⟨hvalue, hlen, hstar⟩
    obtain ⟨v, hcstring, hmake⟩ := valueCstring_eq hlen
    have hparse : valueParse lib a errno (tagged .cstring s) = .ok v := by
      rw [valueParse_cstring hstar, hmake, hvalue, if_pos rfl]
    refine ⟨⟨v, hparse, hcstring⟩, ?_, ?_⟩
    · intro hnone
      refine ⟨v, ?_, hcstring⟩
      unfold valueParse
      rw [valueTag_untagged hnone]
      show valueCstring a.value s = _
      rw [hmake, hvalue, if_pos rfl]
    · intro v' buffer length hv' hfits
      obtain rfl := hv'.unique hcstring
      exact ⟨_, valueText_cstring hv' lib buffer hfits, hparse⟩

end Cstring

/-- Behind `cstring:` the string `*a` is parsed with its tag. -/
theorem parsesCstring_star :
    (valueParse noFloats .all 0 (tagged .cstring ⟨[42, 97], by decide⟩)).map Value.data =
        .ok [99, 115, 116, 114, 105, 110, 103, 58, 42, 97, 0] ∧
      ¬ParsesCstring noFloats .all 0 ⟨[42, 97], by decide⟩ := by
  refine ⟨rfl, fun h => ?_⟩
  obtain ⟨v, hv, -, hdata⟩ := h.tagged
  cases hv
  cases hdata

/-! ## Integers -/

/-- `value_i32`, `value_u32`, `value_i64` and `value_u64` -/
def IntTag.make (alloc : Bool) : IntTag → ℤ → Except Errno Value
  | i32, n => valueI32 alloc (Int32.ofInt n)
  | u32, n => valueU32 alloc (UInt32.ofInt n)
  | i64, n => valueI64 alloc (Int64.ofInt n)
  | u64, n => valueU64 alloc (UInt64.ofInt n)

section Integer

variable {t : IntTag} {n : ℤ}

theorem IntTag.make_eq (alloc : Bool) (t : IntTag) (n : ℤ) :
    t.make alloc n = if alloc then .ok (t.value n) else .error ENOMEM := by
  cases t with
  | i32 => exact valueAlloc_eq (int32Code.length_encode _)
  | u32 => exact valueAlloc_eq (uint32Code.length_encode _)
  | i64 => exact valueAlloc_eq (int64Code.length_encode _)
  | u64 => exact valueAlloc_eq (uint64Code.length_encode _)

/-- A number as text. -/
def decimalText (n : ℤ) : CString :=
  ⟨decimal n, fun h => by
    rcases mem_decimal h with h | h
    · exact absurd h (by decide)
    · exact absurd h (by decide)⟩

theorem decimalText_star (n : ℤ) : ¬StartsWithStar (decimalText n) := by
  rintro ⟨c, tail, h⟩
  have hmem : star ∈ decimal n := by
    rw [show decimal n = _ from h]
    exact List.mem_cons_self
  rcases mem_decimal hmem with h | h
  · exact absurd h (by decide)
  · exact absurd h (by decide)

/-- The numbers of the types have 20 digits at most. -/
theorem IntTag.InRange.natAbs_lt (h : t.InRange n) : n.natAbs < 10 ^ 20 := by
  cases t with
  | i32 =>
    obtain ⟨hlo, hhi⟩ := h
    omega
  | u32 =>
    obtain ⟨hlo, hhi⟩ := h
    omega
  | i64 =>
    obtain ⟨hlo, hhi⟩ := h
    omega
  | u64 =>
    obtain ⟨hlo, hhi⟩ := h
    omega

/-- `value_fmt` reads an integer with the conversion of its type. -/
theorem valueFmt_int {v : Value} (h : v.type = t.tag.type) :
    v.valueFmt = .scalar <$> v.valueTo t.tag.type t.size := by
  unfold Value.valueFmt
  rw [h]
  cases t <;> rfl

theorem typeText_tag (tag : ValueTag) : typeText tag.type = tag.text.bytes := by
  cases tag <;> rfl

theorem printScalar_int (lib : FloatLib) (t : IntTag) (bytes : List UInt8) :
    printScalar lib t.tag.type bytes = decimal (t.read bytes) := by
  cases t <;> rfl

/-- A value of a number is printed with its tag. -/
theorem valueText_value (h : t.InRange n) (lib : FloatLib) (buffer : CString) {length : ℕ}
    (hlength : 32 ≤ length) :
    valueText lib buffer length (t.value n) false = .ok (tagged t.tag (decimalText n)).bytes := by
  obtain ⟨bytes, hto, hread⟩ := IntTag.holds_value h
  have htype : (t.value n).type = t.tag.type := by cases t <;> rfl
  have hfmt : (t.value n).valueFmt = .ok (.scalar bytes) := by
    rw [valueFmt_int htype, hto]
    rfl
  -- a tag of 4 characters, a sign, and 20 digits
  have hlen := length_decimal_le (by decide) h.natAbs_lt
  have hfits : (t.tag.text.bytes ++ decimal n).length ≤ length - 1 := by
    have htag : t.tag.text.bytes.length = 4 := by cases t <;> rfl
    rw [List.length_append, htag]
    omega
  unfold valueText
  rw [hfmt]
  simp only [Bool.false_eq_true, if_false, htype, typeText_tag, printScalar_int, hread]
  rw [snprintf, if_neg (by omega), List.take_of_length_le hfits]
  rfl

/-- A number of the type is taken where `errno` is not `ERANGE` already. -/
theorem IntTag.InRange.taken (h : t.InRange n) {errno : Int32} (herrno : errno ≠ ERANGE.1) :
    t.Taken errno n := by
  cases t with
  | i32 => exact h
  | u32 =>
    obtain ⟨hlo, hhi⟩ := h
    exact ⟨by omega, by omega⟩
  | i64 => exact ⟨h.1, h.2, fun hext => herrno hext.1⟩
  | u64 =>
    obtain ⟨hlo, hhi⟩ := h
    exact ⟨by omega, fun hext => herrno hext.1⟩

/-- **Integers come back**: every value of a number of its type is printed into 32 bytes, and
parsed to itself, if there is memory for it. -/
theorem valueParse_valueText (lib : FloatLib) (a : ParseAlloc) {errno : Int32} (buffer : CString)
    {length : ℕ} (herrno : errno ≠ ERANGE.1) (hlength : 32 ≤ length) (h : t.InRange n) :
    ∃ (v : Value) (text : CString), t.make true n = .ok v ∧
      valueText lib buffer length v false = .ok text.bytes ∧
      valueParse lib a errno text = (if a.value then .ok v else .error ENOMEM) ∧
      v.Holds t n := by
  refine ⟨t.value n, tagged t.tag (decimalText n), ?_, valueText_value h lib buffer hlength, ?_,
    IntTag.holds_value h⟩
  · rw [IntTag.make_eq, if_pos rfl]
  · rw [valueParse_number (decimalText_star n) (scanNumeral_iff.mpr (isNumeral_decimal n)),
      if_pos (h.taken herrno)]

/-- The smallest `int64_t`. -/
theorem valueParse_valueText_min :
    ∃ (v : Value) (text : CString), IntTag.i64.make true (-2 ^ 63) = .ok v ∧
      valueText noFloats ⟨[], by decide⟩ 32 v false = .ok text.bytes ∧
      valueParse noFloats .all 0 text = .ok v ∧ v.Holds .i64 (-2 ^ 63) :=
  valueParse_valueText noFloats .all ⟨[], by decide⟩ (by decide) (by decide)
    ⟨by decide, by decide⟩

end Integer

end Propd
