import Propd.Core.Hex
import Propd.Core.Prefix
import Propd.Core.Value
import Propd.Lib.Bytes

/-!
# Values as text

`value_parse` and `value_fmt`. The type of a text is the tag it starts with; the tags are
recognised with `prefix_match`, the payload starts behind the first colon.

`value_parse` looks at `errno` after `strtol` and its like without having set it, so `errno` is
part of its input. What `strtof`, `strtod` and `%g` do is a parameter.
-/

namespace Propd

open Lib

/-- The tags, in the order `value_parse` tries them. -/
inductive ValueTag
  | i32
  | u32
  | i64
  | u64
  | float
  | double
  | data
  | cstring
  deriving DecidableEq

namespace ValueTag

def all : List ValueTag := [i32, u32, i64, u64, float, double, data, cstring]

def type : ValueTag → ValueType
  | i32 => ValueType.i32
  | u32 => ValueType.u32
  | i64 => ValueType.i64
  | u64 => ValueType.u64
  | float => ValueType.float
  | double => ValueType.double
  | data => ValueType.data
  | cstring => ValueType.cstring

/-- `i32:`, `u32:` and so on. -/
def text : ValueTag → CString
  | i32 => ⟨[105, 51, 50, 58], by decide⟩
  | u32 => ⟨[117, 51, 50, 58], by decide⟩
  | i64 => ⟨[105, 54, 52, 58], by decide⟩
  | u64 => ⟨[117, 54, 52, 58], by decide⟩
  | float => ⟨[102, 108, 111, 97, 116, 58], by decide⟩
  | double => ⟨[100, 111, 117, 98, 108, 101, 58], by decide⟩
  | data => ⟨[100, 97, 116, 97, 58], by decide⟩
  | cstring => ⟨[99, 115, 116, 114, 105, 110, 103, 58], by decide⟩

end ValueTag

/-! ## The constructors -/

/-- `_value_alloc` -/
def valueAlloc (alloc : Bool) (type : ValueType) (length : UInt32) (data : List UInt8) :
    Except Errno Value :=
  if alloc then
    .ok ⟨type, data.take length.toNat, (List.length_take_le _ _).trans_lt length.toNat_lt⟩
  else .error ENOMEM

def valueData (alloc : Bool) (length : UInt32) (data : List UInt8) : Except Errno Value :=
  valueAlloc alloc ValueType.data length data

/-- The length is a 32-bit one. -/
def valueCstring (alloc : Bool) (cstring : CString) : Except Errno Value :=
  valueAlloc alloc ValueType.cstring (UInt32.ofNat (cstring.length + 1)) (cstring.bytes ++ [0])

def valueI32 (alloc : Bool) (n : Int32) : Except Errno Value :=
  valueAlloc alloc ValueType.i32 4 (int32Code.encode n)

def valueU32 (alloc : Bool) (n : UInt32) : Except Errno Value :=
  valueAlloc alloc ValueType.u32 4 (uint32Code.encode n)

def valueI64 (alloc : Bool) (n : Int64) : Except Errno Value :=
  valueAlloc alloc ValueType.i64 8 (int64Code.encode n)

def valueU64 (alloc : Bool) (n : UInt64) : Except Errno Value :=
  valueAlloc alloc ValueType.u64 8 (uint64Code.encode n)

def valueFloat (alloc : Bool) (n : UInt32) : Except Errno Value :=
  valueAlloc alloc ValueType.float 4 (uint32Code.encode n)

def valueDouble (alloc : Bool) (n : UInt64) : Except Errno Value :=
  valueAlloc alloc ValueType.double 8 (uint64Code.encode n)

/-! ## Parsing -/

/-- What a floating point conversion returns, as its bits, whether it converts anything, and
whether it sets `ERANGE`. -/
structure FloatText (α : Type) where
  number : α
  converted : Bool
  range : Bool

/-- The floating point functions of the C library. -/
structure FloatLib where
  strtof : CString → FloatText UInt32
  strtod : CString → FloatText UInt64
  printFloat : UInt32 → CString
  printDouble : UInt64 → CString

/-- Which allocations of a `value_parse` succeed: the memory for hexadecimal data, and the
value. -/
structure ParseAlloc where
  memory : Bool
  value : Bool

/-- Every allocation succeeds. -/
def ParseAlloc.all : ParseAlloc := ⟨true, true⟩

/-- `errno` after a function that may set it to `ERANGE`. -/
def errnoAfter (errno : Int32) (range : Bool) : Int32 := if range then ERANGE.1 else errno

/-- `strchr(s, ':') + 1` -/
def afterColon (s : CString) : Option CString :=
  if (58 : UInt8) ∈ s.bytes then
    some ⟨(s.bytes.dropWhile (· != 58)).tail, fun h =>
      s.nonul ((List.dropWhile_sublist _).subset (List.mem_of_mem_tail h))⟩
  else none

/-- The first part of `value_parse`: the type, and where the payload starts. -/
def valueTag (str : CString) : ValueTag × CString :=
  match afterColon str with
  | none => (.cstring, str)
  | some value =>
    match ValueTag.all.find? fun tag => prefixMatch (starred tag.text) str with
    | some tag => (tag, value)
    | none => (.cstring, str)

/-- `case _value_i32: case _value_i64:` -/
def parseLong (alloc : Bool) (errno : Int32) (tag : ValueTag) (value : CString) :
    Except Errno Value :=
  let r := strtol value.bytes
  -- `errno` may be an old one, and the end of the text is not asked for
  if r.endptr = 0 ∨ (errnoAfter errno r.range = ERANGE.1 ∧
      (r.number = Int64.maxValue ∨ r.number = Int64.minValue)) then .error EINVAL
  else if tag = .i32 ∧ (r.number < -2147483648 ∨ 2147483647 < r.number) then .error EINVAL
  else if tag = .i32 then valueI32 alloc r.number.toInt32
  else valueI64 alloc r.number

/-- `case _value_u32: case _value_u64:` -/
def parseUnsignedLong (alloc : Bool) (errno : Int32) (tag : ValueTag) (value : CString) :
    Except Errno Value :=
  let r := strtoul value.bytes
  if r.endptr = 0 ∨ (errnoAfter errno r.range = ERANGE.1 ∧
      r.number = UInt64.ofNat (2 ^ 64 - 1)) then .error EINVAL
  else if tag = .u32 ∧ 4294967295 < r.number then .error EINVAL
  else if tag = .u32 then valueU32 alloc r.number.toUInt32
  else valueU64 alloc r.number

/-- `case _value_data:` -/
def parseData (a : ParseAlloc) (value : CString) : Except Errno Value :=
  if !a.memory then .error ENOMEM
  else
    let r := hex2mem (value.length / 2) value
    -- what follows the digits is ignored
    if !r.2 then .error EINVAL
    else valueData a.value (UInt32.ofNat r.1.length) r.1

/-- `value_parse`; an error is `NULL` with that `errno`. -/
def valueParse (lib : FloatLib) (a : ParseAlloc) (errno : Int32) (str : CString) :
    Except Errno Value :=
  let (tag, value) := valueTag str
  -- a text of no known tag is a cstring as a whole
  match tag with
  | .i32 | .i64 => parseLong a.value errno tag value
  | .u32 | .u64 => parseUnsignedLong a.value errno tag value
  | .float =>
    let r := lib.strtof value
    if !r.converted ∨ errnoAfter errno r.range = ERANGE.1 then .error EINVAL
    else valueFloat a.value r.number
  | .double =>
    let r := lib.strtod value
    if !r.converted ∨ errnoAfter errno r.range = ERANGE.1 then .error EINVAL
    else valueDouble a.value r.number
  | .data => parseData a value
  | .cstring => valueCstring a.value value

/-! ## Printing -/

/-- `snprintf` of a text into a buffer that held `buffer`. -/
def snprintf (buffer : CString) (length : ℕ) (text : List UInt8) : List UInt8 :=
  if length = 0 then buffer.bytes else text.take (length - 1)

/-- The text of a number of the value's type. -/
def printScalar (lib : FloatLib) (type : ValueType) (bytes : List UInt8) : List UInt8 :=
  if type = ValueType.i32 then decimal (int32Code.decode bytes).toInt
  else if type = ValueType.u32 then decimal (uint32Code.decode bytes).toNat
  else if type = ValueType.i64 then decimal (int64Code.decode bytes).toInt
  else if type = ValueType.u64 then decimal (uint64Code.decode bytes).toNat
  else if type = ValueType.float then (lib.printFloat (uint32Code.decode bytes)).bytes
  else (lib.printDouble (uint64Code.decode bytes)).bytes

/-- The tag of a type, for those that are printed with `"%s"`. -/
def typeText (type : ValueType) : List UInt8 :=
  match ValueTag.all.find? fun tag => tag.type = type with
  | some tag => tag.text.bytes
  | none => []

/-- `"data[%x]:"` -/
def dataText (length : ℕ) : List UInt8 :=
  [100, 97, 116, 97, 91] ++ hexNat length ++ [93, 58]
where
  hexNat (n : ℕ) : List UInt8 :=
    if n = 0 then [48] else (Nat.digits 16 n).reverse.map fun d => dec2hexchar (UInt8.ofNat d) false

/-- `value_fmt` into a buffer of `length` bytes that held `buffer`: the text it holds then. -/
def valueText (lib : FloatLib) (buffer : CString) (length : ℕ) (v : Value) (notype : Bool) :
    Except Fault (List UInt8) :=
  match v.valueFmt with
  | .error e => .error e
  | .ok .nothing => .ok buffer.bytes
  | .ok (.scalar bytes) =>
    .ok (snprintf buffer length
      ((if notype then [] else typeText v.type) ++ printScalar lib v.type bytes))
  | .ok (.hex bytes) =>
    if notype then hexmem length bytes true
    else if length ≤ 16 then .error .assertion
    else (hexmem (length - (dataText bytes.length).length) bytes true).map
      (dataText bytes.length ++ ·)
  | .ok (.text s) =>
    .ok (snprintf buffer length ((if notype then [] else typeText v.type) ++ s.bytes))

/-! ## The tag of a text -/

theorem afterColon_eq {front rest : List UInt8} {s : CString} (hs : s.bytes = front ++ 58 :: rest)
    (hfront : (58 : UInt8) ∉ front) : ∃ value, afterColon s = some value ∧ value.bytes = rest := by
  have hmem : (58 : UInt8) ∈ s.bytes := by
    rw [hs]
    exact List.mem_append_cons_self
  refine ⟨_, if_pos hmem, ?_⟩
  have hall : ∀ b ∈ front, (b != 58) = true := by
    intro b hb
    refine bne_iff_ne.mpr ?_
    rintro rfl
    exact hfront hb
  show (s.bytes.dropWhile (· != 58)).tail = rest
  rw [hs, List.dropWhile_append_of_pos hall, List.dropWhile_cons_of_neg (by simp), List.tail_cons]

namespace ValueTag

/-- A tag has its only colon at its end. -/
theorem text_eq (tag : ValueTag) :
    ∃ front, tag.text.bytes = front ++ [58] ∧ (58 : UInt8) ∉ front ∧ star ∉ tag.text.bytes := by
  cases tag with
  | i32 => exact ⟨[105, 51, 50], rfl, by decide, by decide⟩
  | u32 => exact ⟨[117, 51, 50], rfl, by decide, by decide⟩
  | i64 => exact ⟨[105, 54, 52], rfl, by decide, by decide⟩
  | u64 => exact ⟨[117, 54, 52], rfl, by decide, by decide⟩
  | float => exact ⟨[102, 108, 111, 97, 116], rfl, by decide, by decide⟩
  | double => exact ⟨[100, 111, 117, 98, 108, 101], rfl, by decide, by decide⟩
  | data => exact ⟨[100, 97, 116, 97], rfl, by decide, by decide⟩
  | cstring => exact ⟨[99, 115, 116, 114, 105, 110, 103], rfl, by decide, by decide⟩

theorem mem_all (tag : ValueTag) : tag ∈ all := by
  cases tag <;> decide

/-- A text starts with one tag at most. -/
theorem eq_of_prefix {tag tag' : ValueTag} {s : List UInt8} (h : tag.text.bytes <+: s)
    (h' : tag'.text.bytes <+: s) : tag = tag' := by
  -- of two tags at the start of a text one starts with the other, so they end at the same colon
  have hor := List.prefix_or_prefix_of_prefix h h'
  revert hor
  cases tag <;> cases tag' <;> decide

end ValueTag

/-- A tagged payload. -/
def tagged (tag : ValueTag) (r : CString) : CString := tag.text.append r

/-- The payload begins with a `*`, and goes on. -/
def StartsWithStar (r : CString) : Prop :=
  ∃ c tail, r.bytes = star :: c :: tail

theorem hidesStar_tagged {tag : ValueTag} {r : CString} :
    HidesStar tag.text (tagged tag r) ↔ StartsWithStar r := by
  unfold HidesStar StartsWithStar tagged CString.append
  simp only [List.append_cancel_left_eq]

/-- **The tag of a tagged payload is found, and its payload**, unless the payload hides the `*` of
the pattern; then the whole text is taken for a cstring. -/
theorem valueTag_tagged (tag : ValueTag) (r : CString) :
    (¬StartsWithStar r → valueTag (tagged tag r) = (tag, r)) ∧
      (StartsWithStar r → valueTag (tagged tag r) = (.cstring, tagged tag r)) := by
  have hstarts : tag.text.bytes <+: (tagged tag r).bytes := List.prefix_append _ _
  obtain ⟨front, htext, hfront, -⟩ := tag.text_eq
  have hcolon : afterColon (tagged tag r) = some r := by
    have hbytes : (tagged tag r).bytes = front ++ 58 :: r.bytes := by
      show tag.text.bytes ++ r.bytes = _
      rw [htext, List.append_assoc]
      rfl
    obtain ⟨value, hvalue, heq⟩ := afterColon_eq hbytes hfront
    rw [hvalue, CString.ext heq]
  -- no other tag is recognised
  have hmatch : ∀ tag', prefixMatch (starred tag'.text) (tagged tag r) = true →
      tag' = tag ∧ ¬StartsWithStar r := by
    intro tag' h
    obtain ⟨-, -, -, hstar⟩ := tag'.text_eq
    obtain ⟨hstarts', hhides⟩ := (prefixMatch_starred hstar).mp h
    obtain rfl := ValueTag.eq_of_prefix hstarts' hstarts
    exact ⟨rfl, fun hr => hhides (hidesStar_tagged.mpr hr)⟩
  constructor
  · intro hr
    obtain ⟨-, -, -, hstar⟩ := tag.text_eq
    have hself : prefixMatch (starred tag.text) (tagged tag r) = true :=
      (prefixMatch_starred hstar).mpr ⟨hstarts, fun h => hr (hidesStar_tagged.mp h)⟩
    have hfind : (ValueTag.all.find? fun tag' => prefixMatch (starred tag'.text) (tagged tag r)) =
        some tag := by
      cases hfound : ValueTag.all.find? fun tag' =>
          prefixMatch (starred tag'.text) (tagged tag r) with
      | none => exact absurd hself (List.find?_eq_none.mp hfound tag tag.mem_all)
      | some tag' =>
        have hp := List.find?_some hfound
        rw [(hmatch tag' hp).1]
    rw [valueTag, hcolon, hfind]
  · intro hr
    have hfind : (ValueTag.all.find? fun tag' => prefixMatch (starred tag'.text) (tagged tag r)) =
        none := by
      refine List.find?_eq_none.mpr fun tag' _ h => ?_
      exact (hmatch tag' h).2 hr
    rw [valueTag, hcolon, hfind]

/-- A text without a tag is a cstring. -/
theorem valueTag_untagged {s : CString} (h : ∀ tag : ValueTag, ¬tag.text.bytes <+: s.bytes) :
    valueTag s = (.cstring, s) := by
  have hfind : (ValueTag.all.find? fun tag => prefixMatch (starred tag.text) s) = none := by
    refine List.find?_eq_none.mpr fun tag _ hmatch => ?_
    obtain ⟨-, -, -, hstar⟩ := tag.text_eq
    exact h tag ((prefixMatch_starred hstar).mp hmatch).1
  unfold valueTag
  rw [hfind]
  cases afterColon s with
  | none => rfl
  | some value => rfl

end Propd
