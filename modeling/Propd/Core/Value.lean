import Propd.Core.Types

/-!
# Values

`value_t`: a type byte, a 32-bit length and that many bytes of data. The type
byte is whatever a `uint8_t` can hold; only the eight types of the enumeration
have a meaning.

`valueTo` and `valueFmt` are modelled with their memory accesses: `valueTo`
copies `length` bytes into a destination of the size of the C type, and the `%s`
conversion reads the data up to a NUL. `WellFormed` is what they rely on.
-/

namespace Propd

/-- The type byte of a value. -/
abbrev ValueType := UInt8

namespace ValueType

def undef : ValueType := 0
def data : ValueType := 1
def cstring : ValueType := 2
def i32 : ValueType := 3
def u32 : ValueType := 4
def i64 : ValueType := 5
def u64 : ValueType := 6
def float : ValueType := 7
def double : ValueType := 8

/-- The size of the C type a scalar value holds, `none` for the other types. -/
def scalarSize (type : ValueType) : Option ℕ :=
  if type = i32 ∨ type = u32 ∨ type = float then some 4
  else if type = i64 ∨ type = u64 ∨ type = double then some 8
  else none

end ValueType

/-- `value_t`: the length field is the length of the data. -/
structure Value where
  type : ValueType
  data : List UInt8
  length_lt : data.length < 2 ^ 32
  deriving DecidableEq

namespace Value

def length (v : Value) : ℕ := v.data.length

@[ext] theorem ext {v v' : Value} (htype : v.type = v'.type) (hdata : v.data = v'.data) :
    v = v' := by
  cases v
  cases v'
  cases htype
  cases hdata
  rfl

/-- A scalar has the size of its C type, and a cstring has a NUL in its data. -/
def WellFormed (v : Value) : Prop :=
  (∀ n ∈ v.type.scalarSize, v.length = n) ∧
    (v.type = ValueType.cstring → (0 : UInt8) ∈ v.data)

instance (v : Value) : Decidable v.WellFormed :=
  inferInstanceAs (Decidable (_ ∧ _))

/-- `value_to_<typ>`, of a C type of `size` bytes: `memcpy` into a local variable.
The result is what is copied, and a fault where that is not the whole variable
(bytes past it are overwritten, or bytes of it are left unset). -/
def valueTo (typ : ValueType) (size : ℕ) (v : Value) : Except Fault (List UInt8) :=
  if v.type ≠ typ then .error .assertion
  else if v.length ≠ size then .error .outOfBounds
  else .ok v.data

/-- What the `%s` conversion reads: the data up to its first NUL. -/
def readCString (v : Value) : Except Fault CString :=
  match CString.ofBuffer v.data with
  | some s => .ok s
  | none => .error .outOfBounds

/-- What `value_fmt` reads of a value. -/
inductive Formatted
  | nothing
  | scalar (bytes : List UInt8)
  | hex (bytes : List UInt8)
  | text (s : CString)
  deriving DecidableEq

/-- `value_fmt`: what the chosen conversion reads of the value. -/
def valueFmt (v : Value) : Except Fault Formatted :=
  if v.type = ValueType.i32 then .scalar <$> v.valueTo ValueType.i32 4
  else if v.type = ValueType.u32 then .scalar <$> v.valueTo ValueType.u32 4
  else if v.type = ValueType.i64 then .scalar <$> v.valueTo ValueType.i64 8
  else if v.type = ValueType.u64 then .scalar <$> v.valueTo ValueType.u64 8
  else if v.type = ValueType.float then .scalar <$> v.valueTo ValueType.float 4
  else if v.type = ValueType.double then .scalar <$> v.valueTo ValueType.double 8
  else if v.type = ValueType.data then .ok (.hex v.data)
  else if v.type = ValueType.cstring then .text <$> v.readCString
  else .ok .nothing

/-! ## What the functions rely on -/

/-- A conversion copies the whole variable exactly where the length is its size. -/
theorem valueTo_ok {v : Value} {typ : ValueType} {size : ℕ} (htype : v.type = typ) :
    v.valueTo typ size = .ok v.data ↔ v.length = size := by
  unfold valueTo
  rw [if_neg (not_not.mpr htype)]
  by_cases hlen : v.length = size
  · rw [if_neg (not_not.mpr hlen)]
    exact iff_of_true rfl hlen
  · rw [if_pos hlen]
    exact iff_of_false nofun hlen

/-- A scalar is formatted exactly where its conversion is right. -/
theorem map_valueTo_ok {v : Value} {typ : ValueType} {size : ℕ} (htype : v.type = typ) :
    (∃ f, Formatted.scalar <$> v.valueTo typ size = .ok f) ↔ v.length = size := by
  rw [← valueTo_ok htype]
  constructor
  · rintro ⟨f, hf⟩
    obtain ⟨bytes, hto, -⟩ := exceptMap_ok hf
    -- whatever it copies, it is all of the data
    unfold valueTo at hto ⊢
    split at hto
    · cases hto
    · rename_i hne
      split at hto
      · cases hto
      · rename_i hlen
        rw [if_neg hne, if_neg hlen]
  · intro hto
    exact ⟨.scalar v.data, by rw [hto]; rfl⟩

/-- The `%s` conversion stays inside the data exactly where there is a NUL in it. -/
theorem map_readCString_ok {v : Value} :
    (∃ f, Formatted.text <$> v.readCString = .ok f) ↔ (0 : UInt8) ∈ v.data := by
  unfold readCString CString.ofBuffer
  by_cases hnul : (0 : UInt8) ∈ v.data
  · simp only [hnul, if_true, iff_true]
    exact ⟨_, rfl⟩
  · simp only [hnul, if_false, iff_false]
    rintro ⟨f, hf⟩
    cases hf

/-- **`value_fmt` is safe on exactly the well formed values.** -/
theorem wellFormed_iff_valueFmt {v : Value} : v.WellFormed ↔ ∃ f, v.valueFmt = .ok f := by
  -- for a scalar type only the length counts
  have hscalar : ∀ {typ : ValueType} {size : ℕ}, v.type = typ → typ.scalarSize = some size →
      typ ≠ ValueType.cstring →
        (v.WellFormed ↔ ∃ f, Formatted.scalar <$> v.valueTo typ size = .ok f) := by
    rintro typ size rfl hsize hne
    rw [map_valueTo_ok rfl, WellFormed, hsize]
    simp [hne]
  -- the six scalar types, in the order of the source
  unfold valueFmt
  split
  · exact hscalar ‹_› rfl (by decide)
  split
  · exact hscalar ‹_› rfl (by decide)
  split
  · exact hscalar ‹_› rfl (by decide)
  split
  · exact hscalar ‹_› rfl (by decide)
  split
  · exact hscalar ‹_› rfl (by decide)
  split
  · exact hscalar ‹_› rfl (by decide)
  -- the types that are left have no size
  rename_i hi32 hu32 hi64 hu64 hfloat hdouble
  have hnone : v.type.scalarSize = none := by
    simp [ValueType.scalarSize, hi32, hu32, hi64, hu64, hfloat, hdouble]
  have hiff : v.WellFormed ↔ (v.type = ValueType.cstring → (0 : UInt8) ∈ v.data) := by
    rw [WellFormed, hnone]
    simp
  rw [hiff]
  split
  · rename_i h
    -- data of any length is printed byte by byte
    refine iff_of_true (fun hc => ?_) ⟨_, rfl⟩
    rw [h] at hc
    exact absurd hc (by decide)
  split
  · rename_i h
    -- a cstring is read up to its NUL
    rw [map_readCString_ok]
    simp [h]
  · rename_i h
    -- any other type prints nothing
    exact iff_of_true (fun hc => absurd hc h) ⟨_, rfl⟩

/-- The one fault of `value_fmt`: a conversion copies too much or too little, or runs past the
data. -/
theorem valueFmt_fault {v : Value} {e : Fault} (h : v.valueFmt = .error e) : e = .outOfBounds := by
  have hscalar : ∀ {typ : ValueType} {size : ℕ}, v.type = typ →
      Formatted.scalar <$> v.valueTo typ size = .error e → e = .outOfBounds := by
    intro typ size htype hto
    rw [valueTo, if_neg (not_not.mpr htype)] at hto
    split at hto
    · exact (Except.error.inj hto).symm
    · cases hto
  -- the six scalar types, in the order of the source
  unfold valueFmt at h
  split at h
  · exact hscalar ‹_› h
  split at h
  · exact hscalar ‹_› h
  split at h
  · exact hscalar ‹_› h
  split at h
  · exact hscalar ‹_› h
  split at h
  · exact hscalar ‹_› h
  split at h
  · exact hscalar ‹_› h
  split at h
  · cases h
  split at h
  · -- the `%s` conversion
    unfold readCString at h
    split at h
    · cases h
    · exact (Except.error.inj h).symm
  · cases h

end Value

section Example

def exampleKey : CString := ⟨[107], by decide⟩

/-- The name of the storages of the examples. -/
def exampleName : CString := ⟨[110], by decide⟩

/-- A pattern every key matches. -/
def exampleAny : CString := ⟨[42], by decide⟩

/-- The name under which a node is registered. -/
def exampleListener : CString := ⟨[99], by decide⟩

def exampleValue : Value := ⟨ValueType.u32, [1, 0, 0, 0], by decide⟩

end Example

end Propd
