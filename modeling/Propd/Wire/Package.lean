import Propd.Core.Io
import Propd.Lib.Bytes

/-!
# The packages of the io connection

What a client of the io server writes to its connection and what it gets back, as bytes.
A request is an `io_package_t`, with the data of the value behind it where it sets one.
The answer to a get is the duration, the value and the result, the answer to a set or del
is the result.

The structures are packed and the numbers are little-endian.

The worker reads the key from a field of the package and may read a different one than the
client wrote; `WireRequest.asRead` is the request it makes of the package.
-/

namespace Propd

open Lib

/-- `value_t`, less its data. -/
structure ValueHead where
  type : ValueType
  length : UInt32
  deriving DecidableEq

/-- The head of a value. -/
def Value.head (v : Value) : ValueHead :=
  ⟨v.type, UInt32.ofNat v.length⟩

/-- `{.type = _value_undef, .length = 0}` -/
def ValueHead.undef : ValueHead :=
  ⟨ValueType.undef, 0⟩

/-- The value a server sends when it has none. -/
def Value.undef : Value := ⟨ValueType.undef, [], by decide⟩

@[simp] theorem Value.head_length (v : Value) : v.head.length.toNat = v.data.length :=
  UInt32.toNat_ofNat_of_lt' v.length_lt

/-- The five bytes of a `value_t`. -/
def valueHeadCode : FixedCode ValueHead where
  width := 5
  encode h := byteCode.encode h.type ++ uint32Code.encode h.length
  decode bs := ⟨byteCode.decode bs, uint32Code.decode (bs.drop 1)⟩
  length_encode h := by
    rw [List.length_append, byteCode.length_encode, uint32Code.length_encode]
    rfl
  decode_encode h := by
    have hdrop : (byteCode.encode h.type ++ uint32Code.encode h.length).drop 1 =
        uint32Code.encode h.length := rfl
    rw [hdrop, uint32Code.decode_encode]
    rfl

/-- What is sent for a value. -/
def Value.encode (v : Value) : List UInt8 :=
  valueHeadCode.encode v.head ++ v.data

/-- A value is read by its head first: what comes behind it on a stream is what remains. -/
theorem Value.encode_inj {u v : Value} {b rest tail : List UInt8}
    (hb : b.length = valueHeadCode.width) (hv : v.head = valueHeadCode.decode b)
    (h : b ++ (v.data ++ rest) = u.encode ++ tail) : v = u ∧ rest = tail := by
  rw [encode, List.append_assoc] at h
  obtain ⟨hhead, hrest⟩ := valueHeadCode.decode_of_append hb h
  have heq : v.head = u.head := hv.trans hhead
  have hlen : v.data.length = u.data.length := by
    rw [← v.head_length, ← u.head_length, heq]
  obtain ⟨hdata, htail⟩ := List.append_inj hrest hlen
  exact ⟨Value.ext (congrArg ValueHead.type heq) hdata, htail⟩

/-! ## Requests -/

/-- A request with its key. -/
structure WireRequest where
  req : IoRequest
  key : CString
  deriving DecidableEq

/-! `io_type_t` -/

namespace IoType

def get : UInt8 := 0
def set : UInt8 := 1
def del : UInt8 := 2

end IoType

/-- The type byte of a request. -/
def IoRequest.type : IoRequest → UInt8
  | get => IoType.get
  | set _ => IoType.set
  | del => IoType.del

/-- The value `io_begin` is called with. -/
def IoRequest.value : IoRequest → Option Value
  | set v => some v
  | get | del => none

/-- A set of a value without data. -/
def IoRequest.setsEmpty (req : IoRequest) : Bool :=
  req.value.any fun v => v.data.isEmpty

/-- The type byte tells a get from a del. -/
theorem IoRequest.eq_of_type {req req' : IoRequest} (hvalue : req'.value = none)
    (h : req.type = req'.type) : req = req' := by
  cases req' with
  | set v => cases hvalue
  | get =>
    cases req with
    | get => rfl
    | set v => exact absurd h (show IoType.set ≠ IoType.get by decide)
    | del => exact absurd h (by decide)
  | del =>
    cases req with
    | get => exact absurd h (by decide)
    | set v => exact absurd h (show IoType.set ≠ IoType.del by decide)
    | del => rfl

theorem IoRequest.eq_set_of_type {req : IoRequest} (h : req.type = IoType.set) :
    ∃ v, req = .set v := by
  cases req with
  | get => exact absurd h (by decide)
  | set v => exact ⟨v, rfl⟩
  | del => exact absurd h (by decide)

/-- The head `io_begin` puts into the package. -/
def IoRequest.head (req : IoRequest) : ValueHead :=
  match req.value with
  | none => .undef
  | some v => v.head

/-- What `io_begin` sends behind the package. -/
def IoRequest.data (req : IoRequest) : List UInt8 :=
  match req.value with
  | some v => v.data
  | none => []

/-- `sizeof(io_package_t)` -/
def sizeofIoPackage : ℕ := 1 + 8 + NAME_MAX + 5

/-- The `io_package_t` of `io_begin`. -/
def ioPackage (r : WireRequest) (created : Timestamp) : List UInt8 :=
  byteCode.encode r.req.type ++ (int64Code.encode created ++
    (strncpy r.key NAME_MAX ++ valueHeadCode.encode r.req.head))

namespace IoPackage

/-! A package as the server reads it, from the bytes of its `pkg_head`. The key is read as a
string: where its field has no NUL, reading goes on in the head of the value. -/

def type (pkg : List UInt8) : UInt8 :=
  byteCode.decode pkg

def key (pkg : List UInt8) : Option CString :=
  CString.ofBuffer (pkg.drop (1 + 8))

def value (pkg : List UInt8) : ValueHead :=
  valueHeadCode.decode (pkg.drop (1 + 8 + NAME_MAX))

end IoPackage

variable {r : WireRequest} {created : Timestamp}

theorem ioPackage_length : (ioPackage r created).length = sizeofIoPackage := by
  simp only [ioPackage, List.length_append, byteCode.length_encode, int64Code.length_encode,
    valueHeadCode.length_encode, length_strncpy]
  rfl

theorem ioPackage_type : IoPackage.type (ioPackage r created) = r.req.type :=
  rfl

theorem ioPackage_drop : (ioPackage r created).drop (1 + 8) =
    strncpy r.key NAME_MAX ++ valueHeadCode.encode r.req.head := by
  have hlen : (byteCode.encode r.req.type ++ int64Code.encode created).length = 1 + 8 := by
    rw [List.length_append, byteCode.length_encode, int64Code.length_encode]
    rfl
  rw [ioPackage, ← List.append_assoc, List.drop_left' hlen]

theorem ioPackage_value : IoPackage.value (ioPackage r created) = r.req.head := by
  rw [IoPackage.value, ← List.drop_drop, ioPackage_drop, List.drop_left' (length_strncpy _ _),
    valueHeadCode.decode_encode]

/-! ## The request the worker reads -/

/-- The key is read from its field and the head of the value behind it. -/
theorem ioPackage_key_eq (r : WireRequest) (created : Timestamp) :
    IoPackage.key (ioPackage r created) =
      CString.ofBuffer (strncpy r.key NAME_MAX ++ valueHeadCode.encode r.req.head) := by
  rw [IoPackage.key, ioPackage_drop]

namespace WireRequest

/-- The request that the worker reads from the package of `r`: the same operation and value, with
the key it finds. `none` where the key has no end in the package. -/
def asRead (r : WireRequest) : Option WireRequest :=
  (IoPackage.key (ioPackage r 0)).map fun key => ⟨r.req, key⟩

/-- The key arrives as it is: it is shorter than its field, or what is missing of it in the
field is what the head of the value spells, up to its first NUL. -/
def KeyIntact (r : WireRequest) : Prop :=
  r.key.length < NAME_MAX ∨
    ∃ tail, CString.ofBuffer (valueHeadCode.encode r.req.head) = some tail ∧
      r.key.bytes.drop NAME_MAX = tail.bytes

/-- A key shorter than its field is read as it is. -/
theorem asRead_of_lt (h : r.key.length < NAME_MAX) : r.asRead = some r := by
  rw [asRead, ioPackage_key_eq, strncpy_of_lt h, List.append_assoc, List.cons_append,
    CString.ofBuffer_append]
  rfl

/-- Of a longer one the first bytes are read, and then the head of the value. -/
theorem asRead_of_le (h : NAME_MAX ≤ r.key.length) :
    r.asRead = (CString.ofBuffer (valueHeadCode.encode r.req.head)).map fun tail =>
      ⟨r.req, (r.key.take NAME_MAX).append tail⟩ := by
  rw [asRead, ioPackage_key_eq, strncpy_of_le h, CString.ofBuffer_append_left, Option.map_map]
  rfl

/-- What the worker reads is the package of the request it makes of it: to the worker the two
requests are the same. -/
theorem asRead_package {r r' : WireRequest} (h : r.asRead = some r') (created : Timestamp) :
    ioPackage r' created = ioPackage r created ∧ r'.req = r.req := by
  rcases Nat.lt_or_ge r.key.length NAME_MAX with hlt | hge
  · rw [asRead_of_lt hlt] at h
    cases h
    exact ⟨rfl, rfl⟩
  · rw [asRead_of_le hge] at h
    obtain ⟨tail, -, rfl⟩ := Option.map_eq_some_iff.mp h
    refine ⟨?_, rfl⟩
    have hfront : (r.key.take NAME_MAX).bytes.length = NAME_MAX := List.length_take_of_le hge
    -- the field is full with the first bytes, so what follows them does not show
    have hfield : strncpy ((r.key.take NAME_MAX).append tail) NAME_MAX = strncpy r.key NAME_MAX := by
      rw [strncpy_of_le hge, strncpy, CString.append, List.append_assoc, List.take_left' hfront]
    rw [ioPackage, ioPackage, hfield]

/-- The worker reads the request it has read once more. -/
theorem asRead_reads {r r' : WireRequest} (h : r.asRead = some r') (created : Timestamp) :
    IoPackage.key (ioPackage r' created) = some r'.key := by
  obtain ⟨key, hkey, rfl⟩ := Option.map_eq_some_iff.mp h
  rw [(asRead_package h created).1, ioPackage_key_eq, ← ioPackage_key_eq r 0, hkey]

/-- **The worker reads the request that was sent** exactly where its key is intact. -/
theorem asRead_iff : r.asRead = some r ↔ r.KeyIntact := by
  rcases Nat.lt_or_ge r.key.length NAME_MAX with hlt | hge
  · exact iff_of_true (asRead_of_lt hlt) (.inl hlt)
  · rw [asRead_of_le hge, Option.map_eq_some_iff]
    have hkey : r.key.bytes = (r.key.take NAME_MAX).bytes ++ r.key.bytes.drop NAME_MAX :=
      (List.take_append_drop NAME_MAX r.key.bytes).symm
    constructor
    · rintro ⟨tail, htail, heq⟩
      refine .inr ⟨tail, htail, ?_⟩
      have hbytes : (r.key.take NAME_MAX).bytes ++ tail.bytes = r.key.bytes :=
        congrArg (fun r : WireRequest => r.key.bytes) heq
      rw [hkey] at hbytes
      exact (List.append_cancel_left hbytes).symm
    · rintro (hlt | ⟨tail, htail, heq⟩)
      · exact absurd hge (Nat.not_le.mpr hlt)
      · refine ⟨tail, htail, ?_⟩
        have hbytes : (r.key.take NAME_MAX).append tail = r.key := by
          refine CString.ext ?_
          rw [hkey, heq]
          rfl
        rw [hbytes]

instance (r : WireRequest) : Decidable r.KeyIntact :=
  decidable_of_iff (r.asRead = some r) asRead_iff

/-- **Keys that arrive address the same server key** exactly where they are the same key, whatever
the operations are. -/
theorem KeyIntact.asRead_key_iff {r₁ r₂ : WireRequest} (h₁ : r₁.KeyIntact) (h₂ : r₂.KeyIntact) :
    r₁.asRead.map WireRequest.key = r₂.asRead.map WireRequest.key ↔ r₁.key = r₂.key := by
  rw [asRead_iff.mpr h₁, asRead_iff.mpr h₂]
  exact Option.some_inj

end WireRequest

/-! ## Replies -/

/-- The duration the server sends for what `io_get` returned. -/
def replyDuration : IoResult → Timestamp
  | .ok (some (_, duration)) => duration
  | _ => 0

/-- The value it sends, an undefined one for an error. -/
def replyValue : IoResult → Value
  | .error _ => .undef
  | .ok none => .undef
  | .ok (some (value, _)) => value

/-- Everything the server sends for what an io function returned. -/
def replyBytes (req : IoRequest) (r : IoResult) : List UInt8 :=
  match req with
  | .get =>
    int64Code.encode (replyDuration r) ++
      ((replyValue r).encode ++ int32Code.encode (retOf r))
  | .set _ | .del => int32Code.encode (retOf r)

end Propd
