import Propd.Core.Storage
import Propd.Memio.Layout

/-!
# The storage of a mapped memory

`memory_get` reads a position of the memory that `constructor_memory` has mapped. A position of at
most four bytes becomes a `u32`, a longer one is copied as it is.

The block `malloc` returns and the variable that `value_to_u32` copies into have had some contents
before; both are inputs here.
-/

namespace Propd

open Lib

/-- `priv_t`. At least the bytes of the layout are mapped. -/
structure MemoryPriv where
  layout : Layout
  base : List UInt8
  mapped : (layoutLength layout).toNat ≤ base.length

/-- The value of a position with these data. The data of a block stop at its length. -/
def posValue (pos : Pos) (data : List UInt8) : Value where
  type := if 4 < pos.length then ValueType.data else ValueType.u32
  data := data.take pos.length.toNat
  length_lt := (List.length_take_le _ _).trans_lt pos.length.toNat_lt

/-- `memory_get`, with the contents of the block that `malloc` returns. The status of `pos_read` is
not looked at. -/
def memoryGet (priv : MemoryPriv) (key : CString) (alloc : Bool) (heap : ℕ → UInt8) :
    Except Fault GetResult :=
  match posSearchByName priv.layout key with
  | .error f => .error f
  | .ok none => .ok (.error ENOENT)
  | .ok (some pos) =>
    if !alloc then .ok (.error ENOMEM)
    else
      match posRead pos priv.base ((List.range pos.length.toNat).map heap) with
      | .error f => .error f
      -- on a failure the value is what was on the heap
      | .ok (data, _) => .ok (.ok (posValue pos data, DURATION_INF))

/-- `value_to_u32`, with what is in the variable before the copy. -/
def valueToU32 (n : UInt32) (v : Value) : Except Fault UInt32 :=
  if v.type ≠ ValueType.u32 then .error .assertion
  else if 4 < v.length then .error .outOfBounds
  else .ok (uint32Code.decode (v.data ++ (uint32Code.encode n).drop v.length))

/-- A value of the right size replaces all of the variable. -/
theorem valueToU32_eq {v : Value} (htype : v.type = ValueType.u32) (hlen : v.length = 4)
    (n : UInt32) : valueToU32 n v = .ok (uint32Code.decode v.data) := by
  have hdrop : (uint32Code.encode n).drop v.length = [] :=
    List.drop_eq_nil_of_le (by rw [uint32Code.length_encode, hlen]; rfl)
  unfold valueToU32
  rw [if_neg (not_not.mpr htype), if_neg (by omega), hdrop, List.append_nil]

/-- A shorter one leaves the end of it, which makes the number larger than all the values it can
have. -/
theorem valueToU32_short {v : Value} (htype : v.type = ValueType.u32) (hlen : v.length < 4) :
    ∃ n, valueToU32 4294967295 v = .ok n ∧ 256 ^ v.length ≤ n.toNat := by
  have hones : uint32Code.encode 4294967295 = List.replicate 4 255 := by decide
  obtain ⟨m, hm⟩ := Nat.exists_eq_add_of_lt hlen
  have hrest : (uint32Code.encode 4294967295).drop v.length = 255 :: List.replicate m 255 := by
    rw [hones, List.drop_replicate, ← List.replicate_succ]
    congr 1
    omega
  have hfour : (v.data ++ 255 :: List.replicate m 255).length ≤ 4 := by
    have hdata : v.data.length = v.length := rfl
    rw [List.length_append, List.length_cons, List.length_replicate, hdata]
    omega
  refine ⟨uint32Code.decode (v.data ++ 255 :: List.replicate m 255), ?_, ?_⟩
  · unfold valueToU32
    rw [if_neg (not_not.mpr htype), if_neg (by omega), hrest]
  · -- the bytes that are left count as multiples of the next power of 256
    have hbyte : 1 ≤ ofLE (255 :: List.replicate m 255) := by
      rw [ofLE]
      exact Nat.le_add_right_of_le (by decide)
    rw [toNat_uint32Code_decode hfour, ofLE_append]
    exact (Nat.le_mul_of_pos_right _ hbyte).trans (Nat.le_add_left _ _)

/-! ## What a get returns -/

section Get

variable (priv : MemoryPriv) (alloc : Bool) (key : CString) (pos : Pos)

/-- A get returns a `u32` that is the field from bit `s` on. -/
def GetsField (s : ℕ) : Prop :=
  ∀ (heap : ℕ → UInt8) (stack : UInt32), ∃ v duration,
    memoryGet priv key alloc heap = .ok (.ok (v, duration)) ∧ v.type = ValueType.u32 ∧
      UInt32.toNat <$> valueToU32 stack v =
        .ok ((ofLE (pos.bytes priv.base) &&& pos.mask.toNat) >>> s)

/-- A get returns data that are the bytes of the position. -/
def GetsBytes : Prop :=
  ∀ heap : ℕ → UInt8, ∃ v duration,
    memoryGet priv key alloc heap = .ok (.ok (v, duration)) ∧ v.type = ValueType.data ∧
      v.data = pos.bytes priv.base ∧ v.length = pos.length.toNat

/-- A get returns what the position is: its field, or its bytes. -/
structure GetsPosition : Prop where
  field : ∀ s k, pos.IsField s k → GetsField priv alloc key pos s
  bytes : 4 < pos.length.toNat → GetsBytes priv alloc key pos

end Get

section Results

variable {priv : MemoryPriv} {alloc : Bool} {key : CString} {pos : Pos} {i : ℕ}

/-- **A get returns a value exactly for a key that is found**, with memory for the value and memory
to read it from. -/
theorem memoryGet_ok {heap : ℕ → UInt8} {v : Value} {duration : Timestamp}
    (hkey : IsNamed priv.layout key i pos)
    (h : memoryGet priv key alloc heap = .ok (.ok (v, duration))) :
    alloc = true ∧ i < lstReach ∧
      ∃ data ret, posRead pos priv.base ((List.range pos.length.toNat).map heap) = .ok (data, ret) ∧
        v = posValue pos data := by
  unfold memoryGet at h
  rw [posSearchByName_eq hkey] at h
  by_cases hreach : i < lstReach
  · rw [if_pos hreach] at h
    cases alloc with
    | false => cases h
    | true =>
      simp only [Bool.not_true, Bool.false_eq_true, if_false] at h
      split at h
      · cases h
      · rename_i data ret hread
        cases h
        exact ⟨rfl, hreach, data, ret, hread, rfl⟩
  · rw [if_neg hreach] at h
    cases h

theorem memoryGet_eq {heap : ℕ → UInt8} {data : List UInt8} {ret : Except Errno Unit}
    (hkey : IsNamed priv.layout key i pos) (hreach : i < lstReach)
    (hread : posRead pos priv.base ((List.range pos.length.toNat).map heap) = .ok (data, ret)) :
    memoryGet priv key true heap = .ok (.ok (posValue pos data, DURATION_INF)) := by
  unfold memoryGet
  rw [posSearchByName_eq hkey, if_pos hreach]
  simp only [Bool.not_true, Bool.false_eq_true, if_false]
  rw [hread]

theorem length_heap (heap : ℕ → UInt8) (n : ℕ) : ((List.range n).map heap).length = n := by
  rw [List.length_map, List.length_range]

/-- The data of the value are what is in the block. -/
theorem posValue_data {data : List UInt8} (h : data.length = pos.length.toNat) :
    (posValue pos data).data = data := by
  exact List.take_of_length_le h.le

/-- **A get of a longer position returns its bytes.** -/
theorem getsBytes_iff (hkey : IsNamed priv.layout key i pos) (hlong : 4 < pos.length.toNat) :
    GetsBytes priv alloc key pos ↔ alloc = true ∧ i < lstReach ∧
      pos.offset.toNat + pos.length.toNat ≤ priv.base.length := by
  constructor
  · intro h
    obtain ⟨v, duration, hget, -, hdata, hlen⟩ := h fun _ => 0
    obtain ⟨halloc, hreach, data, ret, hread, rfl⟩ := memoryGet_ok hkey hget
    refine ⟨halloc, hreach, Nat.le_of_not_lt fun hout => ?_⟩
    -- bytes that are missing are missing in the value
    have hwhole : (pos.bytes priv.base).length = pos.length.toNat := hdata ▸ hlen
    rw [Pos.bytes, List.length_take, List.length_drop] at hwhole
    omega
  · rintro ⟨rfl, hreach, hin⟩ heap
    have hread := posRead_bytes hlong hin (length_heap heap _)
    have hdata := posValue_data (length_posBytes hin)
    refine ⟨_, _, memoryGet_eq hkey hreach hread, if_pos hlong, hdata, ?_⟩
    rw [Value.length, hdata, length_posBytes hin]

/-- **A get of a field returns it exactly where the position has four bytes.** With fewer the value
is shorter than the integer it is read into. -/
theorem getsField_iff {s k : ℕ} (hkey : IsNamed priv.layout key i pos) (hfield : pos.IsField s k) :
    GetsField priv alloc key pos s ↔ alloc = true ∧ i < lstReach ∧
      pos.offset.toNat + pos.length.toNat ≤ priv.base.length ∧ 4 ≤ pos.length.toNat := by
  have hshort : ¬ 4 < pos.length := Nat.not_lt.mpr hfield.short
  have hfits : ∀ heap : ℕ → UInt8,
      maskLength pos.mask ≤ ((List.range pos.length.toNat).map heap).length := fun heap => by
    rw [length_heap]
    exact maskLength_le hfield.one_le_length hfield.mask_lt
  constructor
  · intro h
    obtain ⟨v, duration, hget, htype, hvalue⟩ := h (fun _ => 0) 4294967295
    obtain ⟨halloc, hreach, data, ret, hread, rfl⟩ := memoryGet_ok hkey hget
    refine ⟨halloc, hreach, Nat.le_of_not_lt fun hout => ?_, Nat.le_of_not_lt fun hlt => ?_⟩
    · rw [posRead_fault hout (fun _ => hfits _) (length_heap _ _)] at hread
      cases hread
    · -- the ones of the stack are more than a field of so few bytes
      have hlen : (posValue pos data).length = pos.length.toNat := by
        rw [Value.length, posValue_data] <;> rw [length_posRead hread, length_heap]
      obtain ⟨n, hn, hle⟩ := valueToU32_short htype (hlen ▸ hlt)
      rw [hn] at hvalue
      have heq : n.toNat = (ofLE (pos.bytes priv.base) &&& pos.mask.toNat) >>> s :=
        Except.ok.inj hvalue
      have hfieldlt := hfield.field_lt (ofLE (pos.bytes priv.base))
      rw [hlen] at hle
      omega
  · rintro ⟨rfl, hreach, hin, hfour⟩ heap stack
    -- the value is the field in four bytes, which are all of the integer
    have hlen : pos.length.toNat = 4 := le_antisymm hfield.short hfour
    have hread := posRead_field hfield hin (hfits heap)
    have hdata := posValue_data ((length_posRead hread).trans (length_heap heap _))
    have htype : (posValue pos (toLE ((List.range pos.length.toNat).map heap).length
        ((ofLE (pos.bytes priv.base) &&& pos.mask.toNat) >>> s))).type = ValueType.u32 :=
      if_neg hshort
    refine ⟨_, _, memoryGet_eq hkey hreach hread, htype, ?_⟩
    have hlength : ((List.range pos.length.toNat).map heap).length = 4 := by
      rw [length_heap, hlen]
    have hvlen : (posValue pos (toLE ((List.range pos.length.toNat).map heap).length
        ((ofLE (pos.bytes priv.base) &&& pos.mask.toNat) >>> s))).length = 4 := by
      rw [Value.length, hdata, length_toLE, hlength]
    have hlt := hfield.field_lt (ofLE (pos.bytes priv.base))
    rw [hlen] at hlt
    rw [valueToU32_eq htype hvlen, hdata, hlength]
    refine congrArg Except.ok ?_
    rw [toNat_uint32Code_decode (length_toLE 4 _).le, ofLE_toLE_of_lt hlt]

/-- **A get returns the position it names exactly where** it has at least four bytes, all of them
mapped, the search gets to it, and there is memory for the value. -/
theorem memoryGet_exact_iff (hkey : IsNamed priv.layout key i pos)
    (hpos : (∃ s k, pos.IsField s k) ∨ 4 < pos.length.toNat) :
    GetsPosition priv alloc key pos ↔ alloc = true ∧ i < lstReach ∧
      pos.offset.toNat + pos.length.toNat ≤ priv.base.length ∧ 4 ≤ pos.length.toNat := by
  constructor
  · intro h
    rcases hpos with ⟨s, k, hfield⟩ | hlong
    · exact (getsField_iff hkey hfield).mp (h.field s k hfield)
    · obtain ⟨halloc, hreach, hin⟩ := (getsBytes_iff hkey hlong).mp (h.bytes hlong)
      exact ⟨halloc, hreach, hin, hlong.le⟩
  · rintro ⟨halloc, hreach, hin, hfour⟩
    exact
      { field := fun s k hfield => (getsField_iff hkey hfield).mpr ⟨halloc, hreach, hin, hfour⟩
        bytes := fun hlong => (getsBytes_iff hkey hlong).mpr ⟨halloc, hreach, hin⟩ }

end Results

section Example

/-- Bits 8 to 15 of an integer of four bytes. -/
def exampleWord : Pos := ⟨exampleKey, 0, 4, 0xFF00⟩

def exampleWordPriv : MemoryPriv := ⟨[exampleWord], [0x78, 0x56, 0x34, 0x12], by decide⟩

/-- A byte. -/
def exampleByte : Pos := ⟨exampleKey, 0, 1, 0xFF⟩

def exampleBytePriv : MemoryPriv := ⟨[exampleByte], [5], by decide⟩

/-- The only position of a layout is its first. -/
theorem isNamed_singleton (pos : Pos) : IsNamed [pos] pos.name 0 pos :=
  ⟨rfl, rfl, nofun⟩

theorem memoryGet_exact_word : GetsPosition exampleWordPriv true exampleKey exampleWord :=
  (memoryGet_exact_iff (isNamed_singleton exampleWord)
    (.inl ⟨8, 8, by decide, by decide, by decide, by decide⟩)).mpr
      ⟨rfl, by decide, by decide, by decide⟩

/-- A position of one byte that holds 5 is read as 5 or as 4294967045, depending on the stack. -/
theorem memoryGet_byte : ¬ GetsPosition exampleBytePriv true exampleKey exampleByte ∧
    ∃ v, memoryGet exampleBytePriv exampleKey true (fun _ => 0) = .ok (.ok (v, DURATION_INF)) ∧
      valueToU32 0 v = .ok 5 ∧ valueToU32 4294967295 v = .ok 4294967045 := by
  have hkey : IsNamed exampleBytePriv.layout exampleKey 0 exampleByte :=
    isNamed_singleton exampleByte
  have hfield : exampleByte.IsField 0 8 := ⟨by decide, by decide, by decide, by decide⟩
  have hfits : maskLength exampleByte.mask ≤ 1 := maskLength_le le_rfl (by decide)
  refine ⟨fun h => ?_, _, memoryGet_eq hkey (by decide) (posRead_field hfield (by decide) hfits), ?_⟩
  · have hfour := ((getsField_iff hkey hfield).mp (h.field 0 8 hfield)).2.2.2
    exact absurd hfour (by decide)
  · exact ⟨by decide, by decide⟩

end Example

/-! ## Safety -/

/-- The bytes of the position are mapped, no shift is by 32 or more, and `pos_read` does not fail. -/
structure Pos.Safe (pos : Pos) (layout : Layout) : Prop where
  inside : pos.offset.toNat + pos.length.toNat ≤ (layoutLength layout).toNat
  shift : pos.length.toNat ≤ 4 → ∀ m ∈ maskLevels pos.mask, (maskShift m).toNat < 32
  read : ∀ priv : MemoryPriv, priv.layout = layout → ∀ heap : ℕ → UInt8,
    ∃ data, posRead pos priv.base ((List.range pos.length.toNat).map heap) = .ok (data, .ok ())

/-- **The position of a sound entry is safe.** -/
theorem Entry.Sound.safe {e : Entry} (h : e.Sound) {layout : Layout} (hmem : e.pos ∈ layout) :
    e.pos.Safe layout where
  inside := h.inside hmem
  shift hshort m hm := (maskShift_lt_iff m).mpr (ne_zero_of_mem_maskLevels (h.fits hshort).1 hm)
  read := by
    rintro priv rfl heap
    exact posRead_succeeds ((h.inside hmem).trans priv.mapped) (fun hshort => (h.fits hshort).2)
      (length_heap heap _)

/-- With safe positions only, no get is a fault. -/
theorem memoryGet_safe {priv : MemoryPriv} (hsafe : ∀ pos ∈ priv.layout, pos.Safe priv.layout)
    (hreach : priv.layout.length < lstReach) (key : CString) (alloc : Bool) (heap : ℕ → UInt8) :
    ∃ ret, memoryGet priv key alloc heap = .ok ret := by
  obtain ⟨found, hfound⟩ := posSearchByName_ends hreach key
  unfold memoryGet
  rw [hfound]
  cases found with
  | none => exact ⟨_, rfl⟩
  | some pos =>
    cases alloc with
    | false => exact ⟨_, rfl⟩
    | true =>
      obtain ⟨data, hread⟩ := (hsafe pos (mem_of_posSearchByName hfound)).read priv rfl heap
      simp only [Bool.not_true, Bool.false_eq_true, if_false]
      rw [hread]
      exact ⟨_, rfl⟩

/-- **What `layout_parse` accepts is safe, and free of faults, exactly where the entries it is given
are sound**, since it looks at none of their numbers. -/
theorem layoutParse_safe_iff {Item : Type} (cjson : CJson Item) (json : Option Item)
    (a : LayoutAlloc) :
    (∀ layout, layoutParse cjson json a = .ok (some layout) → (∀ pos ∈ layout, pos.Safe layout) ∧
      ∀ entries, IsLayout cjson json entries → ∀ e ∈ entries, ¬ e.Faulty) ↔
    ∀ entries, IsLayout cjson json entries → a.Succeeds entries.length → ∀ e ∈ entries, e.Sound := by
  constructor
  · intro h entries hentries halloc e he
    have hparse := layoutParse_ok_iff.mpr ⟨entries, hentries, rfl, halloc⟩
    exact e.sound_iff.mpr ((h _ hparse).2 entries hentries e he)
  · intro h layout hparse
    obtain ⟨entries, hentries, rfl, halloc⟩ := layoutParse_ok_iff.mp hparse
    refine ⟨fun pos hpos => ?_, fun entries' hentries' e he => ?_⟩
    · obtain ⟨e, he, rfl⟩ := List.mem_map.mp hpos
      exact (h entries hentries halloc e he).safe hpos
    · rw [hentries.length_eq hentries'] at halloc
      exact e.sound_iff.mp (h entries' hentries' halloc e he)

section Example

/-- The items of a text. Nothing is read of a `null`, a truth value or a number. -/
inductive JsonItem
  | literal
  | string (s : CString)
  | array (items : List JsonItem)
  | object (members : List (CString × JsonItem))

namespace JsonItem

def tolower (c : UInt8) : UInt8 := if 65 ≤ c ∧ c ≤ 90 then c + 32 else c

def arrayItems : JsonItem → Option (List JsonItem)
  | array items => some items
  | _ => none

/-- The first member of the name, in whatever case. -/
def getObjectItem (item : JsonItem) (name : CString) : Option JsonItem :=
  match item with
  | object members =>
    (members.find? fun m => m.1.bytes.map tolower = name.bytes.map tolower).map Prod.snd
  | _ => none

def getStringValue : JsonItem → Option CString
  | string s => some s
  | _ => none

end JsonItem

/-- cJSON, on these items. -/
def exampleCJson : CJson JsonItem :=
  ⟨JsonItem.arrayItems, JsonItem.getObjectItem, JsonItem.getStringValue⟩

/-- One byte at offset 0, without a mask. -/
def exampleJson : JsonItem :=
  .array [.object [(nameField, .string exampleKey), (offsetField, .string ⟨[48], by decide⟩),
    (lengthField, .string ⟨[49], by decide⟩)]]

/-- An entry without a mask is accepted, with a mask of 0 and a shift by 4294967295. -/
theorem layoutParse_unmasked :
    layoutParse exampleCJson (some exampleJson) ⟨true, fun _ => true⟩ = .ok (some [⟨exampleKey, 0, 1, 0⟩]) ∧
      ¬ (⟨exampleKey, 0, 1, 0⟩ : Pos).Safe [⟨exampleKey, 0, 1, 0⟩] := by
  refine ⟨by decide, fun h => ?_⟩
  have hshift := h.shift (by decide) 0 (by rw [maskLevels]; decide)
  exact absurd hshift (by decide)

end Example

end Propd
