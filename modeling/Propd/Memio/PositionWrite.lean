import Propd.Memio.Position
import Propd.Lib.BitField

/-!
# Writing to positions

`pos_write`, and positions as fields of the memory: where a position is an integer, the ones of its
mask, else all its bytes. `pos_read` reads the field and `pos_write` replaces it, also where the
bytes that are read and written back hold other fields, so a row of positions is as good as a row
of variables.
-/

namespace Propd

open Lib

def maskWrite (mask data value : UInt32) : UInt32 :=
  (data &&& ~~~mask) ||| ((value <<< maskShift mask) &&& mask)

/-- `pos_write`: the memory afterwards, and the status, which is a negative one. -/
def posWrite (pos : Pos) (base data : List UInt8) : Except Fault (List UInt8 × Except Errno Unit) :=
  if pos.length ≤ 4 then
    if 4 < data.length then .ok (base, .error ENOBUFS.neg)
    else
      -- the rest of the integer is zero
      let value := uint32Code.decode data
      if maskMax pos.mask < value then .ok (base, .error ENOBUFS.neg)
      else if base.length < pos.offset.toNat + pos.length.toNat then .error .outOfBounds
      else
        -- the bits outside of the mask are written back as they were read
        let raw := maskWrite pos.mask (uint32Code.decode (pos.bytes base)) value
        .ok (overwrite base pos.offset.toNat ((uint32Code.encode raw).take pos.length.toNat),
          .ok ())
  else if pos.length.toNat < data.length then .ok (base, .error ENOBUFS.neg)
  else if base.length < pos.offset.toNat + pos.length.toNat then .error .outOfBounds
  else
    .ok (overwrite base pos.offset.toNat
      (data ++ List.replicate (pos.length.toNat - data.length) 0), .ok ())

/-- The room that `pos_read` asks for. -/
def Pos.room (pos : Pos) : ℕ :=
  if pos.length ≤ 4 then maskLength pos.mask else pos.length.toNat

/-- The input is a value of the position. -/
def Pos.Fits (pos : Pos) (data : List UInt8) : Prop :=
  if pos.length ≤ 4 then data.length ≤ 4 ∧ ofLE data ≤ (pos.mask >>> maskShift pos.mask).toNat
  else data.length ≤ pos.length.toNat

instance instDecidablePosFits (pos : Pos) (data : List UInt8) : Decidable (pos.Fits data) :=
  inferInstanceAs (Decidable (ite _ _ _))

/-- The position is an integer with a run of ones for a mask, or longer. -/
def Pos.Valid (pos : Pos) : Prop :=
  4 < pos.length.toNat ∨ ∃ s k, pos.IsField s k

/-- The bits of the memory that are the position's: those of the mask, or all of its bytes. -/
def Pos.Owns (pos : Pos) (i : ℕ) : Prop :=
  8 * pos.offset.toNat ≤ i ∧ i < 8 * (pos.offset.toNat + pos.length.toNat) ∧
    (pos.length ≤ 4 → pos.mask.toNat.testBit (i - 8 * pos.offset.toNat) = true)

/-! ## Positions as fields of the memory -/

/-- The position is the `w` bits of the memory from bit `lo` on. -/
inductive Pos.IsRange (pos : Pos) : ℕ → ℕ → Prop where
  | field {s k : ℕ} (h : pos.IsField s k) : IsRange pos (8 * pos.offset.toNat + s) k
  | bytes (h : 4 < pos.length.toNat) :
      IsRange pos (8 * pos.offset.toNat) (8 * pos.length.toNat)

theorem Pos.Valid.isRange {pos : Pos} (h : pos.Valid) : ∃ lo w, pos.IsRange lo w := by
  rcases h with hlong | ⟨s, k, hfield⟩
  · exact ⟨_, _, .bytes hlong⟩
  · exact ⟨_, _, .field hfield⟩

section Bits

variable {mask : UInt32} {s k : ℕ}

/-- **Where the mask is a run, `MaskWrite` writes a field.** -/
theorem toNat_maskWrite (h : mask.toNat = bitRun s k) (hk : 1 ≤ k) (hs : s + k ≤ 32)
    (data value : UInt32) :
    (maskWrite mask data value).toNat = setField s k value.toNat data.toNat := by
  have hshift : (maskShift mask).toNat % 32 = s := by
    rw [toNat_maskShift_bitRun h hk (by omega), Nat.mod_eq_of_lt (by omega)]
  have hdata : data.toNat < 2 ^ 32 := data.toNat_lt
  have hmask : mask.toNat < 2 ^ 32 := mask.toNat_lt
  have hnot : (~~~mask).toNat = 2 ^ 32 - (mask.toNat + 1) := by
    rw [UInt32.toNat_not, Nat.sub_sub, Nat.add_comm 1]
    rfl
  refine Nat.eq_of_testBit_eq fun i => ?_
  rw [testBit_setField, maskWrite, UInt32.toNat_or, UInt32.toNat_and, UInt32.toNat_and, hnot,
    UInt32.toNat_shiftLeft, hshift, Nat.testBit_or, Nat.testBit_and, Nat.testBit_and,
    Nat.testBit_two_pow_sub_succ hmask, Nat.testBit_mod_two_pow, Nat.testBit_shiftLeft, h,
    testBit_bitRun]
  by_cases hi : s ≤ i ∧ i < s + k
  · -- in the run the value comes in
    rw [if_pos hi, decide_eq_true hi, Bool.not_true, Bool.and_false, Bool.and_false,
      Bool.false_or, Bool.and_true, decide_eq_true hi.1, Bool.true_and,
      decide_eq_true (show i < 32 by omega), Bool.true_and]
  · -- elsewhere the old bit stays, if there is one
    rw [if_neg hi, decide_eq_false hi, Bool.not_false, Bool.and_true, Bool.and_false,
      Bool.or_false]
    by_cases hlt : i < 32
    · rw [decide_eq_true hlt, Bool.and_true]
    · have hzero : data.toNat.testBit i = false :=
        Nat.testBit_lt_two_pow (hdata.trans_le (Nat.pow_le_pow_right (by decide) (by omega)))
      rw [hzero, Bool.false_and]

end Bits

section Range

variable {pos : Pos} {base data : List UInt8} {lo w : ℕ}

/-- The memory is the bytes of its number with a field written. -/
theorem overwrite_eq {offset : ℕ} {bytes : List UInt8} (h : offset + bytes.length ≤ base.length) :
    overwrite base offset bytes =
      toLE base.length (setField (8 * offset) (8 * bytes.length) (ofLE bytes) (ofLE base)) := by
  rw [← ofLE_overwrite bytes h, ← length_overwrite h, toLE_ofLE]

/-- **`pos_read` reads the field.** -/
theorem posRead_eq (h : pos.IsRange lo w) : posRead pos base data =
    if data.length < pos.room then .ok (data, .error ENOBUFS.neg)
    else if base.length < pos.offset.toNat + pos.length.toNat then .error .outOfBounds
    else .ok (toLE data.length (getField lo w (ofLE base)), .ok ()) := by
  cases h with
  | @field s _ hfield =>
    have hshort : pos.length ≤ 4 := hfield.short
    by_cases hbuf : data.length < maskLength pos.mask
    · unfold posRead
      rw [if_pos hshort, if_pos hbuf, if_pos (by rwa [Pos.room, if_pos hshort])]
    · rw [if_neg (by rwa [Pos.room, if_pos hshort])]
      by_cases hin : base.length < pos.offset.toNat + pos.length.toNat
      · unfold posRead
        rw [if_pos hshort, if_neg hbuf, if_pos hin, if_pos hin]
      · rw [if_neg hin, posRead_field hfield (Nat.le_of_not_lt hin) (Nat.le_of_not_lt hbuf),
          hfield.mask, and_bitRun_shiftRight, Pos.bytes, ofLE_take_drop, ← getField,
          getField_getField hfield.inside]
  | bytes hlong =>
    have hlong' : ¬ pos.length ≤ 4 := Nat.not_le.mpr hlong
    unfold posRead
    rw [if_neg hlong', Pos.room, if_neg hlong']
    by_cases hbuf : data.length < pos.length.toNat
    · rw [if_pos hbuf, if_pos hbuf]
    · rw [if_neg hbuf, if_neg hbuf]
      by_cases hin : base.length < pos.offset.toNat + pos.length.toNat
      · rw [if_pos hin, if_pos hin]
      · have hlen := length_posBytes (Nat.le_of_not_lt hin)
        have hbytes := toLE_ofLE (pos.bytes base)
        rw [hlen] at hbytes
        have hlt := ofLE_lt (pos.bytes base)
        rw [hlen] at hlt
        rw [if_neg hin, if_neg hin, ← ofLE_take_drop, ← Pos.bytes, ← hbytes,
          toLE_append_zeros hlt, Nat.add_sub_cancel' (Nat.le_of_not_lt hbuf), hbytes]

/-- **`pos_write` replaces the field.** -/
theorem posWrite_eq (h : pos.IsRange lo w) : posWrite pos base data =
    if pos.Fits data then
      if base.length < pos.offset.toNat + pos.length.toNat then .error .outOfBounds
      else .ok (toLE base.length (setField lo w (ofLE data) (ofLE base)), .ok ())
    else .ok (base, .error ENOBUFS.neg) := by
  cases h with
  | @field s _ hfield =>
    have hshort : pos.length ≤ 4 := hfield.short
    have hs : s + w ≤ 32 := by
      have hfour := hfield.short
      have hinside := hfield.inside
      omega
    have hfits : pos.Fits data ↔ data.length ≤ 4 ∧ ofLE data ≤ (maskMax pos.mask).toNat := by
      rw [Pos.Fits, if_pos hshort, maskMax]
    unfold posWrite
    rw [if_pos hshort]
    by_cases hlen : 4 < data.length
    · rw [if_pos hlen, if_neg fun hfit => absurd (hfits.mp hfit).1 (Nat.not_le.mpr hlen)]
    · have hvalue : (uint32Code.decode data).toNat = ofLE data :=
        toNat_uint32Code_decode (Nat.le_of_not_lt hlen)
      rw [if_neg hlen]
      by_cases hmax : maskMax pos.mask < uint32Code.decode data
      · have hgt : (maskMax pos.mask).toNat < ofLE data := hvalue ▸ hmax
        simp only [if_pos hmax]
        rw [if_neg fun hfit => absurd (hfits.mp hfit).2 (Nat.not_le.mpr hgt)]
      · have hle : ofLE data ≤ (maskMax pos.mask).toNat := hvalue ▸ Nat.le_of_not_lt hmax
        simp only [if_neg hmax]
        rw [if_pos (hfits.mpr ⟨Nat.le_of_not_lt hlen, hle⟩)]
        by_cases hin : base.length < pos.offset.toNat + pos.length.toNat
        · rw [if_pos hin, if_pos hin]
        · have hraw : (uint32Code.decode (pos.bytes base)).toNat = ofLE (pos.bytes base) :=
            toNat_uint32Code_decode ((length_posBytes_le pos base).trans hfield.short)
          -- of the integer, the position's own bytes are written back
          have hnew : (uint32Code.encode (maskWrite pos.mask (uint32Code.decode (pos.bytes base))
              (uint32Code.decode data))).take pos.length.toNat =
              toLE pos.length.toNat (setField s w (ofLE data) (ofLE (pos.bytes base))) := by
            rw [← hvalue, ← hraw, ← toNat_maskWrite hfield.mask hfield.ones hs]
            exact take_toLE hfield.short _
          have hbytes : ofLE (pos.bytes base) < 2 ^ (8 * pos.length.toNat) := by
            rw [Pos.bytes, ofLE_take_drop]
            exact getField_lt _ _ _
          have hlt := setField_lt hbytes hfield.inside (ofLE data)
          rw [two_pow_mul_eight] at hlt
          rw [if_neg hin, if_neg hin, hnew,
            overwrite_eq (by rw [length_toLE]; exact Nat.le_of_not_lt hin), length_toLE,
            ofLE_toLE_of_lt hlt, Pos.bytes, ofLE_take_drop, setField_setField hfield.inside]
  | bytes hlong =>
    have hlong' : ¬ pos.length ≤ 4 := Nat.not_le.mpr hlong
    have hfits : pos.Fits data ↔ data.length ≤ pos.length.toNat := by
      rw [Pos.Fits, if_neg hlong']
    unfold posWrite
    rw [if_neg hlong']
    by_cases hbuf : pos.length.toNat < data.length
    · rw [if_pos hbuf, if_neg fun hfit => absurd (hfits.mp hfit) (Nat.not_le.mpr hbuf)]
    · rw [if_neg hbuf, if_pos (hfits.mpr (Nat.le_of_not_lt hbuf))]
      by_cases hin : base.length < pos.offset.toNat + pos.length.toNat
      · rw [if_pos hin, if_pos hin]
      · -- the input and the zeros behind it fill the position
        have hlen : (data ++ List.replicate (pos.length.toNat - data.length) (0 : UInt8)).length =
            pos.length.toNat := by
          rw [List.length_append, List.length_replicate]
          omega
        rw [if_neg hin, if_neg hin, overwrite_eq (by rw [hlen]; exact Nat.le_of_not_lt hin), hlen,
          ofLE_append_zeros]

/-! ## What is written -/

/-- An input that fits is a value of the field. -/
theorem Pos.Fits.lt (hfit : pos.Fits data) (h : pos.IsRange lo w) : ofLE data < 2 ^ w := by
  cases h with
  | field hfield =>
    have hshort : pos.length ≤ 4 := hfield.short
    have hmax := toNat_maskMax_bitRun hfield.mask hfield.ones hfield.shift_lt
    have hpos : 0 < 2 ^ w := Nat.two_pow_pos w
    rw [Pos.Fits, if_pos hshort, ← maskMax, hmax] at hfit
    omega
  | bytes hlong =>
    have hlong' : ¬ pos.length ≤ 4 := Nat.not_le.mpr hlong
    rw [Pos.Fits, if_neg hlong'] at hfit
    rw [two_pow_mul_eight]
    exact (ofLE_lt data).trans_le (Nat.pow_le_pow_right (by decide) hfit)

/-- A field is no wider than the room that it asks for. -/
theorem Pos.IsRange.le_room (h : pos.IsRange lo w) : 2 ^ w ≤ 256 ^ pos.room := by
  cases h with
  | field hfield =>
    have hshort : pos.length ≤ 4 := hfield.short
    rw [Pos.room, if_pos hshort]
    exact two_pow_le_maskLength hfield.mask hfield.ones hfield.shift_lt
  | bytes hlong =>
    have hlong' : ¬ pos.length ≤ 4 := Nat.not_le.mpr hlong
    rw [Pos.room, if_neg hlong', two_pow_mul_eight]

theorem Pos.IsRange.width_pos (h : pos.IsRange lo w) : 0 < w := by
  cases h with
  | field hfield => exact hfield.ones
  | bytes hlong => omega

/-- The bits that a position owns are those of its field. -/
theorem Pos.IsRange.owns_iff (h : pos.IsRange lo w) (i : ℕ) :
    pos.Owns i ↔ lo ≤ i ∧ i < lo + w := by
  rw [Pos.Owns]
  cases h with
  | @field s _ hfield =>
    have hshort : pos.length ≤ 4 := hfield.short
    have hinside := hfield.inside
    rw [hfield.mask, testBit_bitRun, decide_eq_true_iff]
    constructor
    · rintro ⟨hlow, -, hbit⟩
      have hrun := hbit hshort
      omega
    · rintro ⟨hlow, hhigh⟩
      exact ⟨by omega, by omega, fun _ => by omega⟩
  | bytes hlong =>
    have hlong' : ¬ pos.length ≤ 4 := Nat.not_le.mpr hlong
    rw [Nat.mul_add]
    exact ⟨fun hown => ⟨hown.1, hown.2.1⟩, fun hin => ⟨hin.1, hin.2, fun hle => absurd hle hlong'⟩⟩

/-- Fields without a common bit lie one before the other. -/
theorem Pos.IsRange.apart {q : Pos} {lo' w' : ℕ} (hp : pos.IsRange lo w) (hq : q.IsRange lo' w')
    (hdisj : ∀ i, ¬ (pos.Owns i ∧ q.Owns i)) : lo + w ≤ lo' ∨ lo' + w' ≤ lo := by
  have hw := hp.width_pos
  have hw' := hq.width_pos
  by_contra hmeet
  -- else the later one starts inside of the other
  refine hdisj (max lo lo') ⟨(hp.owns_iff _).mpr ?_, (hq.owns_iff _).mpr ?_⟩
  · omega
  · omega

/-- A write that succeeds has a place to go to, a value, and puts it there. -/
theorem posWrite_ok (h : pos.IsRange lo w) {base' : List UInt8}
    (hwrite : posWrite pos base data = .ok (base', .ok ())) :
    pos.Fits data ∧ pos.offset.toNat + pos.length.toNat ≤ base.length ∧
      base' = toLE base.length (setField lo w (ofLE data) (ofLE base)) := by
  rw [posWrite_eq h] at hwrite
  split at hwrite
  · rename_i hfit
    split at hwrite
    · cases hwrite
    · rename_i hin
      cases hwrite
      exact ⟨hfit, Nat.le_of_not_lt hin, rfl⟩
  · cases hwrite

/-- The last bit of the field is a bit of the memory. -/
theorem Pos.IsRange.inside (h : pos.IsRange lo w)
    (hin : pos.offset.toNat + pos.length.toNat ≤ base.length) : lo + w ≤ 8 * base.length := by
  cases h with
  | field hfield =>
    have hinside := hfield.inside
    omega
  | bytes hlong => omega

/-- The number of the memory after a write. -/
theorem ofLE_written (h : pos.IsRange lo w)
    (hin : pos.offset.toNat + pos.length.toNat ≤ base.length) (v : ℕ) :
    ofLE (toLE base.length (setField lo w v (ofLE base))) = setField lo w v (ofLE base) := by
  have hbase : ofLE base < 2 ^ (8 * base.length) := two_pow_mul_eight base.length ▸ ofLE_lt base
  have hlt := setField_lt hbase (h.inside hin) v
  rw [two_pow_mul_eight] at hlt
  exact ofLE_toLE_of_lt hlt

/-- What the write does not own it leaves alone. -/
theorem bitAt_posWrite (h : pos.IsRange lo w) {base' : List UInt8} {ret : Except Errno Unit}
    (hwrite : posWrite pos base data = .ok (base', ret)) :
    base'.length = base.length ∧ ∀ i, ¬ pos.Owns i → bitAt base' i = bitAt base i := by
  rcases ret with e | ⟨⟩
  · -- a write that is refused leaves everything alone
    rw [posWrite_eq h] at hwrite
    split at hwrite
    · split at hwrite <;> cases hwrite
    · cases hwrite
      exact ⟨rfl, fun _ _ => rfl⟩
  · obtain ⟨-, hin, rfl⟩ := posWrite_ok h hwrite
    refine ⟨length_toLE _ _, fun i hi => ?_⟩
    rw [bitAt_eq_testBit, bitAt_eq_testBit, ofLE_written h hin, testBit_setField,
      if_neg fun hrange => hi ((h.owns_iff i).mpr hrange)]

/-- `pos_read` looks at no other bits than those it owns. -/
theorem posRead_congr (h : pos.IsRange lo w) {base' : List UInt8}
    (hlen : base'.length = base.length) (hbits : ∀ i, pos.Owns i → bitAt base' i = bitAt base i) :
    posRead pos base' data = posRead pos base data := by
  have hfield : getField lo w (ofLE base') = getField lo w (ofLE base) := by
    refine Nat.eq_of_testBit_eq fun i => ?_
    rw [testBit_getField, testBit_getField]
    by_cases hi : i < w
    · rw [← bitAt_eq_testBit, ← bitAt_eq_testBit,
        hbits _ ((h.owns_iff _).mpr ⟨Nat.le_add_right _ _, by omega⟩)]
    · rw [decide_eq_false hi, Bool.false_and, Bool.false_and]
  rw [posRead_eq h, posRead_eq h, hlen, hfield]

end Range

/-! ## Positions as variables -/

/-- **What is written to a position is read from it**: `pos_write` takes the values that fit, and
changes nothing else for the others; afterwards `pos_read` gives the value to every buffer with
the room for it, as a number of the buffer's length, and refuses the others. -/
theorem posWrite_posRead (pos : Pos) (hvalid : pos.Valid) (base data : List UInt8)
    (hin : pos.offset.toNat + pos.length.toNat ≤ base.length) :
    (pos.Fits data → ∃ base', posWrite pos base data = .ok (base', .ok ()) ∧
      base'.length = base.length ∧
      ∀ buf : List UInt8,
        (pos.room ≤ buf.length → ∃ out, posRead pos base' buf = .ok (out, .ok ()) ∧
          out.length = buf.length ∧ ofLE out = ofLE data) ∧
        (buf.length < pos.room → posRead pos base' buf = .ok (buf, .error ENOBUFS.neg))) ∧
    (¬ pos.Fits data → posWrite pos base data = .ok (base, .error ENOBUFS.neg)) := by
  obtain ⟨lo, w, hrange⟩ := hvalid.isRange
  refine ⟨fun hfit => ⟨toLE base.length (setField lo w (ofLE data) (ofLE base)), ?_,
    length_toLE _ _, fun buf => ⟨fun hroom => ?_, fun hroom => ?_⟩⟩, fun hfit => ?_⟩
  · rw [posWrite_eq hrange, if_pos hfit, if_neg (Nat.not_lt.mpr hin)]
  · have hvalue := hfit.lt hrange
    have hlt : ofLE data < 256 ^ buf.length :=
      (hvalue.trans_le hrange.le_room).trans_le (Nat.pow_le_pow_right (by decide) hroom)
    refine ⟨toLE buf.length (ofLE data), ?_, length_toLE _ _, ofLE_toLE_of_lt hlt⟩
    rw [posRead_eq hrange, if_neg (Nat.not_lt.mpr hroom), length_toLE,
      if_neg (Nat.not_lt.mpr hin), ofLE_written hrange hin, getField_setField hvalue]
  · rw [posRead_eq hrange, if_pos hroom]
  · rw [posWrite_eq hrange, if_neg hfit]

section Layout

/-- A field across the two first bytes: `bit5.cross` of the example layout. -/
def bit5Cross : Pos := ⟨⟨[98, 105, 116, 53, 46, 99, 114, 111, 115, 115], by decide⟩, 0, 2, 0x0F80⟩

/-- The field before it, `bit2`. -/
def bit2 : Pos := ⟨⟨[98, 105, 116, 50], by decide⟩, 0, 1, 0x60⟩

theorem isField_bit5Cross : bit5Cross.IsField 7 5 :=
  ⟨by decide, by decide, by decide, by decide⟩

theorem isField_bit2 : bit2.IsField 5 2 :=
  ⟨by decide, by decide, by decide, by decide⟩

/-- A write across two bytes, and a read of what was written. -/
theorem posWrite_posRead_cross :
    ∃ base' out, posWrite bit5Cross [0xFF, 0xFF] [0x15] = .ok (base', .ok ()) ∧
      posRead bit5Cross base' [0] = .ok (out, .ok ()) ∧ ofLE out = 0x15 := by
  obtain ⟨base', hwrite, -, hread⟩ :=
    (posWrite_posRead bit5Cross (.inr ⟨7, 5, isField_bit5Cross⟩) [0xFF, 0xFF] [0x15]
      (by decide)).1 (by decide)
  have hroom : bit5Cross.room = 1 := by
    rw [Pos.room, if_pos (by decide), maskLength, if_pos (by decide)]
  obtain ⟨out, hout, -, hvalue⟩ := (hread [0]).1 hroom.le
  exact ⟨base', out, hwrite, hout, hvalue⟩

/-- **Positions that own no common bit do not disturb each other**, wherever their bytes lie: a
write keeps the bits that it does not own, a read of the other position does not notice it, and two
writes have one result in both orders. -/
theorem posWrite_frame (p q : Pos) (hp : p.Valid) (hq : q.Valid)
    (hdisj : ∀ i, ¬ (p.Owns i ∧ q.Owns i)) (base : List UInt8) :
    (∀ data base' ret, posWrite p base data = .ok (base', ret) →
      base'.length = base.length ∧ (∀ i, ¬ p.Owns i → bitAt base' i = bitAt base i) ∧
      ∀ buf, posRead q base' buf = posRead q base buf) ∧
    (∀ d d' base₁ base₂, posWrite p base d = .ok (base₁, .ok ()) →
      posWrite q base d' = .ok (base₂, .ok ()) →
      ∃ base', posWrite q base₁ d' = .ok (base', .ok ()) ∧
        posWrite p base₂ d = .ok (base', .ok ())) := by
  obtain ⟨lo, w, hrange⟩ := hp.isRange
  obtain ⟨lo', w', hrange'⟩ := hq.isRange
  refine ⟨fun data base' ret hwrite => ?_, fun d d' base₁ base₂ hwrite hwrite' => ?_⟩
  · obtain ⟨hlen, hkept⟩ := bitAt_posWrite hrange hwrite
    exact ⟨hlen, hkept, fun buf =>
      posRead_congr hrange' hlen fun i hi => hkept i fun hown => hdisj i ⟨hown, hi⟩⟩
  · obtain ⟨hfit, hin, rfl⟩ := posWrite_ok hrange hwrite
    obtain ⟨hfit', hin', rfl⟩ := posWrite_ok hrange' hwrite'
    have hcomm := setField_comm (hrange.apart hrange' hdisj) (ofLE d) (ofLE d') (ofLE base)
    refine ⟨toLE base.length (setField lo' w' (ofLE d') (setField lo w (ofLE d) (ofLE base))),
      ?_, ?_⟩
    · rw [posWrite_eq hrange', if_pos hfit', length_toLE, if_neg (Nat.not_lt.mpr hin'),
        ofLE_written hrange hin]
    · rw [posWrite_eq hrange, if_pos hfit, length_toLE, if_neg (Nat.not_lt.mpr hin),
        ofLE_written hrange' hin', hcomm]

theorem posWrite_frame_cross :
    ∃ base', posWrite bit5Cross [0xDF, 0xFF] [0x0A] = .ok (base', .ok ()) ∧
      posWrite bit2 [0x7F, 0xF5] [2] = .ok (base', .ok ()) := by
  have hdisj : ∀ i, ¬ (bit2.Owns i ∧ bit5Cross.Owns i) := by
    rintro i ⟨hbit2, hcross⟩
    have hlow : 5 ≤ i ∧ i < 7 := ((Pos.IsRange.field isField_bit2).owns_iff i).mp hbit2
    have hhigh : 7 ≤ i ∧ i < 12 := ((Pos.IsRange.field isField_bit5Cross).owns_iff i).mp hcross
    omega
  exact (posWrite_frame bit2 bit5Cross (.inr ⟨5, 2, isField_bit2⟩)
    (.inr ⟨7, 5, isField_bit5Cross⟩) hdisj [0xFF, 0xFF]).2 [2] [0x0A] [0xDF, 0xFF] [0x7F, 0xF5]
    (by decide) (by decide)

end Layout

end Propd
