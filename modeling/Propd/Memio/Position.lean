import Propd.Core.Types
import Propd.Lib.BitRun
import Propd.Lib.Bytes

/-!
# Positions in memory

`pos_t` and `pos_read`. A position is a range of bytes; where it has at most four of them it is
an integer, and its mask says which bits of them are the field.

A shift by 32 or more is undefined in C. Here the amount counts modulo 32, as it does for the
processors the code runs on.
-/

namespace Propd

open Lib

/-- `pos_t` -/
structure Pos where
  name : CString
  offset : UInt32
  length : UInt32
  mask : UInt32
  deriving DecidableEq

/-- The bytes of a position. -/
def Pos.bytes (pos : Pos) (base : List UInt8) : List UInt8 :=
  (base.drop pos.offset.toNat).take pos.length.toNat

/-- `__builtin_ffs`: the number of the lowest bit that is set, counted from 1. -/
def ffs (n : UInt32) : UInt32 :=
  match lowestBit 32 n.toNat with
  | some i => UInt32.ofNat (i + 1)
  | none => 0

-- 2 ^ 32 - 1 for the mask 0
def maskShift (mask : UInt32) : UInt32 := ffs mask - 1

def maskMax (mask : UInt32) : UInt32 := mask >>> maskShift mask

def maskRead (mask data : UInt32) : UInt32 := (data &&& mask) >>> maskShift mask

theorem toNat_maskMax_le (mask : UInt32) : (maskMax mask).toNat ≤ mask.toNat := by
  rw [maskMax, UInt32.toNat_shiftRight]
  exact Nat.shiftRight_le _ _

theorem toNat_shiftRight_byte (v : UInt32) : (v >>> 8).toNat = v.toNat / 256 := by
  rw [UInt32.toNat_shiftRight, Nat.shiftRight_eq_div_pow]
  rfl

theorem toNat_maskRest_lt {mask : UInt32} (h : maskMax mask >>> 8 ≠ 0) :
    (maskMax mask >>> 8).toNat < mask.toNat := by
  have hle := toNat_maskMax_le mask
  have hpos : (maskMax mask >>> 8).toNat ≠ 0 := fun hzero => h (UInt32.toNat_inj.mp hzero)
  rw [toNat_shiftRight_byte] at hpos ⊢
  omega

/-- The bytes it takes to hold the values of a mask. -/
def maskLength (mask : UInt32) : ℕ :=
  if maskMax mask >>> 8 = 0 then 1 else 1 + maskLength (maskMax mask >>> 8)
termination_by mask.toNat
decreasing_by exact toNat_maskRest_lt ‹_›

/-- The masks that `maskLength` goes through, and shifts. -/
def maskLevels (mask : UInt32) : List UInt32 :=
  if maskMax mask >>> 8 = 0 then [mask] else mask :: maskLevels (maskMax mask >>> 8)
termination_by mask.toNat
decreasing_by exact toNat_maskRest_lt ‹_›

/-- `pos_read`, with a buffer that is all it may write to: what is in the buffer afterwards, and the
status, which is a negative one. -/
def posRead (pos : Pos) (base data : List UInt8) : Except Fault (List UInt8 × Except Errno Unit) :=
  if pos.length ≤ 4 then
    -- the mask alone says how much room the value needs
    if data.length < maskLength pos.mask then .ok (data, .error ENOBUFS.neg)
    else if base.length < pos.offset.toNat + pos.length.toNat then .error .outOfBounds
    else
      let raw := uint32Code.decode (pos.bytes base)
      let value := maskRead pos.mask raw
      -- the buffer is cleared, then as many bytes of the value are copied as the mask needs
      .ok ((uint32Code.encode value).take (maskLength pos.mask) ++
        List.replicate (data.length - maskLength pos.mask) 0, .ok ())
  else if data.length < pos.length.toNat then .ok (data, .error ENOBUFS.neg)
  else if base.length < pos.offset.toNat + pos.length.toNat then .error .outOfBounds
  else .ok (pos.bytes base ++ List.replicate (data.length - pos.length.toNat) 0, .ok ())

/-! ## Masks -/

theorem toNat_maskShift {mask : UInt32} {s : ℕ} (h : lowestBit 32 mask.toNat = some s) :
    (maskShift mask).toNat = s := by
  have hs : s < 32 := (lowestBit_eq_some.mp h).2.1
  have hadd : UInt32.ofNat (s + 1) = UInt32.ofNat s + 1 := UInt32.ofNat_add s 1
  rw [maskShift, ffs, h]
  simp only
  rw [hadd, UInt32.add_sub_cancel, UInt32.toNat_ofNat_of_lt' (hs.trans (by decide))]

/-- **The shift is one exactly where the mask has a bit.** -/
theorem maskShift_lt_iff (mask : UInt32) : (maskShift mask).toNat < 32 ↔ mask ≠ 0 := by
  have hnone := lowestBit_eq_none mask.toNat_lt
  cases hbit : lowestBit 32 mask.toNat with
  | none =>
    have hzero : mask = 0 := UInt32.toNat_inj.mp (hnone.mp hbit)
    subst hzero
    decide
  | some s =>
    rw [toNat_maskShift hbit]
    refine iff_of_true (lowestBit_eq_some.mp hbit).2.1 ?_
    rintro rfl
    rw [hnone.mpr rfl] at hbit
    cases hbit

/-- There is one mask for each byte. -/
theorem length_maskLevels (mask : UInt32) : (maskLevels mask).length = maskLength mask := by
  induction mask using maskLength.induct with
  | case1 mask hzero => rw [maskLevels, maskLength, if_pos hzero, if_pos hzero, List.length_singleton]
  | case2 mask hne ih =>
    rw [maskLevels, maskLength, if_neg hne, if_neg hne, List.length_cons, ih, Nat.add_comm]

/-- Behind a mask that is not zero no other one is. -/
theorem ne_zero_of_mem_maskLevels {mask m : UInt32} (h : mask ≠ 0) (hm : m ∈ maskLevels mask) :
    m ≠ 0 := by
  induction mask using maskLevels.induct with
  | case1 mask hzero =>
    rw [maskLevels, if_pos hzero] at hm
    rwa [List.mem_singleton.mp hm]
  | case2 mask hne ih =>
    rw [maskLevels, if_neg hne] at hm
    rcases List.mem_cons.mp hm with rfl | hm
    · exact h
    · exact ih hne hm

/-- A mask takes no more bytes than it has. -/
theorem maskLength_le {mask : UInt32} {n : ℕ} (hn : 1 ≤ n) (h : mask.toNat < 256 ^ n) :
    maskLength mask ≤ n := by
  -- each byte that is taken off the mask is one of its bytes
  induction n, hn using Nat.le_induction generalizing mask with
  | base =>
    -- nothing is left above the first byte
    have hle := toNat_maskMax_le mask
    have hzero : maskMax mask >>> 8 = 0 := by
      refine UInt32.toNat_inj.mp ?_
      rw [toNat_shiftRight_byte]
      exact Nat.div_eq_of_lt (hle.trans_lt h)
    rw [maskLength, if_pos hzero]
  | succ n hn ih =>
    rw [maskLength]
    split
    · omega
    · have hle := toNat_maskMax_le mask
      have hrest : (maskMax mask >>> 8).toNat < 256 ^ n := by
        rw [toNat_shiftRight_byte]
        refine Nat.div_lt_of_lt_mul (hle.trans_lt ?_)
        rwa [Nat.mul_comm, ← Nat.pow_succ]
      have hlen := ih hrest
      omega

theorem maskLength_le_four (mask : UInt32) : maskLength mask ≤ 4 :=
  maskLength_le (by decide) mask.toNat_lt

/-! ## Fields -/

/-- The position is an integer, and its mask is `k` ones from bit `s` on. -/
structure Pos.IsField (pos : Pos) (s k : ℕ) : Prop where
  short : pos.length.toNat ≤ 4
  ones : 1 ≤ k
  inside : s + k ≤ 8 * pos.length.toNat
  mask : pos.mask.toNat = bitRun s k

namespace Pos.IsField

variable {pos : Pos} {s k : ℕ}

theorem shift_lt (h : pos.IsField s k) : s < 32 := by
  have hshort := h.short
  have hones := h.ones
  have hinside := h.inside
  omega

theorem one_le_length (h : pos.IsField s k) : 1 ≤ pos.length.toNat := by
  have hones := h.ones
  have hinside := h.inside
  omega

/-- The mask is not wider than the position. -/
theorem mask_lt (h : pos.IsField s k) : pos.mask.toNat < 256 ^ pos.length.toNat := by
  rw [h.mask, show (256 : ℕ) = 2 ^ 8 from rfl, ← Nat.pow_mul]
  exact (bitRun_lt s k).trans_le (Nat.pow_le_pow_right (by decide) h.inside)

/-- The field is not wider than the position. -/
theorem field_lt (h : pos.IsField s k) (raw : ℕ) :
    (raw &&& pos.mask.toNat) >>> s < 256 ^ pos.length.toNat := by
  calc (raw &&& pos.mask.toNat) >>> s ≤ raw &&& pos.mask.toNat := Nat.shiftRight_le _ _
    _ ≤ pos.mask.toNat := Nat.and_le_right
    _ < 256 ^ pos.length.toNat := h.mask_lt

end Pos.IsField

section Runs

variable {mask : UInt32} {s k : ℕ}

theorem toNat_maskShift_bitRun (h : mask.toNat = bitRun s k) (hk : 1 ≤ k) (hs : s < 32) :
    (maskShift mask).toNat = s := by
  refine toNat_maskShift ?_
  rw [h]
  exact lowestBit_bitRun hk hs

theorem toNat_maskMax_bitRun (h : mask.toNat = bitRun s k) (hk : 1 ≤ k) (hs : s < 32) :
    (maskMax mask).toNat = 2 ^ k - 1 := by
  rw [maskMax, UInt32.toNat_shiftRight, toNat_maskShift_bitRun h hk hs, Nat.mod_eq_of_lt hs, h,
    bitRun_shiftRight]

theorem toNat_maskRead_bitRun (h : mask.toNat = bitRun s k) (hk : 1 ≤ k) (hs : s < 32)
    (data : UInt32) : (maskRead mask data).toNat = (data.toNat &&& mask.toNat) >>> s := by
  rw [maskRead, UInt32.toNat_shiftRight, toNat_maskShift_bitRun h hk hs, Nat.mod_eq_of_lt hs,
    UInt32.toNat_and]

/-- **The values of a run of ones fit into its bytes.** -/
theorem two_pow_le_maskLength (h : mask.toNat = bitRun s k) (hk : 1 ≤ k) (hs : s < 32) :
    2 ^ k ≤ 256 ^ maskLength mask := by
  -- what is left behind a byte is a run again, from bit 0 on
  induction k using Nat.strong_induction_on generalizing mask s with
  | _ k ih =>
    have hrest : (maskMax mask >>> 8).toNat = 2 ^ (k - 8) - 1 := by
      rw [UInt32.toNat_shiftRight, toNat_maskMax_bitRun h hk hs]
      exact two_pow_sub_one_shiftRight k 8
    rw [maskLength]
    split
    · -- one byte is enough
      rename_i hzero
      rw [hzero] at hrest
      have hk8 : k ≤ 8 := by
        by_contra hgt
        have htwo : 2 ^ 1 ≤ 2 ^ (k - 8) := Nat.pow_le_pow_right (by decide) (by omega)
        have hrest' : 0 = 2 ^ (k - 8) - 1 := hrest
        omega
      exact Nat.pow_le_pow_right (by decide) hk8
    · -- the other bytes hold what is left of the run
      rename_i hne
      have hk8 : 8 < k := by
        by_contra hle
        refine hne (UInt32.toNat_inj.mp ?_)
        rw [hrest, Nat.sub_eq_zero_of_le (Nat.le_of_not_lt hle)]
        rfl
      have hrun : (maskMax mask >>> 8).toNat = bitRun 0 (k - 8) := hrest
      have hlow := ih (k - 8) (by omega) hrun (by omega) (by decide)
      calc 2 ^ k = 256 * 2 ^ (k - 8) := by
            rw [show (256 : ℕ) = 2 ^ 8 from rfl, ← Nat.pow_add, Nat.add_sub_cancel' hk8.le]
        _ ≤ 256 * 256 ^ maskLength (maskMax mask >>> 8) := Nat.mul_le_mul_left 256 hlow
        _ = 256 ^ (1 + maskLength (maskMax mask >>> 8)) := by rw [Nat.add_comm, Nat.pow_succ']

end Runs

/-! ## Reading -/

section Read

variable {pos : Pos} {base data : List UInt8}

theorem length_posBytes (h : pos.offset.toNat + pos.length.toNat ≤ base.length) :
    (pos.bytes base).length = pos.length.toNat := by
  rw [Pos.bytes, List.length_take, List.length_drop]
  omega

theorem length_posBytes_le (pos : Pos) (base : List UInt8) :
    (pos.bytes base).length ≤ pos.length.toNat :=
  List.length_take_le _ _

/-- The buffer keeps its length. -/
theorem length_posRead {data' : List UInt8} {ret : Except Errno Unit}
    (h : posRead pos base data = .ok (data', ret)) : data'.length = data.length := by
  unfold posRead at h
  split at h
  · split at h
    · cases h
      rfl
    · rename_i hbuf
      split at h
      · cases h
      · cases h
        have hfour := maskLength_le_four pos.mask
        rw [List.length_append, List.length_take, uint32Code.length_encode, List.length_replicate]
        simp only [uint32Code]
        omega
  · split at h
    · cases h
      rfl
    · rename_i hbuf
      split at h
      · cases h
      · rename_i hin
        cases h
        rw [List.length_append, List.length_replicate, length_posBytes (Nat.le_of_not_lt hin)]
        omega

/-- **`pos_read` fills the buffer with the field**, as a number of the buffer's length. -/
theorem posRead_field {s k : ℕ} (h : pos.IsField s k)
    (hin : pos.offset.toNat + pos.length.toNat ≤ base.length)
    (hbuf : maskLength pos.mask ≤ data.length) :
    posRead pos base data =
      .ok (toLE data.length ((ofLE (pos.bytes base) &&& pos.mask.toNat) >>> s), .ok ()) := by
  have hs : s < 32 := h.shift_lt
  have hshort : pos.length ≤ 4 := h.short
  -- the integer of at most four bytes
  have hraw : (uint32Code.decode (pos.bytes base)).toNat = ofLE (pos.bytes base) :=
    toNat_uint32Code_decode ((length_posBytes_le pos base).trans h.short)
  -- its field fits into the bytes that are copied
  have hvalue := toNat_maskRead_bitRun h.mask h.ones hs (uint32Code.decode (pos.bytes base))
  rw [hraw] at hvalue
  have hfit : (ofLE (pos.bytes base) &&& pos.mask.toNat) >>> s < 256 ^ maskLength pos.mask := by
    rw [h.mask, and_bitRun_shiftRight]
    exact (Nat.mod_lt _ (Nat.two_pow_pos k)).trans_le (two_pow_le_maskLength h.mask h.ones hs)
  have hcopied : (uint32Code.encode (maskRead pos.mask (uint32Code.decode (pos.bytes base)))).take
      (maskLength pos.mask) =
        toLE (maskLength pos.mask) ((ofLE (pos.bytes base) &&& pos.mask.toNat) >>> s) := by
    rw [← hvalue]
    exact take_toLE (maskLength_le_four pos.mask) _
  unfold posRead
  simp only
  rw [if_pos hshort, if_neg (Nat.not_lt.mpr hbuf), if_neg (Nat.not_lt.mpr hin), hcopied,
    toLE_append_zeros hfit, Nat.add_sub_cancel' hbuf]

/-- A longer position is copied. -/
theorem posRead_bytes (h : 4 < pos.length.toNat)
    (hin : pos.offset.toNat + pos.length.toNat ≤ base.length)
    (hbuf : data.length = pos.length.toNat) :
    posRead pos base data = .ok (pos.bytes base, .ok ()) := by
  have hlong : ¬ pos.length ≤ 4 := Nat.not_le.mpr h
  unfold posRead
  simp only
  rw [if_neg hlong, if_neg (by omega), if_neg (Nat.not_lt.mpr hin), hbuf, Nat.sub_self,
    List.replicate_zero, List.append_nil]

/-- Bytes that are not there are a fault. -/
theorem posRead_fault (hout : base.length < pos.offset.toNat + pos.length.toNat)
    (hmask : pos.length.toNat ≤ 4 → maskLength pos.mask ≤ data.length)
    (hbuf : data.length = pos.length.toNat) :
    posRead pos base data = .error .outOfBounds := by
  unfold posRead
  by_cases hshort : pos.length ≤ 4
  · rw [if_pos hshort, if_neg (Nat.not_lt.mpr (hmask hshort)), if_pos hout]
  · rw [if_neg hshort, if_neg (Nat.not_lt.mpr hbuf.ge), if_pos hout]

/-- **`pos_read` into a buffer of the position's length does not fail**, if the bytes are there and
the mask is not wider than they are. -/
theorem posRead_succeeds (hin : pos.offset.toNat + pos.length.toNat ≤ base.length)
    (hmask : pos.length.toNat ≤ 4 →
      1 ≤ pos.length.toNat ∧ pos.mask.toNat < 256 ^ pos.length.toNat)
    (hbuf : data.length = pos.length.toNat) :
    ∃ data', posRead pos base data = .ok (data', .ok ()) := by
  rcases Nat.lt_or_ge 4 pos.length.toNat with hlong | hshort
  · exact ⟨_, posRead_bytes hlong hin hbuf⟩
  · obtain ⟨hone, hwide⟩ := hmask hshort
    have hfits : maskLength pos.mask ≤ data.length := hbuf ▸ maskLength_le hone hwide
    have hle : pos.length ≤ 4 := hshort
    unfold posRead
    simp only
    rw [if_pos hle, if_neg (Nat.not_lt.mpr hfits), if_neg (Nat.not_lt.mpr hin)]
    exact ⟨_, rfl⟩

end Read

end Propd
