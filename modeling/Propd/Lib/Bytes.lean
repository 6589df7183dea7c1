import Mathlib.Data.List.Basic
import Mathlib.Algebra.Order.Ring.Nat

/-!
# Numbers and records as bytes

Little-endian numbers of a given number of bytes, and the notion the wire formats are
built from: a record that is written as a fixed number of bytes and read back from them.
What follows a record of fixed width on a stream begins where the width says, so a
stream that starts with one can be taken apart in one way only.
-/

namespace Propd.Lib

/-- The low `n` bytes of a number, the least significant first. -/
def toLE : ℕ → ℕ → List UInt8
  | 0, _ => []
  | n + 1, v => UInt8.ofNat (v % 256) :: toLE n (v / 256)

/-- The number that bytes spell, the least significant first. -/
def ofLE : List UInt8 → ℕ
  | [] => 0
  | b :: bs => b.toNat + 256 * ofLE bs

@[simp] theorem length_toLE (n v : ℕ) : (toLE n v).length = n := by
  induction n generalizing v with
  | zero => rfl
  | succ n ih => rw [toLE, List.length_cons, ih]

theorem ofLE_toLE (n v : ℕ) : ofLE (toLE n v) = v % 256 ^ n := by
  induction n generalizing v with
  | zero => rw [toLE, ofLE, Nat.pow_zero, Nat.mod_one]
  | succ n ih =>
    have hbyte : (UInt8.ofNat (v % 256)).toNat = v % 256 := by simp
    rw [toLE, ofLE, ih, hbyte, Nat.pow_succ, Nat.mul_comm (256 ^ n) 256, Nat.mod_mul]

theorem ofLE_toLE_of_lt {n v : ℕ} (h : v < 256 ^ n) : ofLE (toLE n v) = v := by
  rw [ofLE_toLE, Nat.mod_eq_of_lt h]

theorem ofLE_lt (bs : List UInt8) : ofLE bs < 256 ^ bs.length := by
  induction bs with
  | nil => exact Nat.one_pos
  | cons b bs ih =>
    have hb : b.toNat < 256 := b.toNat_lt
    rw [ofLE, List.length_cons, Nat.pow_succ]
    omega

theorem ofLE_append (bs cs : List UInt8) : ofLE (bs ++ cs) = ofLE bs + 256 ^ bs.length * ofLE cs := by
  induction bs with
  | nil => rw [List.nil_append, ofLE, List.length_nil, Nat.pow_zero, Nat.one_mul, Nat.zero_add]
  | cons b bs ih =>
    rw [List.cons_append, ofLE, ofLE, ih, List.length_cons, Nat.pow_succ', Nat.mul_add,
      Nat.mul_assoc, Nat.add_assoc]

/-- Bytes of one length that spell one number are the same. -/
theorem toLE_ofLE (bs : List UInt8) : toLE bs.length (ofLE bs) = bs := by
  induction bs with
  | nil => rfl
  | cons b bs ih =>
    have hb : b.toNat < 256 := b.toNat_lt
    have hlow : (b.toNat + 256 * ofLE bs) % 256 = b.toNat := by omega
    have hhigh : (b.toNat + 256 * ofLE bs) / 256 = ofLE bs := by omega
    rw [List.length_cons, ofLE, toLE, hlow, hhigh, ih, UInt8.ofNat_toNat]

theorem ofLE_take (bs : List UInt8) (n : ℕ) : ofLE (bs.take n) = ofLE bs % 256 ^ n := by
  induction n generalizing bs with
  | zero => rw [List.take_zero, ofLE, Nat.pow_zero, Nat.mod_one]
  | succ n ih =>
    cases bs with
    | nil => exact (Nat.zero_mod _).symm
    | cons b bs =>
      have hb : b.toNat < 256 := b.toNat_lt
      rw [List.take_succ_cons, ofLE, ofLE, ih, Nat.pow_succ', Nat.mod_mul,
        show (b.toNat + 256 * ofLE bs) % 256 = b.toNat by omega,
        show (b.toNat + 256 * ofLE bs) / 256 = ofLE bs by omega]

theorem ofLE_drop (bs : List UInt8) (n : ℕ) : ofLE (bs.drop n) = ofLE bs / 256 ^ n := by
  induction n generalizing bs with
  | zero => rw [List.drop_zero, Nat.pow_zero, Nat.div_one]
  | succ n ih =>
    cases bs with
    | nil => exact (Nat.zero_div _).symm
    | cons b bs =>
      have hb : b.toNat < 256 := b.toNat_lt
      rw [List.drop_succ_cons, ofLE, ih, Nat.pow_succ', ← Nat.div_div_eq_div_mul,
        show (b.toNat + 256 * ofLE bs) / 256 = ofLE bs by omega]

/-- The first bytes of a number are its low bytes. -/
theorem take_toLE {m n : ℕ} (h : m ≤ n) (v : ℕ) : (toLE n v).take m = toLE m v := by
  induction m generalizing n v with
  | zero => exact List.take_zero
  | succ m ih =>
    obtain ⟨n, rfl⟩ := Nat.exists_eq_add_of_le' h
    rw [← Nat.add_assoc, toLE, toLE, List.take_succ_cons, ih (by omega)]

/-- Zeros behind the bytes of a number do not change it. -/
theorem toLE_append_zeros {m v : ℕ} (h : v < 256 ^ m) (j : ℕ) :
    toLE m v ++ List.replicate j 0 = toLE (m + j) v := by
  induction m generalizing v with
  | zero =>
    have hzero : v = 0 := Nat.lt_one_iff.mp h
    subst hzero
    rw [Nat.zero_add]
    induction j with
    | zero => rfl
    | succ j ih => exact congrArg (List.cons 0) ih
  | succ m ih =>
    have hlow : v / 256 < 256 ^ m := Nat.div_lt_of_lt_mul (by rwa [Nat.pow_succ, Nat.mul_comm] at h)
    rw [Nat.add_right_comm, toLE, toLE, List.cons_append, ih hlow]

theorem ofLE_append_zeros (bs : List UInt8) (j : ℕ) : ofLE (bs ++ List.replicate j 0) = ofLE bs := by
  have hlt : ofLE bs < 256 ^ (bs.length + j) :=
    (ofLE_lt bs).trans_le (Nat.pow_le_pow_right (by decide) (Nat.le_add_right _ j))
  have hzeros := toLE_append_zeros (ofLE_lt bs) j
  rw [toLE_ofLE] at hzeros
  rw [hzeros, ofLE_toLE_of_lt hlt]

/-- A number that is too small for its last byte has a zero there. -/
theorem zero_mem_toLE {n v : ℕ} (h : v < 256 ^ n) : (0 : UInt8) ∈ toLE (n + 1) v := by
  induction n generalizing v with
  | zero =>
    have hzero : v = 0 := Nat.lt_one_iff.mp h
    subst hzero
    exact List.mem_singleton.mpr rfl
  | succ n ih =>
    have hlow : v / 256 < 256 ^ n := Nat.div_lt_of_lt_mul (by rwa [Nat.pow_succ, Nat.mul_comm] at h)
    exact List.mem_cons_of_mem _ (ih hlow)

/-- A record that is written as `width` bytes, and can be read back from them. -/
structure FixedCode (α : Type*) where
  width : ℕ
  encode : α → List UInt8
  decode : List UInt8 → α
  length_encode : ∀ a, (encode a).length = width
  decode_encode : ∀ a, decode (encode a) = a

namespace FixedCode

variable {α : Type*} (c : FixedCode α)

/-- The first `width` bytes of a stream that starts with a record are this record. -/
theorem append_inj {a : α} {front rest rest' : List UInt8} (hfront : front.length = c.width)
    (h : front ++ rest = c.encode a ++ rest') : front = c.encode a ∧ rest = rest' :=
  List.append_inj h (hfront.trans (c.length_encode a).symm)

/-- Reading them gives the record. -/
theorem decode_of_append {a : α} {front rest rest' : List UInt8} (hfront : front.length = c.width)
    (h : front ++ rest = c.encode a ++ rest') : c.decode front = a ∧ rest = rest' := by
  obtain ⟨rfl, hrest⟩ := c.append_inj hfront h
  exact ⟨c.decode_encode a, hrest⟩

end FixedCode

/-- A byte. -/
def byteCode : FixedCode UInt8 where
  width := 1
  encode b := [b]
  decode bs := bs.headD 0
  length_encode _ := rfl
  decode_encode _ := rfl

def uint32Code : FixedCode UInt32 where
  width := 4
  encode n := toLE 4 n.toNat
  decode bs := UInt32.ofNat (ofLE bs)
  length_encode _ := length_toLE _ _
  decode_encode n := by
    rw [ofLE_toLE_of_lt n.toNat_lt]
    exact UInt32.ofNat_toNat

/-- At most four bytes are read as they are. -/
theorem toNat_uint32Code_decode {bs : List UInt8} (h : bs.length ≤ 4) :
    (uint32Code.decode bs).toNat = ofLE bs := by
  have hlt : ofLE bs < 2 ^ 32 :=
    (ofLE_lt bs).trans_le (Nat.pow_le_pow_right (n := 256) (by decide) h)
  exact UInt32.toNat_ofNat_of_lt' hlt

def uint64Code : FixedCode UInt64 where
  width := 8
  encode n := toLE 8 n.toNat
  decode bs := UInt64.ofNat (ofLE bs)
  length_encode _ := length_toLE _ _
  decode_encode n := by
    rw [ofLE_toLE_of_lt n.toNat_lt]
    exact UInt64.ofNat_toNat

/-- A signed number is written as the unsigned one with the same bits. -/
def int32Code : FixedCode Int32 where
  width := 4
  encode n := uint32Code.encode n.toUInt32
  decode bs := (uint32Code.decode bs).toInt32
  length_encode _ := uint32Code.length_encode _
  decode_encode n := by rw [uint32Code.decode_encode, Int32.toInt32_toUInt32]

def int64Code : FixedCode Int64 where
  width := 8
  encode n := uint64Code.encode n.toUInt64
  decode bs := (uint64Code.decode bs).toInt64
  length_encode _ := uint64Code.length_encode _
  decode_encode n := by rw [uint64Code.decode_encode, Int64.toInt64_toUInt64]

end Propd.Lib
