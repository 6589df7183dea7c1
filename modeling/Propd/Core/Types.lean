import Mathlib.Algebra.Order.Ring.Int
import Mathlib.Data.List.TakeWhile

/-!
# Basic types

C strings, status codes and time stamps as the source has them. An invalid value
cannot be built: a `CString` has no inner NUL, an `Errno` is not zero.
-/

namespace Propd

/-- A C string: the bytes before its terminating NUL. -/
structure CString where
  bytes : List UInt8
  nonul : (0 : UInt8) ∉ bytes
  deriving DecidableEq

namespace CString

theorem nonul_nil : (0 : UInt8) ∉ [] := List.not_mem_nil

/-- `strlen` -/
def length (s : CString) : ℕ := s.bytes.length

@[ext] theorem ext {s s' : CString} (h : s.bytes = s'.bytes) : s = s' := by
  cases s; cases s'; simpa using h

/-- The C string at the start of a buffer; the bytes of the buffer up to its
first NUL, and `none` where the buffer has none. -/
def ofBuffer (buf : List UInt8) : Option CString :=
  if (0 : UInt8) ∈ buf then
    some ⟨buf.takeWhile (· != 0), fun h => by simpa using List.mem_takeWhile_imp h⟩
  else none

end CString

/-- `NAME_MAX` of the system: the size of the name and key fields of the packages. -/
def NAME_MAX : ℕ := 255

/-- What `strncpy` puts into a field of `n` bytes: the start of the string, and zeros behind
it. A string of `n` bytes or more leaves no NUL. -/
def strncpy (s : CString) (n : ℕ) : List UInt8 :=
  (s.bytes ++ List.replicate n 0).take n

@[simp] theorem length_strncpy (s : CString) (n : ℕ) : (strncpy s n).length = n := by
  simp [strncpy]

/-- A string that is shorter than the field is there with its NUL. -/
theorem strncpy_of_lt {s : CString} {n : ℕ} (h : s.length < n) :
    strncpy s n = s.bytes ++ 0 :: List.replicate (n - s.length - 1) 0 := by
  have hlen : s.bytes.length < n := h
  -- the last zero of the padding is the NUL
  have hpad : n - s.bytes.length = n - s.length - 1 + 1 := by
    rw [CString.length]
    omega
  rw [strncpy, List.take_append, List.take_of_length_le hlen.le, List.take_replicate,
    Nat.min_eq_left (Nat.sub_le n _), hpad, List.replicate_succ]

/-- A buffer that starts with a string and its NUL holds that string. -/
theorem CString.ofBuffer_append (s : CString) (rest : List UInt8) :
    CString.ofBuffer (s.bytes ++ 0 :: rest) = some s := by
  -- no byte of the string ends it
  have hall : ∀ b ∈ s.bytes, (b != 0) = true := by
    intro b hb
    refine bne_iff_ne.mpr ?_
    rintro rfl
    exact s.nonul hb
  rw [CString.ofBuffer, if_pos (by simp), Option.some.injEq]
  refine CString.ext ?_
  simp only
  rw [List.takeWhile_append_of_pos hall, List.takeWhile_cons_of_neg (by simp), List.append_nil]

namespace CString

/-- One string behind another. -/
def append (s t : CString) : CString :=
  ⟨s.bytes ++ t.bytes, fun h => (List.mem_append.mp h).elim s.nonul t.nonul⟩

/-- The first `n` bytes of a string. -/
def take (s : CString) (n : ℕ) : CString :=
  ⟨s.bytes.take n, fun h => s.nonul (List.mem_of_mem_take h)⟩

/-- A buffer with a NUL is a string, this NUL and something behind it. -/
theorem exists_of_mem {buf : List UInt8} (h : (0 : UInt8) ∈ buf) :
    ∃ (s : CString) (rest : List UInt8), buf = s.bytes ++ 0 :: rest := by
  obtain ⟨front, rest, rfl, hfront⟩ := List.eq_append_cons_of_mem h
  exact ⟨⟨front, hfront⟩, rest, rfl⟩

theorem ofBuffer_eq_none {buf : List UInt8} : ofBuffer buf = none ↔ (0 : UInt8) ∉ buf := by
  unfold ofBuffer
  split
  · rename_i h
    exact iff_of_false nofun (not_not.mpr h)
  · rename_i h
    exact iff_of_true rfl h

/-- A string that begins in front of a buffer goes on in it. -/
theorem ofBuffer_append_left (s : CString) (buf : List UInt8) :
    ofBuffer (s.bytes ++ buf) = (ofBuffer buf).map s.append := by
  by_cases h : (0 : UInt8) ∈ buf
  · -- the buffer ends the string with its first NUL
    obtain ⟨t, rest, rfl⟩ := exists_of_mem h
    rw [ofBuffer_append, ← List.append_assoc]
    exact ofBuffer_append (s.append t) rest
  · -- neither part has a NUL
    rw [ofBuffer_eq_none.mpr h]
    refine ofBuffer_eq_none.mpr fun hmem => ?_
    exact (List.mem_append.mp hmem).elim s.nonul h

end CString

/-- A string that does not fit into a field fills it with its first bytes. -/
theorem strncpy_of_le {s : CString} {n : ℕ} (h : n ≤ s.length) : strncpy s n = (s.take n).bytes := by
  rw [strncpy, List.take_append_of_le_length h]
  rfl

/-- A non-zero status; the `errno` values an `int` function returns on failure. -/
abbrev Errno := { e : Int32 // e ≠ 0 }

def ENOENT : Errno := ⟨2, by decide⟩
def EIO : Errno := ⟨5, by decide⟩
def ENOMEM : Errno := ⟨12, by decide⟩
def EBUSY : Errno := ⟨16, by decide⟩
def EEXIST : Errno := ⟨17, by decide⟩
def EINVAL : Errno := ⟨22, by decide⟩
def ERANGE : Errno := ⟨34, by decide⟩
def EOPNOTSUPP : Errno := ⟨95, by decide⟩
def ENOBUFS : Errno := ⟨105, by decide⟩

/-- The status of a function that returns a negated `errno`. -/
def Errno.neg (e : Errno) : Errno :=
  ⟨-e.1, fun h => e.2 (by rw [← Int32.neg_neg (a := e.1), h]; rfl)⟩

/-- A status code as a result: `0` is success. -/
def statusOf (n : Int32) : Except Errno Unit :=
  if h : n = 0 then .ok () else .error ⟨n, h⟩

/-- The `int` a function returns for a result. -/
def retOf {α : Type} : Except Errno α → Int32
  | .ok _ => 0
  | .error e => e.1

/-- A mapped result that is a success comes from a success. -/
theorem exceptMap_ok {ε α β : Type} {f : α → β} {x : Except ε α} {b : β}
    (h : x.map f = .ok b) : ∃ a, x = .ok a ∧ f a = b := by
  cases x with
  | error e => cases h
  | ok a => exact ⟨a, rfl, Except.ok.inj h⟩

/-- A program that succeeds succeeds part by part. -/
theorem exceptBind_ok {ε α β : Type} {x : Except ε α} {f : α → Except ε β} {b : β}
    (h : (x >>= f) = .ok b) : ∃ a, x = .ok a ∧ f a = .ok b := by
  cases x with
  | error e => cases h
  | ok a => exact ⟨a, rfl, h⟩

theorem statusOf_retOf {α : Type} (ret : Except Errno α) :
    statusOf (retOf ret) = ret.map fun _ => () := by
  cases ret with
  | ok a => rfl
  | error e => exact dif_neg e.2

/-- Of a result without a value nothing is lost. -/
theorem statusOf_retOf_unit (ret : Except Errno Unit) : statusOf (retOf ret) = ret := by
  rw [statusOf_retOf]
  cases ret with
  | ok u => rfl
  | error e => rfl

/-- Nanoseconds, as a signed 64-bit integer. -/
abbrev Timestamp := Int64

/-- `DURATION_INF`: an entry with this duration never expires. -/
def DURATION_INF : Timestamp := Int64.maxValue

/-- What a function does instead of returning: it reads or writes memory it must not, an
assertion fails, a mutex is destroyed while it is locked, or it waits for what never comes. -/
inductive Fault
  | nullDeref
  | uninitFree
  | useAfterFree
  | outOfBounds
  | assertion
  | lockedDestroy
  | blocked
  deriving DecidableEq

end Propd
