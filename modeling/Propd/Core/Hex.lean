import Propd.Core.Types
import Propd.Lib.Numeral

/-!
# Bytes as hexadecimal text

`hexmem` and `hex2mem` of `misc.c`. `hex2mem` stops at the first character that is not a
hexadecimal digit, and fails where that leaves half a byte or the memory is full.
-/

namespace Propd

open Lib

def dec2hexchar (dec : UInt8) (upper : Bool) : UInt8 :=
  if 10 ≤ dec then dec - 10 + (if upper then 65 else 97) else dec + 48

def hexchar2dec (hexchar : UInt8) : UInt8 :=
  if 48 ≤ hexchar ∧ hexchar ≤ 57 then hexchar - 48
  else if 65 ≤ hexchar ∧ hexchar ≤ 70 then 10 + (hexchar - 65)
  else 10 + (hexchar - 97)

def ishexchar (hexchar : UInt8) : Bool :=
  (48 ≤ hexchar && hexchar ≤ 57) || (65 ≤ hexchar && hexchar ≤ 70) ||
    (97 ≤ hexchar && hexchar ≤ 102)

/-- The two characters `hexmem` writes for each byte. -/
def hexChars (upper : Bool) (memory : List UInt8) : List UInt8 :=
  memory.flatMap fun x : UInt8 => [dec2hexchar (x >>> 4) upper, dec2hexchar (x &&& 15) upper]

/-- `hexmem`, into a buffer of `b` bytes: the text it writes in front of a NUL. -/
def hexmem (b : ℕ) (memory : List UInt8) (upper : Bool) : Except Fault (List UInt8) :=
  if b = 0 then .error .assertion
  else
    let m := memory.length
    -- bytes for which there is room
    let c := (b - 1) / 2
    if m ≤ c then .ok (hexChars upper memory)
    else if c < 3 then .ok (List.replicate (b - 1) 46)
    else
      let d := m - c + 1
      .ok (hexChars upper (memory.take ((m - d) / 2)) ++ [46, 46] ++
        hexChars upper (memory.drop ((m + d) / 2)))

/-- The loop of `hex2mem`, with room for `len` bytes: the bytes it writes, and whether it comes to
its end. The end of the list is the NUL, which is no digit. -/
def hex2memLoop : List UInt8 → ℕ → List UInt8 × Bool
  | [], _ => ([], true)
  | [c], len =>
    if !ishexchar c then ([], true)
    else if len = 0 then ([], false)
    else ([hexchar2dec c <<< 4], false)
  | c :: d :: s, len =>
    if !ishexchar c then ([], true)
    else if len = 0 then ([], false)
    else if !ishexchar d then ([hexchar2dec c <<< 4], false)
    else
      let rest := hex2memLoop s (len - 1)
      ((hexchar2dec c <<< 4 ||| hexchar2dec d) :: rest.1, rest.2)

/-- What follows an optional `0x`. -/
def skipHexPrefix : List UInt8 → List UInt8
  | 48 :: x :: s => if x = 120 ∨ x = 88 then s else 48 :: x :: s
  | s => s

/-- `hex2mem` -/
def hex2mem (len : ℕ) (str : CString) : List UInt8 × Bool :=
  hex2memLoop (skipHexPrefix str.bytes) len

/-- The hexadecimal digits, in order. -/
def hexDigits (upper : Bool) : List Char :=
  ['0', '1', '2', '3', '4', '5', '6', '7', '8', '9'] ++
    if upper then ['A', 'B', 'C', 'D', 'E', 'F'] else ['a', 'b', 'c', 'd', 'e', 'f']

/-- The digit of a number below 16. -/
def hexDigit (upper : Bool) (n : ℕ) : UInt8 := ((hexDigits upper).getD n '0').toUInt8

/-- The hex dump of a memory: two digits for each byte, the higher one first. -/
def hexDump (upper : Bool) (memory : List UInt8) : List UInt8 :=
  memory.flatMap fun x => [hexDigit upper (x.toNat / 16), hexDigit upper (x.toNat % 16)]

/-- The bytes that hexadecimal digits spell, two digits a byte. -/
def hexBytes : List UInt8 → List UInt8
  | c :: d :: s => UInt8.ofNat (16 * digitValue c + digitValue d) :: hexBytes s
  | _ => []

/-! ## Digits -/

/-- **What `hexmem` writes for bytes is their dump.** -/
theorem hexChars_eq (upper : Bool) (memory : List UInt8) :
    hexChars upper memory = hexDump upper memory := by
  -- all bytes at once
  have hall : ∀ n < 256, ∀ upper,
      dec2hexchar (UInt8.ofNat n >>> 4) upper = hexDigit upper (n / 16) ∧
        dec2hexchar (UInt8.ofNat n &&& 15) upper = hexDigit upper (n % 16) := by decide +kernel
  unfold hexChars hexDump
  refine List.flatMap_congr fun x _ => ?_
  have hx := hall x.toNat x.toNat_lt upper
  rw [UInt8.ofNat_toNat] at hx
  rw [hx.1, hx.2]

theorem hexchar2dec_eq {c : UInt8} (h : ishexchar c = true) :
    hexchar2dec c = UInt8.ofNat (digitValue c) ∧ digitValue c < 16 := by
  -- all characters at once
  have hall : ∀ n < 256, ishexchar (UInt8.ofNat n) = true →
      hexchar2dec (UInt8.ofNat n) = UInt8.ofNat (digitValue (UInt8.ofNat n)) ∧
        digitValue (UInt8.ofNat n) < 16 := by decide +kernel
  have hc := hall c.toNat c.toNat_lt
  rw [UInt8.ofNat_toNat] at hc
  exact hc h

/-- The byte of two digits. -/
theorem hexByte_eq {c d : UInt8} (hc : ishexchar c = true) (hd : ishexchar d = true) :
    hexchar2dec c <<< 4 ||| hexchar2dec d = UInt8.ofNat (16 * digitValue c + digitValue d) := by
  have hall : ∀ x < 16, ∀ y < 16,
      UInt8.ofNat x <<< 4 ||| UInt8.ofNat y = UInt8.ofNat (16 * x + y) := by decide +kernel
  obtain ⟨hxc, hltc⟩ := hexchar2dec_eq hc
  obtain ⟨hxd, hltd⟩ := hexchar2dec_eq hd
  rw [hxc, hxd]
  exact hall _ hltc _ hltd

/-! ## What is decoded -/

theorem length_hexBytes (s : List UInt8) : (hexBytes s).length = s.length / 2 := by
  induction s using hexBytes.induct with
  | case1 c d s ih =>
    rw [hexBytes, List.length_cons, ih, List.length_cons, List.length_cons]
    omega
  | case2 s hshort =>
    cases s with
    | nil => rfl
    | cons c s =>
      cases s with
      | nil => simp [hexBytes]
      | cons d s => exact absurd rfl (hshort c d s)

/-- **The loop decodes the digits a text starts with** if they make whole bytes for which there is
room. -/
theorem hex2memLoop_eq (s : List UInt8) (len : ℕ) :
    ((hex2memLoop s len).2 = true ↔
        2 ∣ (s.takeWhile ishexchar).length ∧ (s.takeWhile ishexchar).length ≤ 2 * len) ∧
      ((hex2memLoop s len).2 = true → (hex2memLoop s len).1 = hexBytes (s.takeWhile ishexchar)) := by
  induction s, len using hex2memLoop.induct with
  | case1 len => simp [hex2memLoop, hexBytes]
  -- the last character
  | case2 c len hc =>
    rw [Bool.not_eq_true'] at hc
    simp [hex2memLoop, hexBytes, hc]
  | case3 c hc =>
    rw [Bool.not_eq_true', Bool.not_eq_false] at hc
    simp [hex2memLoop, hc]
  | case4 c len hc hlen =>
    rw [Bool.not_eq_true', Bool.not_eq_false] at hc
    simp [hex2memLoop, hc, hlen]
  -- two characters
  | case5 c d s len hc =>
    rw [Bool.not_eq_true'] at hc
    simp [hex2memLoop, hexBytes, hc]
  | case6 c d s hc =>
    rw [Bool.not_eq_true', Bool.not_eq_false] at hc
    simp [hex2memLoop, hc]
  | case7 c d s len hc hlen hd =>
    rw [Bool.not_eq_true', Bool.not_eq_false] at hc
    rw [Bool.not_eq_true'] at hd
    simp [hex2memLoop, hc, hlen, hd]
  | case8 c d s len hc hlen hd ih =>
    rw [Bool.not_eq_true', Bool.not_eq_false] at hc hd
    obtain ⟨hok, hbytes⟩ := ih
    have hstep : hex2memLoop (c :: d :: s) len =
        (UInt8.ofNat (16 * digitValue c + digitValue d) :: (hex2memLoop s (len - 1)).1,
          (hex2memLoop s (len - 1)).2) := by
      rw [← hexByte_eq hc hd]
      simp [hex2memLoop, hc, hlen, hd]
    rw [hstep, List.takeWhile_cons_of_pos hc, List.takeWhile_cons_of_pos hd, List.length_cons,
      List.length_cons, hexBytes]
    refine ⟨?_, fun h => by rw [hbytes h]⟩
    rw [hok]
    omega

/-- The text has an even number of digits and nothing else, behind an optional `0x`. -/
def IsHexText (s bytes : List UInt8) : Prop :=
  ∃ digits, skipHexPrefix s = digits ∧ (∀ c ∈ digits, ishexchar c = true) ∧
    2 ∣ digits.length ∧ hexBytes digits = bytes

end Propd
