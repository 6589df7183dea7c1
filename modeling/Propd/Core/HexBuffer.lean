import Propd.Core.Buffer
import Propd.Core.Hex

/-!
# Hexadecimal text in buffers

`hexmem` and `hex2mem` once more, with the buffers that they write to: where each character and
each byte goes, and that none goes beside its buffer. What they leave there is the text and the
bytes of `hexmem` and `hex2mem` as functions.

Sizes are exact numbers: no object is so large that twice its size does not fit a `size_t`.
-/

namespace Propd

open Lib

/-! ## Writing text -/

/-- A loop of `hexmem`: the digits of `n` bytes of the memory from `i` on are written from `ptr` on.
The buffer and the pointer afterwards. -/
def hexmemLoop (memory : List UInt8) (upper : Bool) :
    ℕ → ℕ → List UInt8 → ℕ → Except Fault (List UInt8 × ℕ)
  | 0, _, buffer, ptr => .ok (buffer, ptr)
  | n + 1, i, buffer, ptr => do
    let x ← loadAt memory i
    let buffer ← storeAt buffer ptr (dec2hexchar (x >>> 4) upper)
    let buffer ← storeAt buffer (ptr + 1) (dec2hexchar (x &&& 15) upper)
    hexmemLoop memory upper n (i + 1) buffer (ptr + 2)

/-- `hexmem`: the buffer afterwards. The memory can be `NULL`. -/
def hexmemBuffer (buffer : List UInt8) (memory : Option (List UInt8)) (upper : Bool) :
    Except Fault (List UInt8) :=
  if buffer.length = 0 then .error .assertion
  else
    match memory with
    | none => storeAt buffer 0 0
    | some memory =>
      if memory.length = 0 then storeAt buffer 0 0
      else
        let m := memory.length
        -- one byte is for the NUL
        let b := buffer.length - 1
        let c := b / 2
        if m ≤ c then do
          let (buffer, ptr) ← hexmemLoop memory upper m 0 buffer 0
          storeAt buffer ptr 0
        else if c < 3 then do
          let buffer ← storeAll buffer 0 (List.replicate b 46)
          storeAt buffer b 0
        else do
          let d := m - c + 1
          let (buffer, ptr) ← hexmemLoop memory upper ((m - d) / 2) 0 buffer 0
          let buffer ← storeAt buffer ptr 46
          let buffer ← storeAt buffer (ptr + 1) 46
          let (buffer, ptr) ←
            hexmemLoop memory upper (m - (m + d) / 2) ((m + d) / 2) buffer (ptr + 2)
          storeAt buffer ptr 0

theorem hexChars_cons (upper : Bool) (x : UInt8) (memory : List UInt8) :
    hexChars upper (x :: memory) =
      dec2hexchar (x >>> 4) upper :: dec2hexchar (x &&& 15) upper :: hexChars upper memory :=
  rfl

@[simp] theorem length_hexChars (upper : Bool) (memory : List UInt8) :
    (hexChars upper memory).length = 2 * memory.length := by
  induction memory with
  | nil => rfl
  | cons x memory ih =>
    rw [hexChars_cons, List.length_cons, List.length_cons, ih, List.length_cons]
    omega

/-- **A loop overwrites the place of its digits**, if that is in the buffer. -/
theorem hexmemLoop_ok {memory buffer : List UInt8} {n i ptr : ℕ} (upper : Bool)
    (hread : i + n ≤ memory.length) (hwrite : ptr + 2 * n ≤ buffer.length) :
    hexmemLoop memory upper n i buffer ptr =
      .ok (overwrite buffer ptr (hexChars upper ((memory.drop i).take n)), ptr + 2 * n) := by
  induction n generalizing i buffer ptr with
  | zero =>
    rw [hexmemLoop, List.take_zero, hexChars, List.flatMap_nil, overwrite_nil, Nat.mul_zero,
      Nat.add_zero]
  | succ n ih =>
    have hi : i < memory.length := by omega
    have hptr : ptr < buffer.length := by omega
    have hptr' : ptr + 1 < (buffer.set ptr (dec2hexchar (memory[i] >>> 4) upper)).length := by
      rw [List.length_set]
      omega
    have hrest : ptr + 2 + 2 * n ≤ ((buffer.set ptr (dec2hexchar (memory[i] >>> 4) upper)).set
        (ptr + 1) (dec2hexchar (memory[i] &&& 15) upper)).length := by
      rw [List.length_set, List.length_set]
      omega
    have hloop := ih (i := i + 1) (by omega) hrest
    rw [List.drop_eq_getElem_cons hi, List.take_succ_cons, hexChars_cons, overwrite_cons _ hptr,
      overwrite_cons _ hptr', Nat.mul_succ, Nat.add_comm (2 * n), ← Nat.add_assoc ptr]
    rw [hexmemLoop, loadAt_ok (List.getElem?_eq_getElem hi)]
    simp only [bind, Except.bind, storeAt_ok hptr, storeAt_ok hptr']
    exact hloop

section Text

variable {buffer text : List UInt8} {ptr : ℕ}

/-- A character behind the text that is there. -/
theorem storeAt_text (buffer : List UInt8) (x : UInt8) (hptr : ptr = text.length)
    (h : text.length < buffer.length) :
    storeAt (overwrite buffer 0 text) ptr x = .ok (overwrite buffer 0 (text ++ [x])) := by
  have hlen : (overwrite buffer 0 text).length = buffer.length := length_overwrite (by omega)
  have hone : ptr < (overwrite buffer 0 text).length := by omega
  rw [storeAt_ok hone, overwrite_append text [x] (by omega), Nat.zero_add, ← hptr,
    overwrite_cons x hone, overwrite_nil]

/-- Digits behind the text that is there. -/
theorem hexmemLoop_text (buffer memory : List UInt8) {n i : ℕ} (upper : Bool)
    (hptr : ptr = text.length) (hread : i + n ≤ memory.length)
    (hwrite : text.length + 2 * n ≤ buffer.length) :
    hexmemLoop memory upper n i (overwrite buffer 0 text) ptr =
      .ok (overwrite buffer 0 (text ++ hexChars upper ((memory.drop i).take n)), ptr + 2 * n) := by
  have hlen : (overwrite buffer 0 text).length = buffer.length := length_overwrite (by omega)
  rw [hexmemLoop_ok upper hread (by omega), overwrite_append text _ (by omega), Nat.zero_add, hptr]

variable {memory : List UInt8}

/-- Where all bytes have room, all are written. -/
theorem hexmemBuffer_full (upper : Bool) (hb : buffer.length ≠ 0)
    (hfull : memory.length ≤ (buffer.length - 1) / 2) :
    hexmemBuffer buffer (some memory) upper =
      .ok (overwrite buffer 0 (hexChars upper memory ++ [0])) := by
  have htext : (hexChars upper memory).length < buffer.length := by
    rw [length_hexChars]
    omega
  unfold hexmemBuffer
  by_cases hm : memory.length = 0
  · -- no byte is as good as no memory
    obtain rfl := List.length_eq_zero_iff.mp hm
    have hnul : storeAt (overwrite buffer 0 []) 0 0 = _ := storeAt_text buffer 0 rfl htext
    rw [overwrite_nil] at hnul
    simp only [if_neg hb]
    exact hnul
  · have hloop : hexmemLoop memory upper memory.length 0 buffer 0 =
        .ok (overwrite buffer 0 (hexChars upper memory), 2 * memory.length) := by
      rw [hexmemLoop_ok upper (by omega) (by omega), List.drop_zero, List.take_length,
        Nat.zero_add]
    have hnul := storeAt_text buffer 0 (length_hexChars upper memory).symm htext
    simp only [if_neg hb, if_neg hm, if_pos hfull, bind, Except.bind, hloop]
    exact hnul

/-- Where there is room for less than three bytes, none is written. -/
theorem hexmemBuffer_dots (upper : Bool) (hb : buffer.length ≠ 0)
    (hfull : ¬ memory.length ≤ (buffer.length - 1) / 2) (hdots : (buffer.length - 1) / 2 < 3) :
    hexmemBuffer buffer (some memory) upper =
      .ok (overwrite buffer 0 (List.replicate (buffer.length - 1) 46 ++ [0])) := by
  have hm : memory.length ≠ 0 := by omega
  have htext : (List.replicate (buffer.length - 1) (46 : UInt8)).length < buffer.length := by
    rw [List.length_replicate]
    omega
  have hstore := storeAll_ok (i := 0) ((Nat.zero_add _).trans_le htext.le)
  have hnul := storeAt_text buffer 0 List.length_replicate.symm htext
  unfold hexmemBuffer
  simp only [if_neg hb, if_neg hm, if_neg hfull, if_pos hdots, bind, Except.bind, hstore]
  exact hnul

/-- **Where there is room for some of the bytes, those at both ends are written**, with two dots in
the place of a byte between them. -/
theorem hexmemBuffer_ends (upper : Bool) {left right : ℕ}
    (hfull : ¬ memory.length ≤ (buffer.length - 1) / 2) (hdots : ¬ (buffer.length - 1) / 2 < 3)
    (hleft : (memory.length - (memory.length - (buffer.length - 1) / 2 + 1)) / 2 = left)
    (hright : (memory.length + (memory.length - (buffer.length - 1) / 2 + 1)) / 2 = right) :
    hexmemBuffer buffer (some memory) upper =
      .ok (overwrite buffer 0 (hexChars upper (memory.take left) ++ [46, 46] ++
        hexChars upper (memory.drop right) ++ [0])) := by
  have hb : buffer.length ≠ 0 := by omega
  have hm : memory.length ≠ 0 := by omega
  have hboth : left + (memory.length - right) = (buffer.length - 1) / 2 - 1 := by omega
  -- how far the text has come after each step
  have hlen : (hexChars upper (memory.take left)).length = 2 * left := by
    rw [length_hexChars, List.length_take_of_le (by omega)]
  have hlen' : (hexChars upper (memory.take left) ++ [46]).length = 2 * left + 1 := by
    rw [List.length_append, hlen, List.length_singleton]
  have hlen'' : (hexChars upper (memory.take left) ++ [46, 46]).length = 2 * left + 2 := by
    rw [List.length_append, hlen]
    rfl
  have htext : (hexChars upper (memory.take left) ++ [46, 46] ++
      hexChars upper (memory.drop right)).length = 2 * left + 2 + 2 * (memory.length - right) := by
    rw [List.length_append, hlen'', length_hexChars, List.length_drop]
  have hloop : hexmemLoop memory upper left 0 buffer 0 =
      .ok (overwrite buffer 0 (hexChars upper (memory.take left)), 2 * left) := by
    rw [hexmemLoop_ok upper (by omega) (by omega), List.drop_zero, Nat.zero_add]
  have hdot := storeAt_text buffer 46 hlen.symm (by omega)
  have hdot' := storeAt_text buffer 46 hlen'.symm (by omega)
  rw [List.append_assoc, List.singleton_append] at hdot'
  have hloop' := hexmemLoop_text buffer memory (n := memory.length - right) (i := right) upper
    hlen''.symm (by omega) (by omega)
  rw [List.take_of_length_le (List.length_drop ..).le] at hloop'
  have hnul := storeAt_text buffer 0 htext.symm (by omega)
  unfold hexmemBuffer
  simp only [if_neg hb, if_neg hm, if_neg hfull, if_neg hdots, hleft, hright, bind, Except.bind,
    hloop, hdot, hdot', hloop']
  exact hnul

/-- **The buffer holds the text of `hexmem` and a NUL**, and is as it was behind it. -/
theorem hexmemBuffer_eq (buffer memory : List UInt8) (upper : Bool) :
    hexmemBuffer buffer (some memory) upper =
      (hexmem buffer.length memory upper).map fun text => overwrite buffer 0 (text ++ [0]) := by
  unfold hexmem
  by_cases hb : buffer.length = 0
  · rw [if_pos hb, hexmemBuffer, if_pos hb]
    rfl
  · rw [if_neg hb]
    by_cases hfull : memory.length ≤ (buffer.length - 1) / 2
    · rw [hexmemBuffer_full upper hb hfull]
      simp only [if_pos hfull]
      rfl
    · by_cases hdots : (buffer.length - 1) / 2 < 3
      · rw [hexmemBuffer_dots upper hb hfull hdots]
        simp only [if_neg hfull, if_pos hdots]
        rfl
      · rw [hexmemBuffer_ends upper hfull hdots rfl rfl]
        simp only [if_neg hfull, if_neg hdots]
        rfl

end Text

/-! ## Digits and bytes -/

/-- The characters that are written are digits. -/
theorem ishexchar_of_mem_hexChars {upper : Bool} {memory : List UInt8} {c : UInt8}
    (h : c ∈ hexChars upper memory) : ishexchar c = true := by
  -- all bytes at once
  have hall : ∀ n < 256, ∀ upper,
      ishexchar (dec2hexchar (UInt8.ofNat n >>> 4) upper) = true ∧
        ishexchar (dec2hexchar (UInt8.ofNat n &&& 15) upper) = true := by decide +kernel
  induction memory with
  | nil => cases h
  | cons x memory ih =>
    have hx := hall x.toNat x.toNat_lt upper
    rw [UInt8.ofNat_toNat] at hx
    rw [hexChars_cons] at h
    rcases List.mem_cons.mp h with rfl | h
    · exact hx.1
    · rcases List.mem_cons.mp h with rfl | h
      · exact hx.2
      · exact ih h

theorem zero_notMem_hexChars (upper : Bool) (memory : List UInt8) :
    (0 : UInt8) ∉ hexChars upper memory := by
  intro h
  have hdigit := ishexchar_of_mem_hexChars h
  revert hdigit
  decide

/-- **The digits of bytes spell these bytes.** -/
theorem hexBytes_hexChars (upper : Bool) (memory : List UInt8) :
    hexBytes (hexChars upper memory) = memory := by
  have hall : ∀ n < 256, ∀ upper,
      UInt8.ofNat (16 * digitValue (dec2hexchar (UInt8.ofNat n >>> 4) upper) +
        digitValue (dec2hexchar (UInt8.ofNat n &&& 15) upper)) = UInt8.ofNat n := by
    decide +kernel
  induction memory with
  | nil => rfl
  | cons x memory ih =>
    have hx := hall x.toNat x.toNat_lt upper
    rw [UInt8.ofNat_toNat] at hx
    rw [hexChars_cons, hexBytes, hx, ih]

/-- Digits do not start with `0x`. -/
theorem skipHexPrefix_of_digits {s : List UInt8} (h : ∀ c ∈ s, ishexchar c = true) :
    skipHexPrefix s = s := by
  unfold skipHexPrefix
  split
  · rename_i x s
    have hx := h x (by simp)
    rw [if_neg]
    rintro (rfl | rfl)
    · revert hx
      decide
    · revert hx
      decide
  · rfl

/-- **`hexmem` writes the whole dump where it has room for it**, else both ends of it with dots
between them, or dots only; and never beside the buffer. -/
theorem hexmemBuffer_text (buffer : List UInt8) (memory : Option (List UInt8)) (upper : Bool)
    (hb : 1 ≤ buffer.length) :
    ∃ text, hexmemBuffer buffer memory upper = .ok (text ++ 0 :: buffer.drop (text.length + 1)) ∧
      text.length < buffer.length ∧ 0 ∉ text ∧
      (2 * (memory.getD []).length ≤ buffer.length - 1 →
        text = hexDump upper (memory.getD [])) ∧
      (buffer.length - 1 < 2 * (memory.getD []).length → 3 ≤ (buffer.length - 1) / 2 →
        ∃ L R, L = ((buffer.length - 1) / 2 - 1) / 2 ∧ L + R = (buffer.length - 1) / 2 - 1 ∧
          L + R < (memory.getD []).length ∧
          text = hexDump upper ((memory.getD []).take L) ++ [46, 46] ++
            hexDump upper ((memory.getD []).drop ((memory.getD []).length - R))) ∧
      (buffer.length - 1 < 2 * (memory.getD []).length → (buffer.length - 1) / 2 < 3 →
        text = List.replicate (buffer.length - 1) 46) := by
  have hb' : buffer.length ≠ 0 := Nat.one_le_iff_ne_zero.mp hb
  -- no memory is as good as no bytes
  have hnull : hexmemBuffer buffer memory upper =
      hexmemBuffer buffer (some (memory.getD [])) upper := by
    cases memory with
    | some memory => rfl
    | none =>
      unfold hexmemBuffer
      rw [if_neg hb', if_neg hb']
      rfl
  rw [hnull]
  generalize memory.getD [] = bytes
  have hput : ∀ text : List UInt8,
      overwrite buffer 0 (text ++ [0]) = text ++ 0 :: buffer.drop (text.length + 1) := by
    intro text
    rw [overwrite_zero, List.length_append, List.length_singleton, List.append_assoc,
      List.singleton_append]
  by_cases hfull : bytes.length ≤ (buffer.length - 1) / 2
  · refine ⟨hexChars upper bytes, ?_, ?_, zero_notMem_hexChars upper bytes,
      fun _ => hexChars_eq upper bytes, ?_, ?_⟩
    · rw [hexmemBuffer_full upper hb' hfull, hput]
    · rw [length_hexChars]
      omega
    · omega
    · omega
  · by_cases hdots : (buffer.length - 1) / 2 < 3
    · refine ⟨List.replicate (buffer.length - 1) 46, ?_, ?_, ?_, ?_, ?_, fun _ _ => rfl⟩
      · rw [hexmemBuffer_dots upper hb' hfull hdots, hput]
      · rw [List.length_replicate]
        omega
      · intro hmem
        cases List.eq_of_mem_replicate hmem
      · omega
      · omega
    · obtain ⟨left, hleft⟩ : ∃ left,
          (bytes.length - (bytes.length - (buffer.length - 1) / 2 + 1)) / 2 = left := ⟨_, rfl⟩
      obtain ⟨right, hright⟩ : ∃ right,
          (bytes.length + (bytes.length - (buffer.length - 1) / 2 + 1)) / 2 = right := ⟨_, rfl⟩
      have hsize : (hexChars upper (bytes.take left) ++ [46, 46] ++
          hexChars upper (bytes.drop right)).length =
            2 * left + 2 + 2 * (bytes.length - right) := by
        rw [List.length_append, List.length_append, length_hexChars, length_hexChars,
          List.length_take_of_le (by omega), List.length_drop]
        rfl
      refine ⟨hexChars upper (bytes.take left) ++ [46, 46] ++ hexChars upper (bytes.drop right),
        ?_, by omega, ?_, by omega, fun _ _ => ⟨left, bytes.length - right, by omega, by omega,
          by omega, ?_⟩, by omega⟩
      · rw [hexmemBuffer_ends upper hfull hdots hleft hright, hput]
      · intro hmem
        rcases List.mem_append.mp hmem with hmem | hmem
        · rcases List.mem_append.mp hmem with hmem | hmem
          · exact zero_notMem_hexChars upper _ hmem
          · revert hmem
            decide
        · exact zero_notMem_hexChars upper _ hmem
      · rw [Nat.sub_sub_self (by omega), hexChars_eq, hexChars_eq]

/-- Of eight bytes there is room for three at either end: `010203..060708`. -/
theorem hexmemBuffer_text_eight :
    hexmemBuffer (List.replicate 16 1) (some [1, 2, 3, 4, 5, 6, 7, 8]) false =
      .ok [48, 49, 48, 50, 48, 51, 46, 46, 48, 54, 48, 55, 48, 56, 0, 1] := by
  obtain ⟨text, htext, -, -, -, hends, -⟩ := hexmemBuffer_text (List.replicate 16 1)
    (some [1, 2, 3, 4, 5, 6, 7, 8]) false (by decide)
  obtain ⟨L, R, hL, hR, -, rfl⟩ := hends (by decide) (by decide)
  have hL : L = 3 := hL
  subst hL
  have hR : 3 + R = 6 := hR
  obtain rfl : R = 3 := by omega
  exact htext.trans (by decide)

/-! ## Reading text -/

/-- The loop of `hex2mem` at its byte `i`: the memory afterwards, and how many bytes it has then,
or `none` where the loop gives up. The end of the list is the NUL, which is no digit. -/
def hex2memStore : List UInt8 → ℕ → ℕ → List UInt8 → Except Fault (List UInt8 × Option ℕ)
  | [], i, _, addr => .ok (addr, some i)
  | [c], i, len, addr =>
    if !ishexchar c then .ok (addr, some i)
    else if i = len then .ok (addr, none)
    else do
      let addr ← storeAt addr i (hexchar2dec c <<< 4)
      .ok (addr, none)
  | c :: d :: s, i, len, addr =>
    if !ishexchar c then .ok (addr, some i)
    else if i = len then .ok (addr, none)
    else do
      let addr ← storeAt addr i (hexchar2dec c <<< 4)
      if !ishexchar d then .ok (addr, none)
      else
        let x ← loadAt addr i
        let addr ← storeAt addr i (x ||| hexchar2dec d)
        hex2memStore s (i + 1) len addr

/-- `hex2mem`: the memory and the length afterwards, and whether the memory is returned, or else
`NULL`. -/
def hex2memBuffer (addr : List UInt8) (len : ℕ) (str : CString) :
    Except Fault (List UInt8 × ℕ × Bool) := do
  match ← hex2memStore (skipHexPrefix str.bytes) 0 len addr with
  | (addr, some i) => .ok (addr, i, true)
  | (addr, none) => .ok (addr, len, false)

/-- No more bytes are written than there is room for. -/
theorem length_hex2memLoop_le (s : List UInt8) (n : ℕ) : (hex2memLoop s n).1.length ≤ n := by
  induction s, n using hex2memLoop.induct with
  | case1 n => exact Nat.zero_le n
  | case2 c n hc => simp [hex2memLoop, hc]
  | case3 c hc => simp [hex2memLoop, hc]
  | case4 c n hc hn =>
    simp [hex2memLoop, hc, hn]
    omega
  | case5 c d s n hc => simp [hex2memLoop, hc]
  | case6 c d s hc => simp [hex2memLoop, hc]
  | case7 c d s n hc hn hd =>
    simp [hex2memLoop, hc, hn, hd]
    omega
  | case8 c d s n hc hn hd ih =>
    simp [hex2memLoop, hc, hn, hd]
    omega

/-- **The loop overwrites the memory with the bytes of `hex2memLoop`.** -/
theorem hex2memStore_eq (s : List UInt8) (n : ℕ) {i : ℕ} {addr : List UInt8}
    (hlen : i + n ≤ addr.length) :
    hex2memStore s i (i + n) addr = .ok (overwrite addr i (hex2memLoop s n).1,
      if (hex2memLoop s n).2 then some (i + (hex2memLoop s n).1.length) else none) := by
  induction s, n using hex2memLoop.induct generalizing i addr with
  | case1 n => simp [hex2memStore, hex2memLoop]
  -- the last character
  | case2 c n hc => simp [hex2memStore, hex2memLoop, hc]
  | case3 c hc => simp [hex2memStore, hex2memLoop, hc]
  | case4 c n hc hn =>
    have hi : i < addr.length := by omega
    simp [hex2memStore, hex2memLoop, hc, hn, storeAt_ok hi, overwrite_cons _ hi, bind, Except.bind]
  -- two characters
  | case5 c d s n hc => simp [hex2memStore, hex2memLoop, hc]
  | case6 c d s hc => simp [hex2memStore, hex2memLoop, hc]
  | case7 c d s n hc hn hd =>
    have hi : i < addr.length := by omega
    simp [hex2memStore, hex2memLoop, hc, hn, hd, storeAt_ok hi, overwrite_cons _ hi, bind,
      Except.bind]
  | case8 c d s n hc hn hd ih =>
    have hi : i < addr.length := by omega
    have hi' : i < (addr.set i (hexchar2dec c <<< 4)).length := by rwa [List.length_set]
    have hload : loadAt (addr.set i (hexchar2dec c <<< 4)) i = .ok (hexchar2dec c <<< 4) :=
      loadAt_ok (List.getElem?_set_self hi)
    have hroom : i + 1 + (n - 1) ≤ (addr.set i (hexchar2dec c <<< 4 ||| hexchar2dec d)).length := by
      rw [List.length_set]
      omega
    have hrest := ih hroom
    rw [show i + 1 + (n - 1) = i + n by omega] at hrest
    simp [hex2memStore, hex2memLoop, hc, hn, hd, storeAt_ok hi, storeAt_ok hi', hload,
      overwrite_cons _ hi, bind, Except.bind, hrest, Nat.add_assoc, Nat.add_comm 1]

/-- **What `hex2mem` does with a string**: it decodes the digits in front, if they are whole bytes
and have room. -/
theorem hex2memBuffer_eq {addr : List UInt8} {len : ℕ} (str : CString) (hlen : len ≤ addr.length) :
    hex2memBuffer addr len str = .ok (overwrite addr 0 (hex2mem len str).1,
      if (hex2mem len str).2 then ((hex2mem len str).1.length, true) else (len, false)) := by
  have hloop := hex2memStore_eq (skipHexPrefix str.bytes) len (i := 0)
    ((Nat.zero_add len).trans_le hlen)
  rw [Nat.zero_add, Nat.zero_add] at hloop
  rw [hex2memBuffer, hex2mem, hloop]
  cases (hex2memLoop (skipHexPrefix str.bytes) len).2 <;> rfl

/-- **`hex2mem` undoes `hexmem`**, whatever stands in front of the digits and in the memory; and it
fails on exactly those strings whose run of digits has half a byte or more bytes than there is room
for. It does not write beside the room, and where it fails the length is what it was. -/
theorem hex2memBuffer_hexmemBuffer :
    (∀ (buffer memory : List UInt8) (upper : Bool), 2 * memory.length + 1 ≤ buffer.length →
      ∃ text : CString,
        hexmemBuffer buffer (some memory) upper =
          .ok (text.bytes ++ 0 :: buffer.drop (text.length + 1)) ∧
        ∀ str : CString, str.bytes = text.bytes ∨ str.bytes = 48 :: 120 :: text.bytes ∨
            str.bytes = 48 :: 88 :: text.bytes →
          ∀ (addr : List UInt8) (len : ℕ), memory.length ≤ len → len ≤ addr.length →
            hex2memBuffer addr len str =
              .ok (memory ++ addr.drop memory.length, memory.length, true)) ∧
    (∀ (str : CString) (addr : List UInt8) (len : ℕ), len ≤ addr.length →
      ∃ addr' len' ok, hex2memBuffer addr len str = .ok (addr', len', ok) ∧
        addr'.length = addr.length ∧ addr'.drop len = addr.drop len ∧
        (ok = false ↔ ¬ 2 ∣ ((skipHexPrefix str.bytes).takeWhile ishexchar).length ∨
          2 * len < ((skipHexPrefix str.bytes).takeWhile ishexchar).length) ∧
        (ok = false → len' = len)) := by
  refine ⟨fun buffer memory upper hroom => ?_, fun str addr len hlen => ?_⟩
  · have hb : buffer.length ≠ 0 := by omega
    refine ⟨⟨hexChars upper memory, zero_notMem_hexChars upper memory⟩, ?_, ?_⟩
    · rw [hexmemBuffer_full upper hb (by omega), overwrite_zero, List.length_append,
        List.append_assoc]
      rfl
    · intro str hstr addr len hm hlen
      have hdigits : ∀ c ∈ hexChars upper memory, ishexchar c = true :=
        fun c hc => ishexchar_of_mem_hexChars hc
      -- the text without its prefix
      have hskip : skipHexPrefix str.bytes = hexChars upper memory := by
        rcases hstr with hstr | hstr | hstr <;> rw [hstr]
        · exact skipHexPrefix_of_digits hdigits
        · rfl
        · rfl
      have hrun : (hexChars upper memory).takeWhile ishexchar = hexChars upper memory :=
        List.takeWhile_eq_self_iff.mpr hdigits
      obtain ⟨hok, hbytes⟩ := hex2memLoop_eq (hexChars upper memory) len
      rw [hrun, hexBytes_hexChars] at hbytes
      rw [hrun, length_hexChars] at hok
      have htrue : (hex2memLoop (hexChars upper memory) len).2 = true :=
        hok.mpr ⟨⟨memory.length, rfl⟩, by omega⟩
      rw [hex2memBuffer_eq str hlen, hex2mem, hskip, htrue, hbytes htrue, overwrite_zero]
      rfl
  · have hshort : (hex2mem len str).1.length ≤ len := length_hex2memLoop_le _ len
    have hok : (hex2mem len str).2 = true ↔ _ := (hex2memLoop_eq (skipHexPrefix str.bytes) len).1
    have hkept : (overwrite addr 0 (hex2mem len str).1).length = addr.length :=
      length_overwrite (by omega)
    have hbeside : (overwrite addr 0 (hex2mem len str).1).drop len = addr.drop len :=
      drop_overwrite (by omega) hlen
    rw [hex2memBuffer_eq str hlen]
    cases hret : (hex2mem len str).2 with
    | true =>
      rw [hret] at hok
      have hwhole := hok.mp rfl
      refine ⟨_, _, true, rfl, hkept, hbeside, ?_, fun h => absurd h (by decide)⟩
      rw [Bool.true_eq_false, false_iff, not_or, not_not]
      exact ⟨hwhole.1, Nat.not_lt.mpr hwhole.2⟩
    | false =>
      rw [hret, Bool.false_eq_true, false_iff, not_and_or, Nat.not_le] at hok
      exact ⟨_, _, false, rfl, hkept, hbeside, iff_of_true rfl hok, fun _ => rfl⟩

/-- Two bytes there and back, and two where there is room for one. -/
theorem hex2memBuffer_hexmemBuffer_two :
    hexmemBuffer (List.replicate 5 1) (some [171, 2]) true = .ok [65, 66, 48, 50, 0] ∧
      hex2memBuffer [9, 9, 9] 2 ⟨[48, 120, 65, 66, 48, 50], by decide⟩ =
        .ok ([171, 2, 9], 2, true) ∧
      ∃ addr', hex2memBuffer [9, 9] 1 ⟨[65, 66, 48, 50], by decide⟩ = .ok (addr', 1, false) := by
  have hdump : hexmemBuffer (List.replicate 5 1) (some [171, 2]) true =
      .ok [65, 66, 48, 50, 0] := by decide
  refine ⟨hdump, ?_, ?_⟩
  · obtain ⟨text, htext, hread⟩ :=
      hex2memBuffer_hexmemBuffer.1 (List.replicate 5 1) [171, 2] true (by decide)
    have hbytes := Except.ok.inj (htext.symm.trans hdump)
    have hstring := CString.ofBuffer_append text ((List.replicate 5 1).drop (text.length + 1))
    rw [hbytes] at hstring
    cases hstring
    exact hread _ (.inr (.inl rfl)) [9, 9, 9] 2 (by decide) (by decide)
  · obtain ⟨addr', len', ok, hread, -, -, hok, hlen⟩ :=
      hex2memBuffer_hexmemBuffer.2 ⟨[65, 66, 48, 50], by decide⟩ [9, 9] 1 (by decide)
    obtain rfl : ok = false := hok.mpr (.inr (by decide))
    obtain rfl : len' = 1 := hlen rfl
    exact ⟨addr', hread⟩

end Propd
