import Mathlib.Data.Nat.Digits.Lemmas
import Mathlib.Data.List.TakeWhile

/-!
# Integer numerals

The integer numerals of C, as `strtol` and `strtoul` read them when they are to find the base
themselves: white space, a sign and an integer constant. A constant that begins with `0x` and a
hexadecimal digit is hexadecimal, another one that begins with `0` is octal.

The grammar is `IsNumeral`. `scanNumeral` finds the longest numeral a text starts with
(`scanNumeral_longest`), `strtol` and `strtoul` fit its value into 64 bits. `decimal` writes a
number the way `%d` does.
-/

namespace Propd.Lib

/-! ## Characters -/

/-- White space, in the C locale. -/
def isSpace (c : UInt8) : Bool := c = 32 || (9 ≤ c && c ≤ 13)

/-- The value of a digit or letter, and 36 for any other character. -/
def digitValue (c : UInt8) : ℕ :=
  if 48 ≤ c ∧ c ≤ 57 then c.toNat - 48
  else if 65 ≤ c ∧ c ≤ 90 then c.toNat - 55
  else if 97 ≤ c ∧ c ≤ 122 then c.toNat - 87
  else 36

/-- A digit of base `b`. -/
def isDigitOf (b : ℕ) (c : UInt8) : Bool := digitValue c < b

/-- The number that digits spell, the most significant first. -/
def digitsValue (b : ℕ) (ds : List UInt8) : ℕ := Nat.ofDigits b (ds.reverse.map digitValue)

/-! ## The grammar -/

/-- An integer constant, and its value. -/
inductive IsConstant : List UInt8 → ℕ → Prop
  | decimal {d : UInt8} {ds : List UInt8} (hd : isDigitOf 10 d = true) (hzero : d ≠ 48)
      (hds : ∀ c ∈ ds, isDigitOf 10 c = true) : IsConstant (d :: ds) (digitsValue 10 (d :: ds))
  | octal {ds : List UInt8} (hds : ∀ c ∈ ds, isDigitOf 8 c = true) :
      IsConstant (48 :: ds) (digitsValue 8 ds)
  | hex {x d : UInt8} {ds : List UInt8} (hx : x = 120 ∨ x = 88) (hd : isDigitOf 16 d = true)
      (hds : ∀ c ∈ ds, isDigitOf 16 c = true) :
      IsConstant (48 :: x :: d :: ds) (digitsValue 16 (d :: ds))

/-- A constant with a sign, or without. -/
inductive IsSigned : List UInt8 → ℤ → Prop
  | plain {body : List UInt8} {m : ℕ} (h : IsConstant body m) : IsSigned body m
  | plus {body : List UInt8} {m : ℕ} (h : IsConstant body m) : IsSigned (43 :: body) m
  | minus {body : List UInt8} {m : ℕ} (h : IsConstant body m) : IsSigned (45 :: body) (-m)

/-- A numeral and its value. -/
def IsNumeral (s : List UInt8) (n : ℤ) : Prop :=
  ∃ spaces body, s = spaces ++ body ∧ (∀ c ∈ spaces, isSpace c = true) ∧ IsSigned body n

/-! ## Scanning -/

/-- The digits a text starts with, as a number, and what follows them. -/
def scanDigits (b : ℕ) (s : List UInt8) : ℕ × List UInt8 :=
  (digitsValue b (s.takeWhile (isDigitOf b)), s.dropWhile (isDigitOf b))

/-- What follows the `0` a constant starts with. -/
def scanZero : List UInt8 → ℕ × List UInt8
  | x :: d :: rest =>
    -- an `x` without a digit behind it is not read
    if (x = 120 ∨ x = 88) ∧ isDigitOf 16 d then scanDigits 16 (d :: rest)
    else scanDigits 8 (x :: d :: rest)
  | rest => scanDigits 8 rest

/-- The constant a text starts with, and what follows it. -/
def scanConstant : List UInt8 → Option (ℕ × List UInt8)
  | [] => none
  | d :: rest =>
    if d = 48 then some (scanZero rest)
    else if isDigitOf 10 d then some (scanDigits 10 (d :: rest))
    else none

/-- The signed constant a text starts with. -/
def scanSigned : List UInt8 → Option (ℤ × List UInt8)
  | [] => none
  | c :: rest =>
    if c = 43 then (scanConstant rest).map fun x => ((x.1 : ℤ), x.2)
    else if c = 45 then (scanConstant rest).map fun x => (-(x.1 : ℤ), x.2)
    else (scanConstant (c :: rest)).map fun x => ((x.1 : ℤ), x.2)

/-- The numeral a text starts with. -/
def scanNumeral (s : List UInt8) : Option (ℤ × List UInt8) :=
  scanSigned (s.dropWhile isSpace)

/-! ## What is scanned is a numeral -/

variable {b m : ℕ} {n : ℤ} {s rest body tail ds : List UInt8}

/-- The digits in front of a text are taken, and then those it starts with. -/
theorem scanDigits_append (hds : ∀ c ∈ ds, isDigitOf b c = true) (tail : List UInt8) :
    scanDigits b (ds ++ tail) =
      (digitsValue b (ds ++ tail.takeWhile (isDigitOf b)), tail.dropWhile (isDigitOf b)) := by
  rw [scanDigits, List.takeWhile_append_of_pos hds, List.dropWhile_append_of_pos hds]

theorem scanDigits_all (hds : ∀ c ∈ ds, isDigitOf b c = true) :
    scanDigits b ds = (digitsValue b ds, []) := by
  have h := scanDigits_append hds []
  rwa [List.append_nil, List.takeWhile_nil, List.append_nil] at h

/-- Of a text its digits are taken. -/
theorem scanDigits_split (b : ℕ) (s : List UInt8) :
    ∃ ds, s = ds ++ (scanDigits b s).2 ∧ (scanDigits b s).1 = digitsValue b ds ∧
      ∀ c ∈ ds, isDigitOf b c = true :=
  ⟨s.takeWhile (isDigitOf b), List.takeWhile_append_dropWhile.symm, rfl,
    fun _ hc => List.mem_takeWhile_imp hc⟩

/-- A text that starts with a digit. -/
theorem scanDigits_cons {d : UInt8} (hd : isDigitOf b d = true) (s : List UInt8) :
    ∃ ds, s = ds ++ (scanDigits b (d :: s)).2 ∧
      (scanDigits b (d :: s)).1 = digitsValue b (d :: ds) ∧ ∀ c ∈ ds, isDigitOf b c = true := by
  refine ⟨s.takeWhile (isDigitOf b), ?_, ?_, fun _ hc => List.mem_takeWhile_imp hc⟩
  · rw [scanDigits, List.dropWhile_cons_of_pos hd, List.takeWhile_append_dropWhile]
  · rw [scanDigits, List.takeWhile_cons_of_pos hd]

theorem length_scanDigits_le (b : ℕ) (s : List UInt8) : (scanDigits b s).2.length ≤ s.length :=
  (List.dropWhile_sublist _).length_le

/-- Octal digits do not begin with an `x`. -/
theorem scanZero_octal (hds : ∀ c ∈ ds, isDigitOf 8 c = true) (hne : ds ≠ []) (tail : List UInt8) :
    scanZero (ds ++ tail) = scanDigits 8 (ds ++ tail) := by
  cases ds with
  | nil => exact absurd rfl hne
  | cons x ds =>
    have hx : ¬(x = 120 ∨ x = 88) := by
      have hdigit := hds x List.mem_cons_self
      rintro (rfl | rfl)
      · exact absurd hdigit (by decide)
      · exact absurd hdigit (by decide)
    rw [List.cons_append]
    cases ds ++ tail with
    | nil => rfl
    | cons d rest => exact if_neg fun h => hx h.1

theorem length_scanZero_le (s : List UInt8) : (scanZero s).2.length ≤ s.length := by
  unfold scanZero
  split
  · split
    · exact (length_scanDigits_le 16 _).trans (Nat.le_succ _)
    · exact length_scanDigits_le 8 _
  · exact length_scanDigits_le 8 _

/-- What is scanned behind a `0` makes a constant with it. -/
theorem scanZero_sound (s : List UInt8) :
    ∃ ds, s = ds ++ (scanZero s).2 ∧ IsConstant (48 :: ds) (scanZero s).1 := by
  have hoctal : ∃ ds, s = ds ++ (scanDigits 8 s).2 ∧ IsConstant (48 :: ds) (scanDigits 8 s).1 := by
    obtain ⟨ds, hs, hm, hds⟩ := scanDigits_split 8 s
    exact ⟨ds, hs, hm ▸ .octal hds⟩
  unfold scanZero
  split
  · rename_i x d rest
    split
    · rename_i hx
      obtain ⟨ds, hs, hm, hds⟩ := scanDigits_cons hx.2 rest
      refine ⟨x :: d :: ds, congrArg (fun l => x :: d :: l) hs, ?_⟩
      rw [hm]
      exact .hex hx.1 hx.2 hds
    · exact hoctal
  · exact hoctal

/-- A scanned constant is one. -/
theorem scanConstant_sound (h : scanConstant s = some (m, rest)) :
    ∃ body, s = body ++ rest ∧ IsConstant body m := by
  cases s with
  | nil => cases h
  | cons d s =>
    rw [scanConstant] at h
    split at h
    · rename_i hd
      subst hd
      obtain ⟨ds, hs, hconst⟩ := scanZero_sound s
      rw [Option.some.inj h] at hs hconst
      exact ⟨48 :: ds, congrArg (48 :: ·) hs, hconst⟩
    · rename_i hzero
      split at h
      · rename_i hd
        obtain ⟨ds, hs, hm, hds⟩ := scanDigits_cons hd s
        rw [Option.some.inj h] at hs hm
        refine ⟨d :: ds, congrArg (d :: ·) hs, ?_⟩
        rw [show m = _ from hm]
        exact .decimal hd hzero hds
      · cases h

/-- A scanned numeral is one. -/
theorem scanNumeral_sound (h : scanNumeral s = some (n, rest)) :
    ∃ front, s = front ++ rest ∧ IsNumeral front n := by
  have hsigned : ∃ body, s.dropWhile isSpace = body ++ rest ∧ IsSigned body n := by
    unfold scanNumeral at h
    cases hs : s.dropWhile isSpace with
    | nil =>
      rw [hs] at h
      cases h
    | cons c tail =>
      rw [hs, scanSigned] at h
      split at h
      · rename_i hc
        obtain ⟨⟨m, rest'⟩, hscan, heq⟩ := Option.map_eq_some_iff.mp h
        cases heq
        obtain ⟨body, rfl, hconst⟩ := scanConstant_sound hscan
        exact ⟨43 :: body, by rw [hc]; rfl, .plus hconst⟩
      · split at h
        · rename_i hc
          obtain ⟨⟨m, rest'⟩, hscan, heq⟩ := Option.map_eq_some_iff.mp h
          cases heq
          obtain ⟨body, rfl, hconst⟩ := scanConstant_sound hscan
          exact ⟨45 :: body, by rw [hc]; rfl, .minus hconst⟩
        · obtain ⟨⟨m, rest'⟩, hscan, heq⟩ := Option.map_eq_some_iff.mp h
          cases heq
          obtain ⟨body, hbody, hconst⟩ := scanConstant_sound hscan
          exact ⟨body, hbody, .plain hconst⟩
  obtain ⟨body, hbody, hsigned⟩ := hsigned
  refine ⟨s.takeWhile isSpace ++ body, ?_, _, body, rfl, fun c hc => List.mem_takeWhile_imp hc,
    hsigned⟩
  rw [List.append_assoc, ← hbody, List.takeWhile_append_dropWhile]

/-! ## No longer numeral -/

/-- A constant does not begin with a sign or white space. -/
theorem IsConstant.head (h : IsConstant body m) :
    ∃ d ds, body = d :: ds ∧ isDigitOf 10 d = true := by
  cases h with
  | decimal hd hzero hds => exact ⟨_, _, rfl, hd⟩
  | octal hds => exact ⟨_, _, rfl, by decide⟩
  | hex hx hd hds => exact ⟨_, _, rfl, by decide⟩

/-- Of a text that starts with a constant at least this constant is scanned. -/
theorem scanConstant_append (h : IsConstant body m) (tail : List UInt8) :
    ∃ x, scanConstant (body ++ tail) = some x ∧ x.2.length ≤ tail.length := by
  -- the digits of the constant are scanned, and perhaps more of them
  cases h with
  | @decimal d ds hd hzero hds =>
    refine ⟨scanDigits 10 (d :: ds ++ tail), ?_, ?_⟩
    · rw [List.cons_append, scanConstant, if_neg hzero, if_pos hd]
    · rw [scanDigits_append (List.forall_mem_cons.mpr ⟨hd, hds⟩)]
      exact (List.dropWhile_sublist _).length_le
  | @octal ds hds =>
    refine ⟨scanZero (ds ++ tail), rfl, ?_⟩
    by_cases hne : ds = []
    · rw [hne]
      exact length_scanZero_le tail
    · rw [scanZero_octal hds hne, scanDigits_append hds]
      exact (List.dropWhile_sublist _).length_le
  | @hex x d ds hx hd hds =>
    refine ⟨scanDigits 16 (d :: ds ++ tail), ?_, ?_⟩
    · show some (scanZero (x :: d :: (ds ++ tail))) = _
      rw [scanZero, if_pos ⟨hx, hd⟩]
      rfl
    · rw [scanDigits_append (List.forall_mem_cons.mpr ⟨hd, hds⟩)]
      exact (List.dropWhile_sublist _).length_le

/-- A constant is scanned with its value. -/
theorem scanConstant_self (h : IsConstant body m) : scanConstant body = some (m, []) := by
  cases h with
  | @decimal d ds hd hzero hds =>
    rw [scanConstant, if_neg hzero, if_pos hd, scanDigits_all (List.forall_mem_cons.mpr ⟨hd, hds⟩)]
  | @octal ds hds =>
    rw [scanConstant, if_pos rfl, ← scanDigits_all hds]
    by_cases hne : ds = []
    · rw [hne]
      rfl
    · have hoctal := scanZero_octal hds hne []
      rw [List.append_nil] at hoctal
      rw [hoctal]
  | @hex x d ds hx hd hds =>
    rw [scanConstant, if_pos rfl, scanZero, if_pos ⟨hx, hd⟩,
      scanDigits_all (List.forall_mem_cons.mpr ⟨hd, hds⟩)]

/-- A digit is no sign, so what starts with one is scanned as a constant. -/
theorem scanSigned_digit {d : UInt8} (hd : isDigitOf 10 d = true) (s : List UInt8) :
    scanSigned (d :: s) = (scanConstant (d :: s)).map fun x => ((x.1 : ℤ), x.2) := by
  have hplus : d ≠ 43 := by
    rintro rfl
    exact absurd hd (by decide)
  have hminus : d ≠ 45 := by
    rintro rfl
    exact absurd hd (by decide)
  rw [scanSigned, if_neg hplus, if_neg hminus]

/-- A signed constant does not begin with white space. -/
theorem IsSigned.head (h : IsSigned body n) : ∃ c rest, body = c :: rest ∧ isSpace c = false := by
  cases h with
  | plain hconst =>
    obtain ⟨d, ds, rfl, hd⟩ := hconst.head
    refine ⟨d, ds, rfl, Bool.eq_false_iff.mpr fun hspace => ?_⟩
    have hvalue : digitValue d < 10 := of_decide_eq_true hd
    have hle : d = 32 ∨ 9 ≤ d ∧ d ≤ 13 := by simpa [isSpace] using hspace
    rcases hle with rfl | ⟨-, hle⟩
    · exact absurd hvalue (by decide)
    · -- the other white space comes before all digits and letters
      have hnone : digitValue d = 36 := by
        rw [digitValue, if_neg, if_neg, if_neg]
        all_goals exact fun h => absurd (UInt8.le_trans h.1 hle) (by decide)
      omega
  | plus hconst => exact ⟨43, _, rfl, by decide⟩
  | minus hconst => exact ⟨45, _, rfl, by decide⟩

/-- Of a text that starts with a signed constant at least this is scanned. -/
theorem scanSigned_append (h : IsSigned body n) (tail : List UInt8) :
    ∃ x, scanSigned (body ++ tail) = some x ∧ x.2.length ≤ tail.length := by
  cases h with
  | plain hconst =>
    obtain ⟨x, hx, hle⟩ := scanConstant_append hconst tail
    obtain ⟨d, ds, rfl, hd⟩ := hconst.head
    rw [List.cons_append] at hx ⊢
    exact ⟨_, by rw [scanSigned_digit hd, hx]; rfl, hle⟩
  | plus hconst =>
    obtain ⟨x, hx, hle⟩ := scanConstant_append hconst tail
    exact ⟨_, by rw [List.cons_append, scanSigned, if_pos rfl, hx]; rfl, hle⟩
  | minus hconst =>
    obtain ⟨x, hx, hle⟩ := scanConstant_append hconst tail
    exact ⟨_, by rw [List.cons_append, scanSigned, if_neg (by decide), if_pos rfl, hx]; rfl, hle⟩

/-- A signed constant is scanned with its value. -/
theorem scanSigned_self (h : IsSigned body n) : scanSigned body = some (n, []) := by
  cases h with
  | plain hconst =>
    have hscan := scanConstant_self hconst
    obtain ⟨d, ds, rfl, hd⟩ := hconst.head
    rw [scanSigned_digit hd, hscan]
    rfl
  | plus hconst =>
    rw [scanSigned, if_pos rfl, scanConstant_self hconst]
    rfl
  | minus hconst =>
    rw [scanSigned, if_neg (by decide), if_pos rfl, scanConstant_self hconst]
    rfl

/-- The white space in front of a signed constant is passed over. -/
theorem dropWhile_spaces {spaces : List UInt8} (hspaces : ∀ c ∈ spaces, isSpace c = true)
    (h : IsSigned body n) (tail : List UInt8) :
    (spaces ++ body ++ tail).dropWhile isSpace = body ++ tail := by
  obtain ⟨c, rest, rfl, hc⟩ := h.head
  rw [List.append_assoc, List.dropWhile_append_of_pos hspaces, List.cons_append,
    List.dropWhile_cons_of_neg (by rw [hc]; exact Bool.false_ne_true)]

/-- Of a text that starts with a numeral at least this numeral is scanned. -/
theorem scanNumeral_append {front : List UInt8} (h : IsNumeral front n) (tail : List UInt8) :
    ∃ x, scanNumeral (front ++ tail) = some x ∧ x.2.length ≤ tail.length := by
  obtain ⟨spaces, body, rfl, hspaces, hsigned⟩ := h
  rw [scanNumeral, dropWhile_spaces hspaces hsigned]
  exact scanSigned_append hsigned tail

/-- **The texts that are numerals as a whole are scanned to their ends**, with their values. -/
theorem scanNumeral_iff : scanNumeral s = some (n, []) ↔ IsNumeral s n := by
  constructor
  · intro h
    obtain ⟨front, hs, hnum⟩ := scanNumeral_sound h
    rw [List.append_nil] at hs
    rw [hs]
    exact hnum
  · rintro ⟨spaces, body, rfl, hspaces, hsigned⟩
    have hdrop := dropWhile_spaces hspaces hsigned []
    rw [List.append_nil, List.append_nil] at hdrop
    rw [scanNumeral, hdrop]
    exact scanSigned_self hsigned

/-- **What is scanned is the longest numeral the text starts with.** -/
theorem scanNumeral_longest (h : scanNumeral s = some (n, rest)) :
    (∃ front, s = front ++ rest ∧ IsNumeral front n) ∧
      ∀ front' n' rest', s = front' ++ rest' → IsNumeral front' n' →
        rest.length ≤ rest'.length := by
  refine ⟨scanNumeral_sound h, ?_⟩
  rintro front' n' rest' rfl hnum
  obtain ⟨x, hx, hle⟩ := scanNumeral_append hnum rest'
  rw [h] at hx
  cases hx
  exact hle

/-- A numeral has at least one character. -/
theorem length_scanNumeral_lt (h : scanNumeral s = some (n, rest)) : rest.length < s.length := by
  obtain ⟨front, rfl, spaces, body, rfl, -, hsigned⟩ := scanNumeral_sound h
  obtain ⟨c, tail, rfl, -⟩ := hsigned.head
  simp only [List.length_append, List.length_cons]
  omega

/-! ## `strtol` and `strtoul` -/

/-- What a conversion returns, the offset of `endptr`, and whether it sets `ERANGE`. -/
structure Strto (α : Type) where
  number : α
  endptr : ℕ
  range : Bool

/-- `strtol(s, &endptr, 0)` -/
def strtol (s : List UInt8) : Strto Int64 :=
  match scanNumeral s with
  | none => ⟨0, 0, false⟩
  | some (n, rest) =>
    if n < -2 ^ 63 then ⟨Int64.minValue, s.length - rest.length, true⟩
    else if 2 ^ 63 ≤ n then ⟨Int64.maxValue, s.length - rest.length, true⟩
    else ⟨Int64.ofInt n, s.length - rest.length, false⟩

/-- `strtoul(s, &endptr, 0)`. The number behind a minus sign is negated in 64 bits. -/
def strtoul (s : List UInt8) : Strto UInt64 :=
  match scanNumeral s with
  | none => ⟨0, 0, false⟩
  | some (n, rest) =>
    if 2 ^ 64 ≤ n.natAbs then ⟨UInt64.ofNat (2 ^ 64 - 1), s.length - rest.length, true⟩
    else ⟨UInt64.ofInt n, s.length - rest.length, false⟩

/-! ## Decimal text -/

/-- A decimal digit. -/
def decimalDigit (d : ℕ) : UInt8 := UInt8.ofNat (48 + d)

/-- A number as `%lu` prints it. -/
def decimalNat (n : ℕ) : List UInt8 :=
  if n = 0 then [48] else (Nat.digits 10 n).reverse.map decimalDigit

/-- A number as `%ld` prints it. -/
def decimal (n : ℤ) : List UInt8 :=
  if n < 0 then 45 :: decimalNat n.natAbs else decimalNat n.natAbs

theorem digitValue_decimalDigit {d : ℕ} (h : d < 10) : digitValue (decimalDigit d) = d := by
  have hall : ∀ d < 10, digitValue (decimalDigit d) = d := by decide
  exact hall d h

theorem isDigitOf_decimalDigit {d : ℕ} (h : d < 10) : isDigitOf 10 (decimalDigit d) = true := by
  rw [isDigitOf, digitValue_decimalDigit h]
  exact decide_eq_true h

/-- What is printed are digits. -/
theorem mem_decimalNat {n : ℕ} {c : UInt8} (h : c ∈ decimalNat n) : isDigitOf 10 c = true := by
  unfold decimalNat at h
  split at h
  · rw [List.mem_singleton.mp h]
    decide
  · obtain ⟨d, hd, rfl⟩ := List.mem_map.mp h
    exact isDigitOf_decimalDigit (Nat.digits_lt_base (by decide) (List.mem_reverse.mp hd))

/-- A number below `10 ^ k` is printed with `k` digits at most. -/
theorem length_decimalNat_le {n k : ℕ} (hk : 0 < k) (h : n < 10 ^ k) :
    (decimalNat n).length ≤ k := by
  unfold decimalNat
  split
  · exact hk
  · rw [List.length_map, List.length_reverse]
    exact (Nat.digits_length_le_iff (by decide) n).mpr h

/-- A printed number is a decimal constant, or the octal `0`. -/
theorem isConstant_decimalNat (n : ℕ) : IsConstant (decimalNat n) n := by
  unfold decimalNat
  split
  · rename_i h
    subst h
    exact .octal fun c hc => absurd hc List.not_mem_nil
  · rename_i hne
    have hlt : ∀ d ∈ (Nat.digits 10 n).reverse, d < 10 := fun d hd =>
      Nat.digits_lt_base (by decide) (List.mem_reverse.mp hd)
    have hdigits : ∀ c ∈ (Nat.digits 10 n).reverse.map decimalDigit, isDigitOf 10 c = true := by
      intro c hc
      refine mem_decimalNat (n := n) ?_
      rw [decimalNat, if_neg hne]
      exact hc
    have hvalue : digitsValue 10 ((Nat.digits 10 n).reverse.map decimalDigit) = n := by
      have hmap : ((Nat.digits 10 n).reverse.map decimalDigit).map digitValue =
          (Nat.digits 10 n).reverse := by
        rw [List.map_map]
        exact (List.map_congr_left fun d hd => digitValue_decimalDigit (hlt d hd)).trans
          (List.map_id _)
      rw [digitsValue, List.map_reverse, hmap, List.reverse_reverse, Nat.ofDigits_digits]
    -- the first digit is the last one of the list of digits, which is not 0
    cases hrev : (Nat.digits 10 n).reverse with
    | nil =>
      rw [List.reverse_eq_nil_iff, Nat.digits_eq_nil_iff_eq_zero] at hrev
      exact absurd hrev hne
    | cons d ds =>
      rw [hrev] at hdigits hvalue hlt
      have hd : d ≠ 0 := by
        have hlast := Nat.getLast_digit_ne_zero 10 hne
        have heq : Nat.digits 10 n = ds.reverse ++ [d] := by
          rw [← List.reverse_cons, ← hrev, List.reverse_reverse]
        simpa [heq] using hlast
      have hzero : decimalDigit d ≠ 48 := by
        intro h
        have hval := digitValue_decimalDigit (hlt d List.mem_cons_self)
        rw [h] at hval
        exact hd hval.symm
      rw [List.map_cons] at hdigits hvalue ⊢
      have hconst := IsConstant.decimal (hdigits _ List.mem_cons_self) hzero
        fun c hc => hdigits c (List.mem_cons_of_mem _ hc)
      rw [hvalue] at hconst
      exact hconst

theorem mem_decimal {n : ℤ} {c : UInt8} (h : c ∈ decimal n) : c = 45 ∨ isDigitOf 10 c = true := by
  unfold decimal at h
  split at h
  · rcases List.mem_cons.mp h with rfl | hc
    · exact .inl rfl
    · exact .inr (mem_decimalNat hc)
  · exact .inr (mem_decimalNat h)

theorem length_decimal_le {n : ℤ} {k : ℕ} (hk : 0 < k) (h : n.natAbs < 10 ^ k) :
    (decimal n).length ≤ k + 1 := by
  have hle := length_decimalNat_le hk h
  unfold decimal
  split
  · rw [List.length_cons]
    omega
  · omega

/-- **What is printed is read back.** -/
theorem isNumeral_decimal (n : ℤ) : IsNumeral (decimal n) n := by
  refine ⟨[], decimal n, rfl, by simp, ?_⟩
  unfold decimal
  split
  · have hneg : (-(n.natAbs : ℤ)) = n := by omega
    have hsigned := IsSigned.minus (isConstant_decimalNat n.natAbs)
    rwa [hneg] at hsigned
  · have hpos : (n.natAbs : ℤ) = n := by omega
    have hsigned := IsSigned.plain (isConstant_decimalNat n.natAbs)
    rwa [hpos] at hsigned

end Propd.Lib
