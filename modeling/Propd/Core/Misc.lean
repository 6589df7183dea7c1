import Propd.Core.Types

/-!
# Helpers of `misc.c`

`prefix_match` scans the pattern and the string together; only at the first
position where they differ is a `*` of the pattern looked at.
-/

namespace Propd

/-- The character `*`. -/
def star : UInt8 := 42

/-- The loop of `prefix_match`, on the bytes that are left; the end of a list is
the terminating NUL. -/
def prefixMatchLoop : List UInt8 → List UInt8 → Bool
  | [], [] => true
  | [], _ :: _ => false
  | c₁ :: _, [] => c₁ == star
  | c₁ :: p₁, c₂ :: p₂ => if c₁ = c₂ then prefixMatchLoop p₁ p₂ else c₁ == star

/-- `prefix_match` -/
def prefixMatch (pattern str : CString) : Bool :=
  prefixMatchLoop pattern.bytes str.bytes

end Propd
