import Mathlib.Data.List.Nodup
import Mathlib.Data.List.Perm.Basic

/-!
# Ledgers

What a program has acquired and has not given back yet. Some resources use others, a thread its
stack or a table its lock, and what is in use must not be given back. A cleanup is a list of
resources: it goes through if each of them is there and nothing that is left uses it.
-/

namespace Propd.Lib

universe u

/-- A resource is acquired though it is there, or given back though it is not, or though another one
uses it. -/
inductive Misuse
  | taken
  | missing
  | inUse
  deriving DecidableEq

namespace Ledger

variable {ρ : Type u} [DecidableEq ρ]

def acquire (r : ρ) (live : List ρ) : Except Misuse (List ρ) :=
  if r ∈ live then .error .taken else .ok (r :: live)

def release (uses : ρ → ρ → Bool) (r : ρ) (live : List ρ) : Except Misuse (List ρ) :=
  if r ∉ live then .error .missing
  else if (live.erase r).any fun q => uses q r then .error .inUse
  else .ok (live.erase r)

def releaseAll (uses : ρ → ρ → Bool) : List ρ → List ρ → Except Misuse (List ρ)
  | [], live => .ok live
  | r :: rs, live => do releaseAll uses rs (← release uses r live)

/-- In a list of resources none is used by one that comes after it. -/
def Orderly (uses : ρ → ρ → Bool) (rs : List ρ) : Prop := rs.Pairwise fun r q => uses q r = false

variable {uses : ρ → ρ → Bool} {r : ρ} {rs rest live : List ρ}

theorem acquire_of_notMem (h : r ∉ live) : acquire r live = .ok (r :: live) := if_neg h

/-- What was acquired last is given back. -/
theorem release_cons (h : ∀ q ∈ live, uses q r = false) : release uses r (r :: live) = .ok live := by
  rw [release, if_neg (by simp), if_neg]
  · rw [List.erase_cons_head]
  · simpa using h

theorem release_of_perm (hlive : live.Perm (r :: rest)) (h : ∀ q ∈ rest, uses q r = false) :
    ∃ live', release uses r live = .ok live' ∧ live'.Perm rest := by
  have herase : (live.erase r).Perm rest := by simpa using hlive.erase r
  refine ⟨live.erase r, ?_, herase⟩
  rw [release, if_neg (by simp [hlive.mem_iff]), if_neg]
  simpa [herase.mem_iff] using h

/-- **A cleanup** gives back what it lists, if its order is right and nothing else uses any of it. -/
theorem releaseAll_of_perm (hlive : live.Perm (rs ++ rest)) (horder : Orderly uses rs)
    (hrest : ∀ r ∈ rs, ∀ q ∈ rest, uses q r = false) :
    ∃ live', releaseAll uses rs live = .ok live' ∧ live'.Perm rest := by
  induction rs generalizing live with
  | nil => exact ⟨live, rfl, hlive⟩
  | cons r rs ih =>
    obtain ⟨hr, horder⟩ := List.pairwise_cons.mp horder
    have hunused : ∀ q ∈ rs ++ rest, uses q r = false := fun q hq =>
      (List.mem_append.mp hq).elim (hr q) (hrest r List.mem_cons_self q)
    obtain ⟨live₁, hrun, hlive₁⟩ := release_of_perm hlive hunused
    obtain ⟨live₂, hruns, hlive₂⟩ := ih hlive₁ horder fun q hq => hrest q (List.mem_cons_of_mem r hq)
    exact ⟨live₂, by rw [releaseAll, hrun]; exact hruns, hlive₂⟩

end Ledger

end Propd.Lib
