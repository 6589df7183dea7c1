import Propd.Tree.Remove
import Propd.Tree.Traversal

/-!
# Ordered trees

What a caller of `tree.h` sees: the memory holds a tree of some nodes in the order of their keys,
and no operation takes more turns than there are levels in it. Shape and ranks stay inside.
-/

namespace Propd

open Lib RankTree

section

variable {α κ : Type} [LinearOrder κ] {m m' : RbMem α} {key key' : α → κ} {s : List α} {a : α}
  {x : κ} {fuel : ℕ}

/-- The memory holds a balanced tree of the nodes `s`, which are in the order of their keys. -/
def OrderedTree (m : RbMem α) (key : α → κ) (s : List α) : Prop :=
  ∃ t n, IsTree m t ∧ Ranked t n ∧ Sorted key t ∧ t.toList = s

/-- The turns that suffice for a tree of `n` nodes. -/
def levels (n : ℕ) : ℕ := 2 * Nat.log 2 (n + 1) + 1

theorem levels_mono {n n' : ℕ} (h : n ≤ n') : levels n ≤ levels n' := by
  have hlog : Nat.log 2 (n + 1) ≤ Nat.log 2 (n' + 1) := Nat.log_mono_right (by omega)
  unfold levels
  omega

theorem height_lt_levels {t : RankTree α} {n : ℕ} (h : Ranked t n) :
    t.height < levels t.toList.length :=
  Nat.lt_succ_of_le h.height_le_log

namespace OrderedTree

/-- `RB_INIT` -/
theorem nil (h : m .root = some (.plain none)) : OrderedTree m key [] :=
  ⟨.nil, 0, ⟨h, trivial, List.nodup_nil⟩, .nil, List.Pairwise.nil, rfl⟩

theorem sorted (h : OrderedTree m key s) : s.Pairwise fun a b => key a < key b := by
  obtain ⟨t, n, -, -, hsort, rfl⟩ := h
  exact hsort

theorem nodup (h : OrderedTree m key s) : s.Nodup := by
  obtain ⟨t, n, htree, -, -, rfl⟩ := h
  exact htree.nodup

theorem allocated (h : OrderedTree m key s) (ha : a ∈ s) : Allocated m a := by
  obtain ⟨t, n, htree, -, -, rfl⟩ := h
  obtain ⟨⟨w, hup⟩, hlink⟩ := htree.links.exists_links ha
  refine ⟨by simp [hup], fun d => ?_⟩
  obtain ⟨x, hx⟩ := hlink d
  simp [hx]

theorem root_of_nil (h : OrderedTree m key []) : m .root = some (.plain none) := by
  obtain ⟨t, n, htree, -, -, hlist⟩ := h
  have hroot := htree.root
  cases t with
  | nil => exact hroot
  | node a long l r => simp [toList] at hlist

/-- Different nodes have different keys. -/
theorem inj {b : α} (h : OrderedTree m key s) (ha : a ∈ s) (hb : b ∈ s) (hkey : key a = key b) :
    a = b := by
  obtain ⟨t, n, -, -, hsort, rfl⟩ := h
  exact hsort.inj ha hb hkey

/-- Only the root and what belongs to the nodes matters. -/
theorem congr (h : OrderedTree m key s) (hlinks : ∀ l : RbLoc α, (∀ b ∈ l.owner, b ∈ s) → m' l = m l)
    (hkey : ∀ b ∈ s, key' b = key b) : OrderedTree m' key' s := by
  obtain ⟨t, n, htree, hrank, hsort, rfl⟩ := h
  refine ⟨t, n, ⟨?_, ?_, htree.nodup⟩, hrank, ?_, rfl⟩
  · rw [hlinks .root (by simp [RbLoc.owner]), htree.root]
  · exact htree.links.congr (fun b hb => hlinks _ (by simpa [RbLoc.owner] using hb))
      fun b hb d => hlinks _ (by simpa [RbLoc.owner] using hb)
  · refine List.Pairwise.imp_of_mem (fun {b c} hb hc hlt => ?_) hsort
    rw [hkey b hb, hkey c hc]
    exact hlt

/-! ## The operations -/

variable {cmp : α → Except RbFault Ordering}

theorem rbFind (h : OrderedTree m key s) (hcmp : Compares cmp key x s)
    (hfuel : levels s.length ≤ fuel) :
    ∃ r, (rbFind fuel cmp).run m = .ok (r, m) ∧ (∀ b ∈ r, b ∈ s ∧ key b = x) ∧
      (r = none → ∀ b ∈ s, key b ≠ x) := by
  obtain ⟨t, n, htree, hrank, hsort, rfl⟩ := h
  exact rbFind_spec htree hcmp hsort ((height_lt_levels hrank).trans_le hfuel)

variable [DecidableEq α]

theorem rbInsert (h : OrderedTree m key s) (hcmp : Compares cmp key (key a) s) (ha : a ∉ s)
    (halloc : Allocated m a) (hfuel : levels s.length ≤ fuel) :
    (∃ m' s', (rbInsert fuel cmp a).run m = .ok (none, m') ∧ OrderedTree m' key s' ∧
      s'.Perm (a :: s) ∧ ∀ b ∈ s, key b ≠ key a) ∨
    ∃ b ∈ s, key b = key a ∧ (rbInsert fuel cmp a).run m = .ok (some b, m) := by
  obtain ⟨t, n, htree, hrank, hsort, rfl⟩ := h
  have hheight := (height_lt_levels hrank).trans_le hfuel
  rcases rbInsert_spec htree hrank hsort hcmp ha halloc hheight with
    ⟨m', t', hrun, htree', ⟨n', hrank'⟩, hsort', hperm, hne⟩ | hold
  · exact .inl ⟨m', t'.toList, hrun, ⟨t', n', htree', hrank', hsort', rfl⟩, hperm, hne⟩
  · exact .inr hold

theorem rbRemove (h : OrderedTree m key s) (ha : a ∈ s) (hfuel : levels s.length ≤ fuel) :
    ∃ m', (rbRemove fuel (some a)).run m = .ok ((), m') ∧ OrderedTree m' key (s.erase a) := by
  obtain ⟨t, n, htree, hrank, hsort, rfl⟩ := h
  have hheight := (height_lt_levels hrank).le.trans hfuel
  obtain ⟨m', t', hrun, htree', ⟨n', hrank'⟩, hlist⟩ := rbRemove_spec htree hrank ha hheight
  refine ⟨m', hrun, t', n', htree', hrank', ?_, hlist⟩
  rw [Sorted, hlist]
  exact hsort.sublist List.erase_sublist

theorem rbMin (h : OrderedTree m key s) (hfuel : levels s.length ≤ fuel) :
    (rbMin fuel).run m = .ok (s.head?, m) := by
  obtain ⟨t, n, htree, hrank, -, rfl⟩ := h
  exact rbMin_spec htree ((height_lt_levels hrank).trans_le hfuel)

theorem rbNext {xs ys : List α} (h : OrderedTree m key (xs ++ a :: ys))
    (hfuel : levels (xs ++ a :: ys).length ≤ fuel) :
    (rbNext fuel (some a)).run m = .ok (ys.head?, m) := by
  obtain ⟨t, n, htree, hrank, -, hlist⟩ := h
  rw [← hlist] at hfuel
  exact rbNext_spec htree hlist ((height_lt_levels hrank).le.trans hfuel)

end OrderedTree

/-! ## Loops over a tree -/

/-- **The rule of `RB_FOREACH_SAFE`**: `I` speaks about the nodes that are still to come. -/
theorem rbForeachSafe_rule {σ ε : Type} [MonadLift (RbM α) (StateT σ (Except ε))] [DecidableEq α]
    (body : α → StateT σ (Except ε) Unit) (I : List α → σ → Prop) {turns : ℕ} {st : σ}
    (hnext : ∀ a rest st, I (a :: rest) st →
      (liftM (rbNext fuel (some a)) : StateT σ (Except ε) (Option α)).run st = .ok (rest.head?, st))
    (hbody : ∀ a rest st, I (a :: rest) st → ∃ st', (body a).run st = .ok ((), st') ∧ I rest st')
    (h : I s st) (hturns : s.length < turns) :
    ∃ st', (rbForeachSafe fuel body turns s.head?).run st = .ok ((), st') ∧ I [] st' := by
  induction turns generalizing s st with
  | zero => cases hturns
  | succ turns ih =>
    cases s with
    | nil => exact ⟨st, rfl, h⟩
    | cons a rest =>
      obtain ⟨st₁, hrun, hI⟩ := hbody a rest st h
      obtain ⟨st₂, hrest, hdone⟩ := ih hI (by simpa using hturns)
      refine ⟨st₂, ?_, hdone⟩
      rw [List.head?_cons, rbForeachSafe, StateT.run_bind, hnext a rest st h]
      change (body a >>= fun _ => rbForeachSafe fuel body turns rest.head?).run st = _
      rw [StateT.run_bind, hrun]
      exact hrest

end

end Propd
