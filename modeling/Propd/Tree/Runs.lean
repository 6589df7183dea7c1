import Propd.Lib.Transition
import Propd.Tree.Fuel
import Propd.Tree.Ordered
import Mathlib.Data.List.Sort

/-!
# Runs on a tree

Any sequence of the operations that `RB_GENERATE_STATIC` gives, from `RB_INIT` on, has the results it
has on a sorted list of the nodes. Between the operations the owners of the nodes write to the links
of other nodes as they like: those that are allocated but not in the tree.
-/

namespace Propd

open Lib

section

variable {α κ : Type} [DecidableEq α] [LinearOrder κ]

/-- A call of one of the macros. -/
inductive TreeOp (α κ : Type)
  | insert (a : α)
  | remove (a : α)
  | find (x : κ)
  | min
  | next (a : α)

namespace TreeOp

/-- The call, where `cmp` compares keys. -/
def call (fuel : ℕ) (key : α → κ) : TreeOp α κ → RbM α (Option α)
  | insert a => rbInsert fuel (fun b => .ok (compare (key a) (key b))) a
  | remove a => do
    rbRemove fuel (some a)
    return none
  | find x => rbFind fuel fun b => .ok (compare x (key b))
  | min => rbMin fuel
  | next a => rbNext fuel (some a)

/-- What a caller of a macro sees to: a node is linked once, and only a node of the tree is taken
out or followed. -/
def Admissible (m : RbMem α) (s : List α) : TreeOp α κ → Prop
  | insert a => a ∉ s ∧ Allocated m a
  | remove a => a ∈ s
  | next a => a ∈ s
  | _ => True

/-- The call on a sorted list. -/
def onList (key : α → κ) (s : List α) : TreeOp α κ → Option α × List α
  | insert a =>
    match s.find? fun b => key b = key a with
    | some b => (some b, s)
    | none => (none, s.orderedInsert (fun b c => key b ≤ key c) a)
  | remove a => (none, s.erase a)
  | find x => (s.find? fun b => key b = x, s)
  | min => (s.head?, s)
  | next a => (s.find? fun b => key a < key b, s)

end TreeOp

/-- A step on the memory, with the list of the nodes of the tree: a call, or a write of the owner of
other nodes. -/
inductive TreeStep (key : α → κ) : RbMem α × List α → Option (TreeOp α κ) → RbMem α × List α → Prop
  | call {m m' : RbMem α} {s : List α} {op : TreeOp α κ} {fuel : ℕ} {r : Option α}
      (hop : op.Admissible m s) (h : (op.call fuel key).run m = .ok (r, m')) :
    TreeStep key (m, s) (some op) (m', (op.onList key s).2)
  | others {m m' : RbMem α} {s : List α}
      (h : ∀ l : RbLoc α, (∀ a ∈ l.owner, a ∈ s) → m' l = m l) : TreeStep key (m, s) none (m', s)

/-- A tree from `RB_INIT` on. -/
def treeSystem (key : α → κ) : LTS (RbMem α × List α) (Option (TreeOp α κ)) where
  init st := st.1 .root = some (.plain none) ∧ st.2 = []
  step := TreeStep key

variable {key : α → κ} {m m' : RbMem α} {s : List α} {a : α} {fuel : ℕ}

/-! ## The list -/

namespace OrderedTree

omit [DecidableEq α] in
/-- A node with the key is the only one. -/
theorem find?_eq (h : OrderedTree m key s) {x : κ} {r : Option α}
    (hsome : ∀ b ∈ r, b ∈ s ∧ key b = x) (hnone : r = none → ∀ b ∈ s, key b ≠ x) :
    (s.find? fun b => key b = x) = r := by
  cases r with
  | none => simpa using hnone rfl
  | some b =>
    obtain ⟨hb, hkey⟩ := hsome b rfl
    cases hfind : s.find? fun b => key b = x with
    | none => exact absurd hkey (by simpa using List.find?_eq_none.mp hfind b hb)
    | some c =>
      have hc : key c = x := by simpa using List.find?_some hfind
      rw [h.inj (List.mem_of_find?_eq_some hfind) hb (hc.trans hkey.symm)]

omit [DecidableEq α] in
/-- The node behind `a` is the first one with a greater key. -/
theorem find?_lt {xs ys : List α} (h : OrderedTree m key (xs ++ a :: ys)) :
    ((xs ++ a :: ys).find? fun b => key a < key b) = ys.head? := by
  obtain ⟨-, hays, hxs⟩ := List.pairwise_append.mp h.sorted
  have hfront : (xs.find? fun b => key a < key b) = none := by
    rw [List.find?_eq_none]
    intro b hb
    simpa using (hxs b hb a List.mem_cons_self).le
  rw [List.find?_append, hfront, Option.none_or, List.find?_cons_of_neg (by simp)]
  cases ys with
  | nil => rfl
  | cons b ys => exact List.find?_cons_of_pos (by simpa using (List.pairwise_cons.mp hays).1 b)

omit [DecidableEq α] in
/-- The order of the nodes is that of the keys. -/
theorem eq_orderedInsert {s' : List α} (h : OrderedTree m key s) (h' : OrderedTree m' key s')
    (hperm : s'.Perm (a :: s)) : s' = s.orderedInsert (fun b c => key b ≤ key c) a := by
  have htotal : Std.Total fun b c : α => key b ≤ key c := ⟨fun b c => le_total _ _⟩
  have htrans : IsTrans α fun b c => key b ≤ key c := ⟨fun _ _ _ => le_trans⟩
  have hins := List.perm_orderedInsert (fun b c => key b ≤ key c) a s
  refine (hperm.trans hins.symm).eq_of_pairwise (fun b c hb hc hbc hcb => ?_)
    (h'.sorted.imp fun hlt => hlt.le) ((h.sorted.imp fun hlt => hlt.le).orderedInsert a s)
  exact h'.inj hb (hperm.mem_iff.mpr (hins.mem_iff.mp hc)) (le_antisymm hbc hcb)

/-- **One call** on a tree has the result of the call on the list. -/
theorem call (h : OrderedTree m key s) {op : TreeOp α κ} (hop : op.Admissible m s)
    (hfuel : levels s.length ≤ fuel) :
    ∃ m', (op.call fuel key).run m = .ok ((op.onList key s).1, m') ∧
      OrderedTree m' key (op.onList key s).2 := by
  cases op with
  | insert a =>
    obtain ⟨ha, halloc⟩ := hop
    rcases h.rbInsert (fun b _ => rfl) ha halloc hfuel with
      ⟨m', s', hrun, htree, hperm, hne⟩ | ⟨b, hb, hkey, hrun⟩
    · have hfind := h.find?_eq (x := key a) (r := none) (by simp) fun _ => hne
      refine ⟨m', ?_, ?_⟩
      · simpa [TreeOp.call, TreeOp.onList, hfind] using hrun
      · simpa [TreeOp.onList, hfind, ← h.eq_orderedInsert htree hperm] using htree
    · have hfind := h.find?_eq (x := key a) (r := some b) (by simpa using ⟨hb, hkey⟩) (by simp)
      refine ⟨m, ?_, ?_⟩
      · simpa [TreeOp.call, TreeOp.onList, hfind] using hrun
      · simpa [TreeOp.onList, hfind] using h
  | remove a =>
    obtain ⟨m', hrun, htree⟩ := h.rbRemove hop hfuel
    exact ⟨m', (bind_run hrun).trans rfl, htree⟩
  | find x =>
    obtain ⟨r, hrun, hsome, hnone⟩ := h.rbFind (x := x) (fun b _ => rfl) hfuel
    exact ⟨m, by rw [TreeOp.onList, h.find?_eq hsome hnone]; exact hrun, h⟩
  | min => exact ⟨m, h.rbMin hfuel, h⟩
  | next a =>
    obtain ⟨xs, ys, rfl⟩ := List.append_of_mem (show a ∈ s from hop)
    exact ⟨m, by rw [TreeOp.onList, h.find?_lt]; exact h.rbNext hfuel, h⟩

end OrderedTree

/-! ## Runs -/

instance (fuel : ℕ) (op : TreeOp α κ) :
    Extends .fuel (op.call fuel key) (op.call (fuel + 1) key) := by
  cases op <;> (unfold TreeOp.call; infer_instance)

theorem ordered_of_reachable {st : RbMem α × List α} (h : (treeSystem key).Reachable st) :
    OrderedTree st.1 key st.2 := by
  refine LTS.invariant (I := fun st : RbMem α × List α => OrderedTree st.1 key st.2) ?_ ?_ h
  · rintro ⟨m, s⟩ ⟨hroot, hs⟩
    obtain rfl : s = [] := hs
    exact .nil hroot
  · rintro st l st' htree hstep
    cases hstep with
    | @call m m' s op fuel r hop hrun =>
      have hmore : Extends .fuel (op.call fuel key) (op.call (max fuel (levels s.length)) key) :=
        Extends.le (f := fun n => op.call n key) (fun n => inferInstance) (le_max_left ..)
      obtain ⟨m'', hcall, htree'⟩ := htree.call hop (le_max_right fuel _)
      rw [hmore.run_of_ne (by rw [hrun]; simp), hrun] at hcall
      cases hcall
      exact htree'
    | others hlinks => exact htree.congr hlinks fun _ _ => rfl

/-- **The tree refines a sorted list**: in every reachable state, and whatever is done to other nodes,
a call ends without a fault and has the result of the call on the sorted list of the nodes; none of
its loops takes more turns than `2 * log₂ (n + 1) + 1`. -/
theorem tree_refines (h : (treeSystem key).Reachable (m, s)) {op : TreeOp α κ}
    (hop : op.Admissible m s) :
    ∃ m', (∀ fuel, levels s.length ≤ fuel →
      (op.call fuel key).run m = .ok ((op.onList key s).1, m')) ∧
        OrderedTree m' key (op.onList key s).2 := by
  have htree : OrderedTree m key s := ordered_of_reachable h
  obtain ⟨m', hrun, htree'⟩ := htree.call hop le_rfl
  refine ⟨m', fun fuel hfuel => ?_, htree'⟩
  have hmore : Extends .fuel (op.call (levels s.length) key) (op.call fuel key) :=
    Extends.le (f := fun n => op.call n key) (fun n => inferInstance) hfuel
  rw [hmore.run_of_ne (by rw [hrun]; simp), hrun]

/-- The first node of a tree. -/
theorem tree_refines_first : (7 ∉ ([] : List ℕ) ∧ Allocated (fun _ => some (.plain none)) 7) ∧
    ∃ m', (∀ fuel, levels ([] : List ℕ).length ≤ fuel →
      ((TreeOp.insert 7).call fuel id).run (fun _ => some (.plain none)) = .ok (none, m')) ∧
        OrderedTree m' id [7] := by
  have hop : (TreeOp.insert 7 : TreeOp ℕ ℕ).Admissible (fun _ => some (.plain none)) [] :=
    ⟨List.not_mem_nil, by simp [Allocated]⟩
  exact ⟨hop, tree_refines (.of_init ⟨rfl, rfl⟩) hop⟩

end

end Propd
