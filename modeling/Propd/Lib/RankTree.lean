import Mathlib.Algebra.Order.Ring.Nat
import Mathlib.Data.List.Nodup
import Mathlib.Data.List.Pairwise
import Mathlib.Data.Nat.Log
import Mathlib.Order.Lattice
import Mathlib.Tactic.Common

/-!
# Rank-balanced trees

Binary trees in which each edge to a child, also to a missing one, has a length of 1 or 2. Where
all ways from a node down to the missing children are equally long, this length is the rank of the
node; where also the leaves have rank 1, the tree is a weak AVL tree, and its rank is logarithmic in
its size.

A place in a tree is a path: the frames from the place up to the root, each with the child that is
not on the way. Paths are to trees what contexts are to terms: `plug` fills them, and `Fits` says
which rank they want.
-/

namespace Propd.Lib

universe u

inductive Dir
  | left
  | right
  deriving DecidableEq

namespace Dir

/-- The other one. -/
def flip : Dir → Dir
  | left => right
  | right => left

@[simp] theorem flip_left : left.flip = right := rfl

@[simp] theorem flip_right : right.flip = left := rfl

@[simp] theorem flip_flip (d : Dir) : d.flip.flip = d := by cases d <;> rfl

@[simp] theorem flip_ne (d : Dir) : d.flip ≠ d := by cases d <;> simp [flip]

@[simp] theorem ne_flip (d : Dir) : d ≠ d.flip := (flip_ne d).symm

theorem eq_or_eq_flip (d d' : Dir) : d' = d ∨ d' = d.flip := by
  cases d <;> cases d' <;> simp [flip]

theorem ext_flip {β : Type u} {f g : Dir → β} (d : Dir) (h : f d = g d)
    (h' : f d.flip = g d.flip) : f = g := by
  funext e
  rcases eq_or_eq_flip d e with rfl | rfl
  · exact h
  · exact h'

end Dir

/-- The length of an edge. -/
def gap (long : Bool) : ℕ := if long then 2 else 1

@[simp] theorem gap_true : gap true = 2 := rfl

@[simp] theorem gap_false : gap false = 1 := rfl

theorem gap_pos (b : Bool) : 1 ≤ gap b := by cases b <;> simp

theorem gap_le (b : Bool) : gap b ≤ 2 := by cases b <;> simp

/-- A tree with `α` at its nodes; `long` says which of the two edges of a node are long ones. -/
inductive RankTree (α : Type u)
  | nil
  | node (a : α) (long : Dir → Bool) (l r : RankTree α)

namespace RankTree

variable {α : Type u}

def toList : RankTree α → List α
  | nil => []
  | node a _ l r => l.toList ++ a :: r.toList

def height : RankTree α → ℕ
  | nil => 0
  | node _ _ l r => max l.height r.height + 1

/-- The root. -/
def ptr : RankTree α → Option α
  | nil => none
  | node a _ _ _ => some a

@[simp] theorem ptr_nil : (nil : RankTree α).ptr = none := rfl

@[simp] theorem ptr_node {a : α} {long : Dir → Bool} {l r : RankTree α} :
    (node a long l r).ptr = some a := rfl

/-- A node with `t` on side `d` and `t'` on the other. -/
def join (d : Dir) (a : α) (long : Dir → Bool) (t t' : RankTree α) : RankTree α :=
  match d with
  | .left => node a long t t'
  | .right => node a long t' t

theorem node_eq_join (d : Dir) (a : α) (long : Dir → Bool) (l r : RankTree α) :
    ∃ t t', node a long l r = join d a long t t' := by
  cases d
  · exact ⟨l, r, rfl⟩
  · exact ⟨r, l, rfl⟩

variable {d : Dir} {a b : α} {long : Dir → Bool} {t t' : RankTree α}

@[simp] theorem join_ptr : (join d a long t t').ptr = some a := by cases d <;> rfl

@[simp] theorem join_ne_nil : join d a long t t' ≠ nil := by cases d <;> simp [join]

@[simp] theorem height_join : (join d a long t t').height = max t.height t'.height + 1 := by
  cases d
  · rfl
  · simp [join, height, max_comm]

theorem ptr_eq_none : t.ptr = none ↔ t = nil := by
  cases t <;> simp [ptr]

theorem mem_of_ptr (h : t.ptr = some a) : a ∈ t.toList := by
  cases t with
  | nil => cases h
  | node b long l r =>
    cases h
    simp [toList]

theorem ptr_notMem (h : t.toList.Disjoint t'.toList) : ∀ a ∈ t.ptr, a ∉ t'.toList :=
  fun _ ha => h (mem_of_ptr ha)

theorem ptr_ne (h : a ∉ t.toList) : t.ptr ≠ some a := fun ht => h (mem_of_ptr ht)

theorem toList_join_perm : (join d a long t t').toList.Perm (a :: (t.toList ++ t'.toList)) := by
  cases d
  · exact List.perm_middle
  · exact List.perm_middle.trans (.cons a List.perm_append_comm)

@[simp] theorem mem_join :
    b ∈ (join d a long t t').toList ↔ b = a ∨ b ∈ t.toList ∨ b ∈ t'.toList := by
  rw [toList_join_perm.mem_iff, List.mem_cons, List.mem_append]

@[simp] theorem nodup_join : (join d a long t t').toList.Nodup ↔
    (a ∉ t.toList ∧ a ∉ t'.toList) ∧
      t.toList.Nodup ∧ t'.toList.Nodup ∧ t.toList.Disjoint t'.toList := by
  rw [toList_join_perm.nodup_iff, List.nodup_cons, List.nodup_append', List.mem_append, not_or]

/-- **A rotation keeps the order.** -/
theorem toList_rotate {e : α} {long₁ long₂ long₃ long₄ : Dir → Bool} {x y z : RankTree α} :
    (join d e long₁ x (join d a long₂ y z)).toList =
      (join d a long₃ (join d e long₄ x y) z).toList := by
  cases d <;> simp [join, toList]

theorem toList_rotate_double {c e : α} {long₁ long₂ long₃ long₄ long₅ long₆ : Dir → Bool}
    {x y z w : RankTree α} :
    (join d c long₁ (join d e long₂ x y) (join d a long₃ z w)).toList =
      (join d a long₄ (join d e long₅ x (join d c long₆ y z)) w).toList := by
  cases d <;> simp [join, toList]

/-- The order of a node does not depend on its edges. -/
theorem toList_join_congr {long' : Dir → Bool} {s s' : RankTree α} (h : t.toList = s.toList)
    (h' : t'.toList = s'.toList) :
    (join d a long t t').toList = (join d a long' s s').toList := by
  cases d <;> simp [join, toList, h, h']

theorem join_flip : join d.flip a long t t' = join d a long t' t := by cases d <;> rfl

/-! ## Ranks -/

/-- The tree is a weak AVL tree of rank `n`. -/
inductive Ranked : RankTree α → ℕ → Prop
  | nil : Ranked nil 0
  | node {a : α} {long : Dir → Bool} {l r : RankTree α} {i j n : ℕ} (hl : Ranked l i)
      (hr : Ranked r j) (hi : i + gap (long .left) = n) (hj : j + gap (long .right) = n)
      (hleaf : i = 0 → j = 0 → n = 1) : Ranked (node a long l r) n

variable {n : ℕ}

theorem ranked_join : Ranked (join d a long t t') n ↔
    ∃ i j, Ranked t i ∧ Ranked t' j ∧ i + gap (long d) = n ∧ j + gap (long d.flip) = n ∧
      (i = 0 → j = 0 → n = 1) := by
  cases d with
  | left =>
    constructor
    · rintro (_ | ⟨hl, hr, hi, hj, hleaf⟩)
      exact ⟨_, _, hl, hr, hi, hj, hleaf⟩
    · rintro ⟨i, j, hl, hr, hi, hj, hleaf⟩
      exact .node hl hr hi hj hleaf
  | right =>
    constructor
    · rintro (_ | ⟨hl, hr, hi, hj, hleaf⟩)
      exact ⟨_, _, hr, hl, hj, hi, fun h h' => hleaf h' h⟩
    · rintro ⟨i, j, hl, hr, hi, hj, hleaf⟩
      exact .node hr hl hj hi fun h h' => hleaf h' h

theorem Ranked.eq_nil (h : Ranked t 0) : t = .nil := by
  generalize hn : (0 : ℕ) = n at h
  cases h with
  | nil => rfl
  | @node a long l r i j n hl hr hi hj hleaf =>
    have hpos := gap_pos (long .left)
    omega

theorem Ranked.pos (h : Ranked t n) (ht : t ≠ .nil) : 1 ≤ n := by
  rcases Nat.eq_zero_or_pos n with rfl | hn
  · exact absurd h.eq_nil ht
  · exact hn

theorem ranked_nil : Ranked (.nil : RankTree α) n ↔ n = 0 := by
  refine ⟨fun h => ?_, fun h => h ▸ .nil⟩
  cases h
  rfl

/-- A tree of rank 1 is a leaf. -/
theorem Ranked.eq_leaf (h : Ranked t 1) : ∃ a, t = .node a (fun _ => false) .nil .nil := by
  generalize hn : 1 = n at h
  cases h with
  | nil => cases hn
  | @node a long l r i j n hl hr hi hj hleaf =>
    have hpos := gap_pos (long .left)
    have hpos' := gap_pos (long .right)
    obtain rfl : i = 0 := by omega
    obtain rfl : j = 0 := by omega
    have hlong : long = fun _ => false := by
      funext d
      cases d with
      | left => cases hlong : long .left <;> simp_all
      | right => cases hlong : long .right <;> simp_all
    exact ⟨a, by rw [hl.eq_nil, hr.eq_nil, hlong]⟩

/-- A node with a missing child has a leaf for the other one at most. -/
theorem ranked_join_nil (h : Ranked (join d a long .nil t) n) :
    ∃ k, n = k + 1 ∧ k ≤ 1 ∧ Ranked t k := by
  obtain ⟨i, j, hnil, ht, hi, hj, hleaf⟩ := ranked_join.mp h
  cases hnil
  have hgap := gap_le (long d)
  have hgap' := gap_pos (long d.flip)
  rcases Nat.eq_zero_or_pos j with rfl | hpos
  · exact ⟨0, hleaf rfl rfl, Nat.zero_le 1, ht⟩
  · exact ⟨j, by omega, by omega, ht⟩

theorem Ranked.height_le (h : Ranked t n) : t.height ≤ n := by
  induction h with
  | nil => exact Nat.le_refl 0
  | @node a long l r i j n hl hr hi hj hleaf ihl ihr =>
    have hpos := gap_pos (long .left)
    have hpos' := gap_pos (long .right)
    simp only [height]
    omega

/-- Every second rank doubles the tree. -/
theorem Ranked.two_pow_le (h : Ranked t n) : 2 ^ ((n + 1) / 2) ≤ t.toList.length + 1 := by
  induction h with
  | nil => exact Nat.le_refl 1
  | @node a long l r i j n hl hr hi hj hleaf ihl ihr =>
    have hle := gap_le (long .left)
    have hle' := gap_le (long .right)
    have hpos := gap_pos (long .left)
    have hl' : 2 ^ ((n + 1) / 2 - 1) ≤ l.toList.length + 1 :=
      (Nat.pow_le_pow_right Nat.two_pos (by omega)).trans ihl
    have hr' : 2 ^ ((n + 1) / 2 - 1) ≤ r.toList.length + 1 :=
      (Nat.pow_le_pow_right Nat.two_pos (by omega)).trans ihr
    have hsplit : 2 ^ ((n + 1) / 2) = 2 ^ ((n + 1) / 2 - 1) + 2 ^ ((n + 1) / 2 - 1) := by
      rw [← Nat.two_mul, ← Nat.pow_succ']
      congr 1
      omega
    rw [hsplit, toList, List.length_append, List.length_cons]
    omega

/-- **A rank-balanced tree is not high.** -/
theorem Ranked.height_le_log (h : Ranked t n) : t.height ≤ 2 * Nat.log 2 (t.toList.length + 1) := by
  have hlog := Nat.le_log_of_pow_le (by decide) h.two_pow_le
  have hheight := h.height_le
  omega

/-! ## Search trees -/

section Search

variable {κ : Type*} [LinearOrder κ] {key : α → κ} {l r : RankTree α}

/-- The nodes are in the order of their keys. -/
def Sorted (key : α → κ) (t : RankTree α) : Prop := t.toList.Pairwise fun a b => key a < key b

theorem sorted_node : Sorted key (node a long l r) ↔ Sorted key l ∧ Sorted key r ∧
    (∀ b ∈ l.toList, key b < key a) ∧ ∀ b ∈ r.toList, key a < key b := by
  simp only [Sorted, toList, List.pairwise_append, List.pairwise_cons, List.mem_cons,
    forall_eq_or_imp]
  constructor
  · rintro ⟨hl, ⟨har, hr⟩, hlr⟩
    exact ⟨hl, hr, fun b hb => (hlr b hb).1, har⟩
  · rintro ⟨hl, hr, hla, har⟩
    exact ⟨hl, ⟨har, hr⟩, fun b hb => ⟨hla b hb, fun c hc => (hla b hb).trans (har c hc)⟩⟩

/-- Different nodes have different keys. -/
theorem Sorted.inj (h : Sorted key t) (ha : a ∈ t.toList) (hb : b ∈ t.toList)
    (hkey : key a = key b) : a = b := by
  by_contra hne
  have hsymm : Std.Symm fun a b => key a ≠ key b := ⟨fun _ _ h => h.symm⟩
  exact (List.Pairwise.imp (fun h => h.ne) h).forall ha hb hne hkey

end Search

end RankTree

/-! ## Paths -/

/-- A node on the way to a place, and its child that is not on the way. -/
structure Frame (α : Type u) where
  dir : Dir
  elm : α
  long : Dir → Bool
  sib : RankTree α

namespace RankTree

variable {α : Type u} {t : RankTree α} {F : Frame α} {p q : List (Frame α)} {k n : ℕ}

/-- The tree with `t` in the place. -/
def plug : List (Frame α) → RankTree α → RankTree α
  | [], t => t
  | F :: p, t => plug p (join F.dir F.elm F.long t F.sib)

/-- What comes before the place. -/
def before : List (Frame α) → List α
  | [] => []
  | F :: p =>
    match F.dir with
    | .left => before p
    | .right => before p ++ (F.sib.toList ++ [F.elm])

/-- What comes behind it. -/
def after : List (Frame α) → List α
  | [] => []
  | F :: p =>
    match F.dir with
    | .left => F.elm :: F.sib.toList ++ after p
    | .right => after p

theorem toList_plug (p : List (Frame α)) (t : RankTree α) :
    (plug p t).toList = before p ++ t.toList ++ after p := by
  induction p generalizing t with
  | nil => simp [plug, before, after]
  | cons F p ih =>
    rw [plug, ih]
    cases hdir : F.dir <;> simp [join, toList, before, after, hdir]

/-- The nodes of the frames. -/
def nodes : List (Frame α) → List α
  | [] => []
  | F :: p => F.elm :: (F.sib.toList ++ nodes p)

theorem toList_plug_perm (p : List (Frame α)) (t : RankTree α) :
    (plug p t).toList.Perm (t.toList ++ nodes p) := by
  induction p generalizing t with
  | nil => simp [plug, nodes]
  | cons F p ih =>
    refine (ih _).trans ((toList_join_perm.append_right _).trans ?_)
    rw [nodes, List.cons_append, List.append_assoc]
    exact List.perm_middle.symm

theorem nodup_plug : (plug p t).toList.Nodup ↔
    t.toList.Nodup ∧ (nodes p).Nodup ∧ t.toList.Disjoint (nodes p) := by
  rw [(toList_plug_perm p t).nodup_iff, List.nodup_append']

theorem toList_plug_congr (p : List (Frame α)) {t t' : RankTree α} (h : t.toList = t'.toList) :
    (plug p t).toList = (plug p t').toList := by
  rw [toList_plug, toList_plug, h]

/-- The root does not depend on what is in a place below of it. -/
theorem plug_ptr_cons (F : Frame α) (p : List (Frame α)) (t t' : RankTree α) :
    (plug (F :: p) t).ptr = (plug (F :: p) t').ptr := by
  induction p generalizing F t t' with
  | nil => simp [plug]
  | cons G p ih => exact ih G _ _

/-- The root above of a place is one of the nodes of the frames. -/
theorem exists_plug_ptr (F : Frame α) (p : List (Frame α)) (t : RankTree α) :
    ∃ a ∈ nodes (F :: p), (plug (F :: p) t).ptr = some a := by
  rw [plug_ptr_cons F p t .nil]
  have hperm := toList_plug_perm (F :: p) (.nil : RankTree α)
  cases hptr : (plug (F :: p) (.nil : RankTree α)).ptr with
  | none =>
    rw [ptr_eq_none.mp hptr] at hperm
    simp [toList, nodes] at hperm
  | some a =>
    refine ⟨a, ?_, rfl⟩
    simpa [toList] using hperm.mem_iff.mp (mem_of_ptr hptr)

theorem plug_ptr_congr (p : List (Frame α)) {t t' : RankTree α} (h : t.ptr = t'.ptr) :
    (plug p t).ptr = (plug p t').ptr := by
  cases p with
  | nil => exact h
  | cons F p => exact plug_ptr_cons F p t t'

theorem plug_append (q p : List (Frame α)) (t : RankTree α) :
    plug (q ++ p) t = plug p (plug q t) := by
  induction q generalizing t with
  | nil => rfl
  | cons F q ih => exact ih _

theorem before_append (q p : List (Frame α)) : before (q ++ p) = before p ++ before q := by
  induction q with
  | nil => simp [before]
  | cons F q ih => cases hdir : F.dir <;> simp [before, hdir, ih]

theorem after_append (q p : List (Frame α)) : after (q ++ p) = after q ++ after p := by
  induction q with
  | nil => simp [after]
  | cons F q ih => cases hdir : F.dir <;> simp [after, hdir, ih]

/-- Along the edges on one side there is nothing on that side. -/
theorem before_eq_nil (h : ∀ F ∈ p, F.dir = .left) : before p = ([] : List α) := by
  induction p with
  | nil => rfl
  | cons F p ih =>
    obtain ⟨hF, hp⟩ := List.forall_mem_cons.mp h
    simp [before, hF, ih hp]

/-- A node is taken out of the list of a tree. -/
theorem erase_plug [DecidableEq α] {a : α} {long : Dir → Bool} {l r : RankTree α}
    (h : (plug p (node a long l r)).toList.Nodup) :
    (plug p (node a long l r)).toList.erase a = before p ++ l.toList ++ (r.toList ++ after p) := by
  have hmid : (plug p (node a long l r)).toList =
      before p ++ l.toList ++ a :: (r.toList ++ after p) := by
    simp [toList_plug, toList]
  rw [hmid, List.nodup_middle, List.nodup_cons, List.mem_append, not_or] at h
  rw [hmid, List.erase_append_right _ h.1.1, List.erase_cons_head]

/-- A node of a tree is at the end of a path. -/
theorem exists_plug {a : α} (h : a ∈ t.toList) :
    ∃ p long l r, t = plug p (node a long l r) := by
  induction t with
  | nil => cases h
  | node b long l r ihl ihr =>
    simp only [toList, List.mem_append, List.mem_cons] at h
    rcases h with h | rfl | h
    · obtain ⟨p, long', l', r', rfl⟩ := ihl h
      exact ⟨p ++ [⟨.left, b, long, r⟩], long', l', r', by rw [plug_append]; rfl⟩
    · exact ⟨[], long, l, r, rfl⟩
    · obtain ⟨p, long', l', r', rfl⟩ := ihr h
      exact ⟨p ++ [⟨.right, b, long, l⟩], long', l', r', by rw [plug_append]; rfl⟩

/-- A place is not deeper than the tree is high. -/
theorem length_le_height (p : List (Frame α)) (t : RankTree α) :
    p.length + t.height ≤ (plug p t).height := by
  induction p generalizing t with
  | nil => simp [plug]
  | cons F p ih =>
    have h := ih (join F.dir F.elm F.long t F.sib)
    rw [height_join] at h
    simp only [plug, List.length_cons]
    omega

/-- With a tree of rank `k` in the place the tree is a weak AVL tree. -/
def Fits : List (Frame α) → ℕ → Prop
  | [], _ => True
  | F :: p, k => ∃ j n, Ranked F.sib j ∧ k + gap (F.long F.dir) = n ∧
      j + gap (F.long F.dir.flip) = n ∧ (k = 0 → j = 0 → n = 1) ∧ Fits p n

theorem Fits.plug (hp : Fits p k) (ht : Ranked t k) : ∃ n, Ranked (plug p t) n := by
  induction p generalizing t k with
  | nil => exact ⟨k, ht⟩
  | cons F p ih =>
    obtain ⟨j, n, hsib, hk, hj, hleaf, hp⟩ := hp
    exact ih hp (ranked_join.mpr ⟨k, j, ht, hsib, hk, hj, hleaf⟩)

/-- Which node a frame has does not matter. -/
theorem Fits.rename {d : Dir} {a b : α} {long : Dir → Bool} {s : RankTree α}
    (h : Fits (q ++ ⟨d, a, long, s⟩ :: p) k) : Fits (q ++ ⟨d, b, long, s⟩ :: p) k := by
  induction q generalizing k with
  | nil => exact h
  | cons G q ih =>
    obtain ⟨j, n, hsib, hk, hj, hleaf, hp⟩ := h
    exact ⟨j, n, hsib, hk, hj, hleaf, ih hp⟩

theorem fits_of_plug (h : Ranked (plug p t) n) : ∃ k, Fits p k ∧ Ranked t k := by
  induction p generalizing t with
  | nil => exact ⟨n, trivial, h⟩
  | cons F p ih =>
    obtain ⟨m, hp, hjoin⟩ := ih h
    obtain ⟨k, j, ht, hsib, hk, hj, hleaf⟩ := ranked_join.mp hjoin
    exact ⟨k, ⟨j, m, hsib, hk, hj, hleaf, hp⟩, ht⟩

end RankTree

end Propd.Lib
