import Propd.Lib.RankTree
import Mathlib.Logic.Function.Basic

/-!
# The trees of `tree.h`

The macros behind `RB_GENERATE_STATIC`, on the words of the memory that they read and write. A node
has three links: one up, whose two low bits say which of the edges down are long, and one to each
child. The head of a tree is a link as well.

Nothing is augmented, so `RB_AUGMENT_CHECK` is 0, and what is only done for it is left out, as is
what stands under `RB_STRICT_HST`, which is 0. A loop takes at most `fuel` turns.
-/

namespace Propd

open Lib

/-- What may happen to a tree operation: it follows `NULL`, or a pointer to a node that is not
allocated, or a link with its bits, or a variable without a value; or its fuel ends. -/
inductive RbFault
  | nullDeref
  | dangling
  | misaligned
  | uninitialised
  | fuel
  deriving DecidableEq

/-- A link: a pointer, and its two low bits, `_RB_L` and `_RB_R`. -/
structure RbWord (α : Type) where
  ptr : Option α
  bits : Dir → Bool

namespace RbWord

variable {α : Type}

/-- A pointer without bits. -/
def plain (p : Option α) : RbWord α := ⟨p, fun _ => false⟩

/-- `_RB_MOD_XOR(w, dir)` -/
def xor (w : RbWord α) (d : Dir) : RbWord α :=
  { w with bits := Function.update w.bits d !(w.bits d) }

/-- `_RB_MOD_XOR(w, _RB_LR)` -/
def xorBoth (w : RbWord α) : RbWord α := { w with bits := fun d => !w.bits d }

/-- `_RB_MOD_OR(w, _RB_LR)` -/
def orBoth (w : RbWord α) : RbWord α := { w with bits := fun _ => true }

/-- `_RB_BITS(w) & _RB_LR` -/
def any (w : RbWord α) : Bool := w.bits .left || w.bits .right

end RbWord

/-- Where a link is: the root of the head, the link up of a node, and those to its children. -/
inductive RbLoc (α : Type)
  | root
  | up (a : α)
  | link (a : α) (d : Dir)
  deriving DecidableEq

/-- The links that are allocated. -/
abbrev RbMem (α : Type) := RbLoc α → Option (RbWord α)

/-- A tree operation. -/
abbrev RbM (α : Type) := StateT (RbMem α) (Except RbFault)

section Macros

variable {α : Type} [DecidableEq α]

def load (l : RbLoc α) : RbM α (RbWord α) := fun m =>
  match m l with
  | some w => .ok (w, m)
  | none => .error .dangling

def store (l : RbLoc α) (w : RbWord α) : RbM α Unit := fun m =>
  match m l with
  | some _ => .ok ((), Function.update m l (some w))
  | none => .error .dangling

/-- The node behind a pointer. -/
def node (p : Option α) : RbM α α :=
  match p with
  | some a => pure a
  | none => throw .nullDeref

/-- A link that is used as a pointer. -/
def asPtr (w : RbWord α) : RbM α (Option α) :=
  if w.any then throw .misaligned else pure w.ptr

/-- `_RB_UP` -/
def rbUp (p : Option α) : RbM α (RbWord α) := do load (.up (← node p))

def rbSetUp (p : Option α) (w : RbWord α) : RbM α Unit := do store (.up (← node p)) w

def rbModUp (p : Option α) (f : RbWord α → RbWord α) : RbM α Unit := do rbSetUp p (f (← rbUp p))

/-- `_RB_LINK`, for the links down -/
def rbLink (p : Option α) (d : Dir) : RbM α (Option α) := do
  asPtr (← load (.link (← node p) d))

def rbSetLink (p : Option α) (d : Dir) (x : Option α) : RbM α Unit := do
  store (.link (← node p) d) (.plain x)

/-- `RB_PARENT` -/
def rbParent (p : Option α) : RbM α (Option α) := return (← rbUp p).ptr

/-- `RB_SET_PARENT` -/
def rbSetParent (dst src : Option α) : RbM α Unit := rbModUp dst fun w => { w with ptr := src }

/-- `RB_SWAP_CHILD`: `par`'s child `out` is replaced by `inn`. -/
def rbSwapChild (par out inn : Option α) : RbM α Unit :=
  match par with
  | none => store .root (.plain inn)
  | some _ => do
    if out = (← rbLink par .left) then rbSetLink par .left inn else rbSetLink par .right inn

/-- `RB_ROTATE`: `tmp` comes up from the other side, and `elm` down to side `dir`. What is above
of `elm` is left to the caller. -/
def rbRotate (elm tmp : Option α) (dir : Dir) : RbM α Unit := do
  let x ← rbLink tmp dir
  rbSetLink elm dir.flip x
  if x ≠ none then rbSetParent x elm
  rbSetLink tmp dir elm
  rbSetParent elm tmp

/-- The side of `parent` that `elm` is on. -/
def rbSide (parent elm : Option α) : RbM α Dir :=
  return if (← rbLink parent .right) = elm then .right else .left

/-! ## Insertion -/

/-- `RB_INSERT_COLOR`, from the head of its loop; `none` is a `child` without a value. -/
def rbInsertColor : ℕ → Option α → Option α → Option (Option α) → RbM α (Option α)
  | 0, _, _, _ => throw .fuel
  | fuel + 1, parent, elm, child => do
    -- the rank of the tree rooted at `elm` grew
    let gpar ← rbUp parent
    let elmdir ← rbSide parent elm
    if gpar.bits elmdir then
      -- shorten the parent-elm edge to rebalance
      rbModUp parent fun w => w.xor elmdir
      return none
    let sibdir := elmdir.flip
    -- the other edge must change length
    rbModUp parent fun w => w.xor sibdir
    if !gpar.any then
      -- both edges are short now, retry from the parent
      let gpar ← asPtr gpar
      if gpar = none then return none
      return ← rbInsertColor fuel gpar parent (some elm)
    let gpar := gpar.ptr
    rbSetUp parent (.plain gpar)
    let child ← if (← rbUp elm).bits elmdir then do
        -- the long edge of `elm` is on the outer side: first rotate at `elm`
        let some child := child | throw .uninitialised
        rbRotate elm child elmdir
        let childUp ← rbUp child
        if childUp.bits sibdir then rbModUp parent fun w => w.xor elmdir
        if childUp.bits elmdir then rbModUp elm fun w => w.xorBoth
        else rbModUp elm fun w => w.xor elmdir
        pure child
      else pure elm
    rbRotate parent child sibdir
    rbSetUp child (.plain gpar)
    rbSwapChild gpar parent child
    return child

/-- `RB_INSERT_FINISH`: `pptr` is where the link to `elm` goes. -/
def rbInsertFinish (fuel : ℕ) (parent : Option α) (pptr : RbLoc α) (elm : α) : RbM α Unit := do
  rbSetUp (some elm) (.plain parent)
  rbSetLink (some elm) .left none
  rbSetLink (some elm) .right none
  store pptr (.plain (some elm))
  if parent ≠ none then
    let _ ← rbInsertColor fuel parent (some elm) none

/-- The descent of `RB_INSERT`; `cmp` compares the new node with one of the tree. Either the place
and the node above of it, or the node with which it is equal. -/
def rbDescend (cmp : α → Except RbFault Ordering) :
    ℕ → RbLoc α → Option α → RbM α (RbLoc α × Option α ⊕ α)
  | 0, _, _ => throw .fuel
  | fuel + 1, tmpp, parent => do
    match ← asPtr (← load tmpp) with
    | none => return .inl (tmpp, parent)
    | some tmp =>
      match ← cmp tmp with
      | .lt => rbDescend cmp fuel (.link tmp .left) (some tmp)
      | .gt => rbDescend cmp fuel (.link tmp .right) (some tmp)
      | .eq => return .inr tmp

/-- `RB_INSERT`: `NULL`, or the node that is in the tree already -/
def rbInsert (fuel : ℕ) (cmp : α → Except RbFault Ordering) (elm : α) : RbM α (Option α) := do
  match ← rbDescend cmp fuel .root none with
  | .inl (tmpp, parent) =>
    rbInsertFinish fuel parent tmpp elm
    return none
  | .inr old => return some old

/-! ## Removal -/

/-- The loop of `RB_REMOVE_COLOR` -/
def rbRemoveColorLoop : ℕ → Option α → Option α → RbM α (Option α)
  | 0, _, _ => throw .fuel
  | fuel + 1, parent, elm => do
    -- the rank of the tree rooted at `elm` shrank
    let gpar ← rbUp parent
    let elmdir ← rbSide parent elm
    let gpar := gpar.xor elmdir
    if gpar.bits elmdir then
      -- lengthen the parent-elm edge to rebalance
      rbSetUp parent gpar
      return none
    if gpar.any then
      -- shorten the other edge, retry from the parent
      let gpar := gpar.xorBoth
      rbSetUp parent gpar
      if gpar.ptr = none then return none
      return ← rbRemoveColorLoop fuel gpar.ptr parent
    let sibdir := elmdir.flip
    let sib ← rbLink parent sibdir
    let up := (← rbUp sib).xorBoth
    if !up.any then
      -- shorten the edges that descend from `sib`, retry
      rbSetUp sib up
      let gpar ← asPtr gpar
      if gpar = none then return none
      return ← rbRemoveColorLoop fuel gpar parent
    let elm ← if !up.bits sibdir then do
        -- the outer edge of `sib` is long: first rotate at its inner child
        let elm ← rbLink sib elmdir
        rbRotate sib elm sibdir
        let up ← rbUp elm
        rbModUp parent fun w => if up.bits elmdir then w.xorBoth else w.xor elmdir
        rbModUp sib fun w => if up.bits sibdir then w.xorBoth else w.xor sibdir
        rbModUp elm fun w => w.orBoth
        pure elm
      else do
        if !up.bits elmdir then
          -- demote the parent
          rbModUp parent fun w => w.xor elmdir
          rbModUp sib fun w => w.xor sibdir
        else rbModUp sib fun w => w.xor sibdir
        pure sib
    rbRotate parent elm elmdir
    let gpar ← asPtr gpar
    rbSetParent elm gpar
    rbSwapChild gpar parent elm
    return parent

/-- `RB_REMOVE_COLOR` -/
def rbRemoveColor (fuel : ℕ) (parent elm : Option α) : RbM α (Option α) := do
  if (← rbLink parent .right) = elm ∧ (← rbLink parent .left) = elm then
    -- a leaf of rank 2 is demoted
    rbModUp parent fun w => .plain w.ptr
    let gpar ← asPtr (← rbUp parent)
    if gpar = none then return none
    return ← rbRemoveColorLoop fuel gpar parent
  rbRemoveColorLoop fuel parent elm

/-- `while (RB_LINK(elm, d)) elm = RB_LINK(elm, d)` -/
def rbFarthest (d : Dir) : ℕ → Option α → RbM α (Option α)
  | 0, _ => throw .fuel
  | fuel + 1, elm => do
    match ← rbLink elm d with
    | none => return elm
    | some x => rbFarthest d fuel (some x)

/-- `if (child != NULL) _RB_UP(child, field) = parent` -/
def rbAdopt (child parent : Option α) : RbM α Unit := do
  if child ≠ none then rbSetUp child (.plain parent)

/-- `RB_REMOVE` up to where the balance is restored: `out` is taken out of the tree. Into its place
comes its child, or its successor, into whose place comes the `child` of that one. What is returned
is `in`, `child` and the parent of `child`. -/
def rbRemoveSplice (fuel : ℕ) (out : Option α) : RbM α (Option α × Option α × Option α) := do
  let child ← rbLink out .left
  let inn ← rbLink out .right
  let opar ← rbUp out
  let (child, inn, parent) ← if inn = none ∨ child = none then do
      let child := if inn = none then child else inn
      pure (child, child, opar.ptr)
    else do
      let parent := inn
      let inn ← rbFarthest .left fuel inn
      rbSetParent child inn
      rbSetLink inn .left child
      let child ← rbLink inn .right
      let parent ← if parent ≠ inn then do
          rbSetParent parent inn
          rbSetLink inn .right parent
          let parent ← rbParent inn
          rbSetLink parent .left child
          pure parent
        else pure parent
      rbSetUp inn opar
      pure (child, inn, parent)
  rbSwapChild opar.ptr out inn
  rbAdopt child parent
  return (inn, child, parent)

/-- `RB_REMOVE` -/
def rbRemove (fuel : ℕ) (out : Option α) : RbM α Unit := do
  let (inn, child, parent) ← rbRemoveSplice fuel out
  if parent ≠ none then
    let _ ← rbRemoveColor fuel parent child
    if parent = inn then
      if (← rbLink parent .left) = none then
        let _ ← rbParent parent

/-! ## Search and traversal -/

/-- The loop of `RB_FIND`; `cmp` compares the searched node with one of the tree. -/
def rbFindLoop (cmp : α → Except RbFault Ordering) : ℕ → Option α → RbM α (Option α)
  | 0, _ => throw .fuel
  | fuel + 1, tmp => do
    match tmp with
    | none => return none
    | some a =>
      match ← cmp a with
      | .lt => rbFindLoop cmp fuel (← rbLink tmp .left)
      | .gt => rbFindLoop cmp fuel (← rbLink tmp .right)
      | .eq => return some a

/-- `RB_FIND` -/
def rbFind (fuel : ℕ) (cmp : α → Except RbFault Ordering) : RbM α (Option α) := do
  rbFindLoop cmp fuel (← asPtr (← load .root))

/-- `while (RB_PARENT(elm) && elm == RB_RIGHT(RB_PARENT(elm))) elm = RB_PARENT(elm)`, and then
`RB_PARENT(elm)` -/
def rbClimb : ℕ → Option α → RbM α (Option α)
  | 0, _ => throw .fuel
  | fuel + 1, elm => do
    match ← rbParent elm with
    | none => return none
    | some a => if elm = (← rbLink (some a) .right) then rbClimb fuel (some a) else return some a

/-- `RB_NEXT` -/
def rbNext (fuel : ℕ) (elm : Option α) : RbM α (Option α) := do
  match ← rbLink elm .right with
  | some x => rbFarthest .left fuel (some x)
  | none => rbClimb fuel elm

/-- The loop of `RB_MINMAX`, towards `d` -/
def rbMinmaxLoop (d : Dir) : ℕ → Option α → Option α → RbM α (Option α)
  | 0, _, _ => throw .fuel
  | fuel + 1, tmp, parent => do
    if tmp = none then return parent
    rbMinmaxLoop d fuel (← rbLink tmp d) tmp

/-- `RB_MIN` -/
def rbMin (fuel : ℕ) : RbM α (Option α) := do
  rbMinmaxLoop .left fuel (← asPtr (← load .root)) none

/-- `RB_FOREACH_SAFE`, from `x` on: the next node is read before the body runs, which may take `x`
out of the tree. The loop takes at most `turns` turns, and each search for the next node `fuel`. -/
def rbForeachSafe {M : Type → Type} [Monad M] [MonadLift (RbM α) M] (fuel : ℕ)
    (body : α → M Unit) : ℕ → Option α → M Unit
  | 0, _ => liftM (throw .fuel : RbM α Unit)
  | turns + 1, x => do
    match x with
    | none => return
    | some a =>
      let y ← liftM (rbNext fuel (some a))
      body a
      rbForeachSafe fuel body turns y

end Macros

end Propd
