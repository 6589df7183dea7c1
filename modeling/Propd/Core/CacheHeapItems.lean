import Propd.Core.CacheHeap
import Mathlib.Data.List.Lex

/-!
# The items of the cache in memory

An item owns three blocks: itself, its key, and its value where it has one. What `item_create` and
`item_destroy` do is said as a change of the blocks that the cache owns; everything else stays.
-/

namespace Propd

open Lib

/-! ## The order of the keys -/

/-- The bytes of a string as numbers. -/
def CString.codes (s : CString) : List ℕ := s.bytes.map UInt8.toNat

theorem CString.codes_inj {s t : CString} (h : s.codes = t.codes) : s = t := by
  refine CString.ext ?_
  exact List.map_injective_iff.mpr (fun _ _ => UInt8.toNat_inj.mp) h

theorem strcmpBytes_compares (bs cs : List UInt8) :
    (strcmpBytes bs cs).Compares (bs.map UInt8.toNat) (cs.map UInt8.toNat) := by
  induction bs generalizing cs with
  | nil =>
    cases cs with
    | nil => exact Eq.refl ([] : List ℕ)
    | cons c cs => exact List.Lex.nil
  | cons b bs ih =>
    cases cs with
    | nil => exact List.Lex.nil
    | cons c cs =>
      rw [strcmpBytes]
      split
      · rename_i h
        exact List.Lex.rel (UInt8.lt_iff_toNat_lt.mp h)
      · rename_i h
        split
        · rename_i h'
          exact List.Lex.rel (UInt8.lt_iff_toNat_lt.mp h')
        · rename_i h'
          -- the bytes are the same: the rest decides
          have heq : b = c := by
            rw [UInt8.lt_iff_toNat_lt] at h h'
            exact UInt8.toNat_inj.mp (by omega)
          subst heq
          have hrest := ih cs
          cases hcmp : strcmpBytes bs cs with
          | lt =>
            rw [hcmp] at hrest
            exact List.Lex.cons hrest
          | eq =>
            rw [hcmp] at hrest
            exact congrArg (b.toNat :: ·) hrest
          | gt =>
            rw [hcmp] at hrest
            exact List.Lex.cons hrest

/-- **`strcmp`** is the order of the lists of bytes. -/
theorem strcmp_eq (s t : CString) :
    strcmp s t = (inferInstance : LinearOrder (List ℕ)).compare s.codes t.codes := by
  rw [← cmp_eq_compare]
  exact (Ordering.Compares.cmp_eq (strcmpBytes_compares s.bytes t.bytes)).symm

/-! ## What a step leaves -/

section

variable {α β γ : Type}

/-- An item and its blocks: where its key is, and its value with where it is. -/
structure OwnedItem (α : Type) where
  key : CString
  keyAt : α
  value : Option (α × Value)
  modified : Timestamp
  duration : Timestamp

namespace OwnedItem

def item (e : OwnedItem α) : CacheItem := ⟨e.value.map Prod.snd, e.modified, e.duration⟩

def block (e : OwnedItem α) : ItemBlock α :=
  ⟨.addr e.keyAt, .ofOption (e.value.map Prod.fst), e.modified, e.duration⟩

def valueBlocks (v : Option (α × Value)) : List (α × HeapBlock α) :=
  v.toList.map fun x => (x.1, .value x.2)

@[simp] theorem valueBlocks_none : valueBlocks (none : Option (α × Value)) = [] := rfl

@[simp] theorem valueBlocks_some (v : α × Value) : valueBlocks (some v) = [(v.1, .value v.2)] := rfl

/-- The blocks of the item at `a`. -/
def blocks (a : α) (e : OwnedItem α) : List (α × HeapBlock α) :=
  (a, .item e.block) :: (e.keyAt, .string e.key) :: valueBlocks e.value

end OwnedItem

theorem SameOff.trans {s s' : List α} {m m' m'' : RbMem α} (h : SameOff s m m')
    (h' : SameOff s' m' m'') : SameOff (s ++ s') m m'' := fun l hl =>
  (h' l fun a ha hmem => hl a ha (List.mem_append_right _ hmem)).trans
    (h l fun a ha hmem => hl a ha (List.mem_append_left _ hmem))

theorem SameOff.eq {m m' : RbMem α} (h : SameOff [] m m') : m' = m :=
  funext fun l => h l fun _ _ => List.not_mem_nil

theorem SameOff.mono {s s' : List α} {m m' : RbMem α} (h : SameOff s m m') (hsub : s ⊆ s') :
    SameOff s' m m' := fun l hl => h l fun a ha hmem => hl a ha (hsub hmem)

namespace CacheMem

section

variable {s s' s'' : CacheMem α} {out : α → Option (HeapBlock α)} {own own' : List (α × HeapBlock α)}
  {a p : α} {b : HeapBlock α} {i : ItemBlock α} {touched touched' : List α}

/-- From `s` to `s'`: the cache owns `own`, and only links of the nodes of `touched` changed. -/
structure Leaves (s s' : CacheMem α) (out : α → Option (HeapBlock α))
    (own : List (α × HeapBlock α)) (touched : List α) : Prop where
  heap : Splits s'.blocks out own
  bare : s'.bare = s.bare
  links : SameOff touched s.links s'.links

namespace Leaves

theorem trans (h : Leaves s s' out own touched) (h' : Leaves s' s'' out own' touched') :
    Leaves s s'' out own' (touched ++ touched') :=
  ⟨h'.heap, h'.bare.trans h.bare, h.links.trans h'.links⟩

theorem mono (h : Leaves s s' out own touched) (hsub : touched ⊆ touched') :
    Leaves s s' out own touched' := ⟨h.heap, h.bare, h.links.mono hsub⟩

theorem perm (h : Leaves s s' out own touched) (hperm : own.Perm own') :
    Leaves s s' out own' touched := ⟨h.heap.perm hperm, h.bare, h.links⟩

end Leaves

@[simp] theorem pure_eq_ok (r : β) : (pure r : Except (RbFault ⊕ Fault) β) = .ok r := rfl

@[simp] theorem ok_bind (r : β) (f : β → Except (RbFault ⊕ Fault) γ) :
    (Except.ok r >>= f) = f r := rfl

@[simp] theorem error_bind (e : RbFault ⊕ Fault) (f : β → Except (RbFault ⊕ Fault) γ) :
    (Except.error e >>= f) = .error e := rfl

@[simp] theorem map_error (e : RbFault ⊕ Fault) (f : β → γ) :
    f <$> (Except.error e : Except (RbFault ⊕ Fault) β) = .error e := rfl

theorem bind_run {f : CacheM α β} {g : β → CacheM α γ} {r : β} (h : f.run s = .ok (r, s')) :
    (f >>= g).run s = (g r).run s' := by
  rw [StateT.run_bind, h]
  rfl

theorem run_getItem (h : s.blocks a = some (.item i)) : (getItem a).run s = .ok (i, s) := by
  simp [getItem, StateT.run, h]

/-- An operation of the tree changes only the links. -/
theorem run_lift {f : RbM α β} {r : β} {links : RbMem α} (h : f.run s.links = .ok (r, links)) :
    (liftM f : CacheM α β).run s = .ok (r, { s with links := links }) := by
  change onLinks f s = _
  rw [onLinks, h]

/-- The key of an item whose blocks are there. -/
theorem keyOf_eq {e : OwnedItem α} (hs : Splits s.blocks out own) (hsub : e.blocks a ⊆ own) :
    s.keyOf a = .ok e.key := by
  have hitem : s.blocks a = some (.item e.block) := hs.get (hsub List.mem_cons_self)
  have hkey : s.blocks e.keyAt = some (.string e.key) :=
    hs.get (hsub (List.mem_cons_of_mem _ List.mem_cons_self))
  simp [keyOf, hitem, OwnedItem.block, hkey]

variable [DecidableEq α]

theorem setWords_sameOff (links : RbMem α) (a : α) (w : RbLoc α → Option (RbWord α)) :
    SameOff [a] links (setWords links a w) := fun l hl => by
  refine if_neg fun howner => ?_
  exact hl a howner (List.mem_singleton_self a)

@[simp] theorem run_free_null : (free .null).run s = .ok ((), s) := rfl

@[simp] theorem run_free_uninit : (free .uninit).run s = .error (.inr .uninitFree) := rfl

theorem free_spec (hs : Splits s.blocks out ((p, b) :: own)) :
    ∃ s', (free (.addr p)).run s = .ok ((), s') ∧ Leaves s s' out own [p] := by
  have hp := hs.get List.mem_cons_self
  refine ⟨{ s with
    blocks := Function.update s.blocks p none
    links := setWords s.links p fun _ => none }, ?_, hs.free, rfl, setWords_sameOff s.links p _⟩
  simp [free, StateT.run, hp]

theorem modifyItem_spec (hs : Splits s.blocks out ((a, .item i) :: own))
    (f : ItemBlock α → ItemBlock α) :
    ∃ s', (modifyItem a f).run s = .ok ((), s') ∧ Leaves s s' out ((a, .item (f i)) :: own) [] := by
  have ha := hs.get List.mem_cons_self
  refine ⟨{ s with blocks := Function.update s.blocks a (some (.item (f i))) }, ?_,
    hs.write (.item (f i)), rfl, .refl _ _⟩
  simp [modifyItem, StateT.run, ha]

/-- An allocation fails, or the cache gets a block that nobody had. -/
theorem malloc_spec (hs : Splits s.blocks out own) (al : Allocator α) (b : HeapBlock α) :
    (malloc al b).run s = .ok (none, s) ∧ (∃ u, al.pick u = none) ∨
    ∃ p s', (malloc al b).run s = .ok (some p, s') ∧ s.blocks p = none ∧
      Leaves s s' out ((p, b) :: own) [] := by
  cases hpick : al.pick s.used with
  | none =>
    refine .inl ⟨?_, _, hpick⟩
    simp [malloc, StateT.run, hpick]
  | some p =>
    have hfree : s.blocks p = none := by
      simpa [used] using al.fresh _ _ hpick
    refine .inr ⟨p, { s with blocks := Function.update s.blocks p (some b) }, ?_, hfree,
      hs.alloc hfree b, rfl, .refl _ _⟩
    simp [malloc, StateT.run, hpick]

theorem mallocItem_spec (hs : Splits s.blocks out own) (env : SetAnswers α) :
    (mallocItem env).run s = .ok (none, s) ∨
    ∃ a s', (mallocItem env).run s = .ok (some a, s') ∧ s.blocks a = none ∧ Allocated s'.links a ∧
      Leaves s s' out ((a, .item ⟨.uninit, .uninit, env.modified, env.duration⟩) :: own) [a] := by
  rcases malloc_spec hs env.item (.item ⟨.uninit, .uninit, env.modified, env.duration⟩) with
    ⟨hrun, -⟩ | ⟨a, s₁, hrun, hfree, h₁⟩
  · exact .inl ((bind_run hrun).trans rfl)
  · refine .inr ⟨a, _, (bind_run hrun).trans rfl, hfree, ?_, h₁.heap, h₁.bare, ?_⟩
    · exact ⟨by simp [setWords, RbLoc.owner], by simp [setWords, RbLoc.owner]⟩
    · exact h₁.links.trans (setWords_sameOff s₁.links a _)

/-! ## The functions on items -/

/-- The value of an item is released, if it has one. -/
theorem freeValue_spec {v : Option (α × Value)}
    (hs : Splits s.blocks out (OwnedItem.valueBlocks v ++ own)) :
    ∃ s', (free (.ofOption (v.map Prod.fst))).run s = .ok ((), s') ∧
      Leaves s s' out own ((OwnedItem.valueBlocks v).map Prod.fst) := by
  cases v with
  | none => exact ⟨s, rfl, hs, rfl, .refl _ _⟩
  | some v => exact free_spec hs

/-- **`item_destroy`** releases the blocks of the item. -/
theorem itemDestroy_spec {e : OwnedItem α} (hs : Splits s.blocks out (e.blocks a ++ own)) :
    ∃ s', (itemDestroy (some a)).run s = .ok ((), s') ∧
      Leaves s s' out own ((e.blocks a).map Prod.fst) := by
  have hkey : Splits s.blocks out
      ((e.keyAt, .string e.key) :: (a, .item e.block) :: (OwnedItem.valueBlocks e.value ++ own)) :=
    hs.perm (List.Perm.swap ..)
  obtain ⟨s₁, hrun₁, h₁⟩ := free_spec hkey
  have hitem := run_getItem (hs.get (p := a) (b := .item e.block) List.mem_cons_self)
  have hitem₁ := run_getItem (h₁.heap.get (p := a) (b := .item e.block) List.mem_cons_self)
  obtain ⟨s₂, hrun₂, h₂⟩ := freeValue_spec (h₁.heap.perm List.perm_middle.symm)
  obtain ⟨s₃, hrun₃, h₃⟩ := free_spec h₂.heap
  refine ⟨s₃, ?_, ((h₁.trans h₂).trans h₃).mono ?_⟩
  · rw [itemDestroy, bind_run hitem, OwnedItem.block, bind_run hrun₁, bind_run hitem₁,
      OwnedItem.block, bind_run hrun₂]
    exact hrun₃
  · simp [OwnedItem.blocks]

/-- **`item_create`** fails and leaves everything as it was, or makes an item with all its blocks;
or it frees a pointer that was never set, where the key cannot be copied. -/
theorem itemCreate_spec (hs : Splits s.blocks out own) (key : CString) (value : Value)
    (duration now : Timestamp) (env : SetAnswers α) :
    (itemCreate key value duration now env).run s = .error (.inr .uninitFree) ∧
        (∃ u, env.key.pick u = none) ∨
    (∃ s' touched, (itemCreate key value duration now env).run s = .ok (none, s') ∧
      Leaves s s' out own touched ∧ ∀ b ∈ touched, s.blocks b = none) ∨
    ∃ (a : α) (e : OwnedItem α) (s' : CacheMem α), (itemCreate key value duration now env).run s = .ok (some a, s') ∧ e.key = key ∧
      e.item = ⟨some value, now, duration⟩ ∧ s.blocks a = none ∧ Allocated s'.links a ∧
      Leaves s s' out (e.blocks a ++ own) [a] := by
  rcases mallocItem_spec hs env with hrun | ⟨a, s₁, hrun, ha, halloc, h₁⟩
  · refine .inr (.inl ⟨s, [], ?_, ⟨hs, rfl, .refl _ _⟩, by simp⟩)
    simp [itemCreate, itemDestroy, hrun]
  · rcases malloc_spec h₁.heap env.key (.string key) with
      ⟨hrunk, hnone⟩ | ⟨k, s₂, hrunk, hk₁, h₂⟩
    · obtain ⟨s₂, hmod, h₂⟩ := modifyItem_spec h₁.heap fun i => { i with key := .null }
      have hitem := run_getItem (h₂.heap.get List.mem_cons_self)
      refine .inl ⟨?_, hnone⟩
      simp [itemCreate, itemDestroy, strdup, hrun, hrunk, hmod, hitem]
    · obtain ⟨s₃, hmodk, h₃⟩ := modifyItem_spec (h₂.heap.perm (List.Perm.swap ..))
        fun i => { i with key := .addr k }
      have hk : s.blocks k = none := by
        obtain ⟨hkout, hkown⟩ := h₁.heap.eq_none.mp hk₁
        exact hs.eq_none.mpr ⟨hkout, fun hmem => hkown (List.mem_cons_of_mem _ hmem)⟩
      rcases malloc_spec h₃.heap env.value (.value value) with
        ⟨hrunv, -⟩ | ⟨v, s₄, hrunv, -, h₄⟩
      · obtain ⟨s₄, hmodv, h₄⟩ := modifyItem_spec h₃.heap
          fun i => { i with value := .null }
        obtain ⟨s₅, hdestroy, h₅⟩ := itemDestroy_spec
          (e := ⟨key, k, none, env.modified, env.duration⟩) h₄.heap
        refine .inr (.inl ⟨s₅, [a, k], ?_, ?_, ?_⟩)
        · simp [itemCreate, strdup, valueDup, hrun, hrunk, hmodk, hrunv, hmodv, hdestroy]
        · exact ((((h₁.trans h₂).trans h₃).trans h₄).trans h₅).mono (by simp [OwnedItem.blocks])
        · simp [ha, hk]
      · obtain ⟨s₅, hmodv, h₅⟩ := modifyItem_spec (h₄.heap.perm (List.Perm.swap ..))
          fun i => { i with value := .addr v }
        obtain ⟨s₆, hmodt, h₆⟩ := modifyItem_spec h₅.heap
          fun i => { i with modified := now, duration := duration }
        refine .inr (.inr ⟨a, ⟨key, k, some (v, value), now, duration⟩, s₆, ?_, rfl, rfl, ha, ?_, ?_⟩)
        · simp [itemCreate, strdup, valueDup, hrun, hrunk, hmodk, hrunv, hmodv, hmodt]
        · have hlinks : s₆.links = s₁.links :=
            SameOff.eq ((((h₂.trans h₃).trans h₄).trans h₅).trans h₆).links
          rw [hlinks]
          exact halloc
        · refine ((((((h₁.trans h₂).trans h₃).trans h₄).trans h₅).trans h₆).perm ?_).mono (by simp)
          exact List.Perm.cons _ (List.Perm.swap ..)

end

end CacheMem

end

end Propd
