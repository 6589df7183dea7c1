import Propd.Core.CacheHeapItems

/-!
# The tree of the cache in memory

`Owns` is the invariant: the links are those of a tree of the items in the order of their keys, and
the cache owns the blocks of these items and no others. A loop over the tree therefore takes no more
turns than there are levels in it, and what is taken out of the tree can be freed.
-/

namespace Propd

open Lib

section

variable {α : Type}

/-- The blocks of the items. -/
def ownedBlocks (items : List α) (entry : α → OwnedItem α) : List (α × HeapBlock α) :=
  items.flatMap fun a => (entry a).blocks a

theorem mem_ownedBlocks {items : List α} {entry : α → OwnedItem α} {a : α} {x : α × HeapBlock α}
    (ha : a ∈ items) (hx : x ∈ (entry a).blocks a) : x ∈ ownedBlocks items entry :=
  List.mem_flatMap.mpr ⟨a, ha, hx⟩

theorem mem_addr {items : List α} {entry : α → OwnedItem α} {a : α} (ha : a ∈ items) :
    a ∈ (ownedBlocks items entry).map Prod.fst :=
  Splits.fst_mem (b := .item (entry a).block) (mem_ownedBlocks ha List.mem_cons_self)

section

variable [DecidableEq α] {items : List α} {entry : α → OwnedItem α} {a : α} {e : OwnedItem α}

theorem ownedBlocks_erase (ha : a ∈ items) :
    (ownedBlocks items entry).Perm ((entry a).blocks a ++ ownedBlocks (items.erase a) entry) :=
  (List.perm_cons_erase ha).flatMap_right _

theorem ownedBlocks_update (ha : a ∉ items) :
    ownedBlocks items (Function.update entry a e) = ownedBlocks items entry := by
  refine List.flatMap_congr fun b hb => ?_
  rw [Function.update_of_ne (ne_of_mem_of_not_mem hb ha)]

/-- Another item comes to `a`. -/
theorem ownedBlocks_cons (ha : a ∉ items) :
    ownedBlocks (a :: items) (Function.update entry a e) = e.blocks a ++ ownedBlocks items entry := by
  rw [← ownedBlocks_update (e := e) ha, ownedBlocks, List.flatMap_cons, Function.update_self]
  rfl

/-- The item at `a` is another one. -/
theorem ownedBlocks_change (hnodup : items.Nodup) (ha : a ∈ items) :
    (ownedBlocks items (Function.update entry a e)).Perm
      (e.blocks a ++ ownedBlocks (items.erase a) entry) := by
  refine (ownedBlocks_erase ha).trans ?_
  rw [Function.update_self, ownedBlocks_update hnodup.not_mem_erase]

end

namespace CacheMem

variable {s s' : CacheMem α} {out : α → Option (HeapBlock α)} {items : List α}
  {entry entry' : α → OwnedItem α} {a : α} {key : CString} {fuel : ℕ}

/-- The cache has these items, and nothing else. -/
structure Owns (s : CacheMem α) (out : α → Option (HeapBlock α)) (items : List α)
    (entry : α → OwnedItem α) : Prop where
  tree : OrderedTree s.links (fun a => (entry a).key.codes) items
  heap : Splits s.blocks out (ownedBlocks items entry)

namespace Owns

theorem run_getItem (h : Owns s out items entry) (ha : a ∈ items) :
    (getItem a).run s = .ok ((entry a).block, s) :=
  CacheMem.run_getItem (h.heap.get (mem_ownedBlocks ha List.mem_cons_self))

theorem keyOf (h : Owns s out items entry) (ha : a ∈ items) : s.keyOf a = .ok (entry a).key :=
  keyOf_eq h.heap fun _ hx => mem_ownedBlocks ha hx

theorem compares (h : Owns s out items entry) (key : CString) :
    Compares (s.cmpKey key) (fun a => (entry a).key.codes) key.codes items := fun b hb => by
  rw [cmpKey, h.keyOf hb, ← strcmp_eq]
  rfl

/-- What others do to links of other nodes does not matter. -/
theorem congr {touched : List α} (h : Owns s out items entry)
    (hleaves : Leaves s s' out (ownedBlocks items entry) touched)
    (htouched : ∀ a ∈ items, a ∉ touched) : Owns s' out items entry := by
  refine ⟨h.tree.congr (fun l hl => ?_) fun _ _ => rfl, hleaves.heap⟩
  exact hleaves.links l fun a ha => htouched a (hl a ha)

/-- **`RB_FIND`** finds the item with the key. -/
theorem find (h : Owns s out items entry) (hfuel : levels items.length ≤ fuel) (key : CString) :
    ∃ r, (CacheMem.find fuel key).run s = .ok (r, s) ∧
      (∀ a ∈ r, a ∈ items ∧ (entry a).key = key) ∧
      (r = none → ∀ a ∈ items, (entry a).key ≠ key) := by
  obtain ⟨r, hrun, hsome, hnone⟩ := h.tree.rbFind (h.compares key) hfuel
  refine ⟨r, ?_, fun a ha => ?_, fun hr a ha hkey => ?_⟩
  · exact (bind_run rfl).trans (run_lift hrun)
  · obtain ⟨hmem, hcodes⟩ := hsome a ha
    exact ⟨hmem, CString.codes_inj hcodes⟩
  · exact hnone hr a ha (congrArg CString.codes hkey)

/-- What is in use is not the address of an item. -/
theorem notMem (h : Owns s out items entry) (ha : s.blocks a = none) : a ∉ items := fun hmem =>
  (h.heap.eq_none.mp ha).2 (mem_addr hmem)

variable [DecidableEq α]

/-- **`RB_REMOVE` and `item_destroy`** take the item out of the tree and release its blocks. -/
theorem remove (h : Owns s out items entry) (ha : a ∈ items) (hfuel : levels items.length ≤ fuel) :
    ∃ s₁ s', (liftM (rbRemove fuel (some a)) : CacheM α Unit).run s = .ok ((), s₁) ∧
      (itemDestroy (some a)).run s₁ = .ok ((), s') ∧ Owns s' out (items.erase a) entry ∧
      s'.bare = s.bare := by
  obtain ⟨links, hrun, htree⟩ := h.tree.rbRemove ha hfuel
  have hsplit := h.heap.perm (ownedBlocks_erase ha)
  obtain ⟨s', hdestroy, hleaves⟩ := itemDestroy_spec (s := { s with links := links }) hsplit
  refine ⟨_, s', run_lift hrun, hdestroy, ?_, hleaves.bare⟩
  -- the other items have other addresses
  have hnodup := hsplit.nodup
  rw [List.map_append, List.nodup_append'] at hnodup
  refine ⟨htree.congr (fun l hl => ?_) fun _ _ => rfl, hleaves.heap⟩
  exact hleaves.links l fun b hb hmem => hnodup.2.2 hmem (mem_addr (hl b hb))

/-- **`RB_INSERT`** of a new item puts it into the tree, or finds the one with its key. -/
theorem insert {e : OwnedItem α} (h : Owns s out items entry)
    (hleaves : Leaves s s' out (e.blocks a ++ ownedBlocks items entry) [a])
    (ha : s.blocks a = none) (halloc : Allocated s'.links a) (hfuel : levels items.length ≤ fuel) :
    (∃ s₁ items', (liftM (rbInsert fuel (s'.cmp a) a) : CacheM α (Option α)).run s' =
          .ok (none, s₁) ∧ Owns s₁ out items' (Function.update entry a e) ∧
        items'.Perm (a :: items) ∧ (∀ b ∈ items, (entry b).key ≠ e.key) ∧ s₁.bare = s.bare) ∨
    ∃ b ∈ items, (entry b).key = e.key ∧
      (liftM (rbInsert fuel (s'.cmp a) a) : CacheM α (Option α)).run s' = .ok (some b, s') := by
  have hmem := h.notMem ha
  have hother : ∀ b ∈ items, Function.update entry a e b = entry b := fun b hb =>
    Function.update_of_ne (ne_of_mem_of_not_mem hb hmem) ..
  have htree : OrderedTree s'.links (fun b => (Function.update entry a e b).key.codes) items := by
    refine h.tree.congr (fun l hl => hleaves.links l fun b hb hba => ?_) fun b hb => ?_
    · obtain rfl := List.mem_singleton.mp hba
      exact hmem (hl b hb)
    · rw [hother b hb]
  have hkey : s'.keyOf a = .ok e.key :=
    keyOf_eq hleaves.heap fun x hx => List.mem_append_left _ hx
  have hcmp : Compares (s'.cmp a) (fun b => (Function.update entry a e b).key.codes)
      (Function.update entry a e a).key.codes items := fun b hb => by
    have hkeyb : s'.keyOf b = .ok (entry b).key :=
      keyOf_eq hleaves.heap fun x hx => List.mem_append_right _ (mem_ownedBlocks hb hx)
    simp only [hother b hb, Function.update_self, ← strcmp_eq]
    rw [cmp, hkey]
    change s'.cmpKey e.key b = _
    rw [cmpKey, hkeyb]
    rfl
  rcases htree.rbInsert hcmp hmem halloc hfuel with
    ⟨links, items', hrun, htree', hperm, hne⟩ | ⟨b, hb, hbkey, hrun⟩
  · refine .inl ⟨{ s' with links := links }, items', run_lift hrun, ⟨htree', ?_⟩, hperm, ?_,
      hleaves.bare⟩
    · refine hleaves.heap.perm ?_
      rw [← ownedBlocks_cons hmem]
      exact (hperm.flatMap_right _).symm
    · intro b hb hkeys
      refine hne b hb ?_
      simp only [hother b hb, Function.update_self, hkeys]
  · refine .inr ⟨b, hb, ?_, run_lift hrun⟩
    simp only [hother b hb, Function.update_self] at hbkey
    exact CString.codes_inj hbkey

/-- An item of the tree gets other blocks. -/
theorem change {e : OwnedItem α} {touched : List α} (h : Owns s out items entry) (ha : a ∈ items)
    (hkey : e.key = (entry a).key)
    (hleaves : Leaves s s' out (e.blocks a ++ ownedBlocks (items.erase a) entry) touched)
    (htouched : ∀ b ∈ items, b ∉ touched) : Owns s' out items (Function.update entry a e) := by
  refine ⟨h.tree.congr (fun l hl => hleaves.links l fun b hb => htouched b (hl b hb)) fun b _ => ?_,
    hleaves.heap.perm (ownedBlocks_change h.tree.nodup ha).symm⟩
  by_cases hba : b = a
  · rw [hba, Function.update_self, hkey]
  · rw [Function.update_of_ne hba]

/-- **The value of an item is replaced**, or lost where the new one cannot be allocated. -/
theorem replaceValue (h : Owns s out items entry) (ha : a ∈ items) (value : Value)
    (duration now : Timestamp) (al : Allocator α) :
    (∃ s', (replaceValue a value duration now al).run s = .ok (.error ENOMEM, s') ∧
      Owns s' out items (Function.update entry a { entry a with value := none }) ∧
      s'.bare = s.bare) ∨
    ∃ p s', (replaceValue a value duration now al).run s = .ok (.ok (), s') ∧
      Owns s' out items (Function.update entry a
        ⟨(entry a).key, (entry a).keyAt, some (p, value), now, duration⟩) ∧ s'.bare = s.bare := by
  have hsplit := h.heap.perm (ownedBlocks_erase ha)
  have hitem := h.run_getItem ha
  -- no item has the address of the old value
  have hapart : ∀ b ∈ items, b ∉ (OwnedItem.valueBlocks (entry a).value).map Prod.fst := by
    have hnodup := hsplit.nodup
    simp only [OwnedItem.blocks, List.map_append, List.map_cons, List.cons_append, List.nodup_cons,
      List.nodup_append', List.mem_cons, List.mem_append, not_or] at hnodup
    intro b hb hmem
    by_cases hba : b = a
    · exact hnodup.1.2.1 (hba ▸ hmem)
    · exact hnodup.2.2.2.2 hmem (mem_addr ((List.mem_erase_of_ne hba).mpr hb))
  obtain ⟨s₁, hfree, h₁⟩ := freeValue_spec
    (hsplit.perm (List.perm_middle.trans (List.perm_middle.cons _)).symm)
  rcases malloc_spec h₁.heap al (.value value) with ⟨hrun, -⟩ | ⟨p, s₂, hrun, -, h₂⟩
  · obtain ⟨s₂, hmod, h₂⟩ := modifyItem_spec h₁.heap fun i => { i with value := .null }
    have hleaves : Leaves s s₂ out _ ((OwnedItem.valueBlocks (entry a).value).map Prod.fst) :=
      (h₁.trans h₂).mono (by simp)
    refine .inl ⟨s₂, ?_, h.change ha rfl hleaves hapart, hleaves.bare⟩
    simp [CacheMem.replaceValue, hitem, OwnedItem.block, hfree, valueDup, hrun, hmod]
  · obtain ⟨s₃, hmod, h₃⟩ := modifyItem_spec (h₂.heap.perm (List.Perm.swap ..))
      fun i => { i with value := .addr p }
    obtain ⟨s₄, hmodt, h₄⟩ := modifyItem_spec h₃.heap
      fun i => { i with modified := now, duration := duration }
    have hleaves : Leaves s s₄ out _ ((OwnedItem.valueBlocks (entry a).value).map Prod.fst) :=
      (((h₁.trans h₂).trans h₃).trans h₄).mono (by simp)
    refine .inr ⟨p, s₄, ?_, h.change ha rfl (hleaves.perm ?_) hapart, hleaves.bare⟩
    · simp [CacheMem.replaceValue, hitem, OwnedItem.block, hfree, valueDup, hrun, hmod, hmodt]
    · exact List.Perm.cons _ (List.Perm.swap ..)

/-- **A loop over all items** whose body takes out those that meet `p`. -/
theorem foreach {body : α → CacheM α Unit} {p : α → Bool} {turns : ℕ}
    (h : Owns s out items entry) (hfuel : levels items.length ≤ fuel)
    (hturns : items.length < turns)
    (hbody : ∀ st items' a, Owns st out items' entry → a ∈ items' → levels items'.length ≤ fuel →
      ∃ st', (body a).run st = .ok ((), st') ∧
        Owns st' out (if p a then items'.erase a else items') entry ∧ st'.bare = st.bare) :
    ∃ s', (liftM (rbMin fuel) >>= rbForeachSafe fuel body turns).run s = .ok ((), s') ∧
      Owns s' out (items.filter fun a => !p a) entry ∧ s'.bare = s.bare := by
  have hfuel' : ∀ {xs ys : List α}, items = xs ++ ys →
      levels ((xs.filter fun a => !p a) ++ ys).length ≤ fuel := by
    rintro xs ys rfl
    refine (levels_mono ?_).trans hfuel
    simp only [List.length_append]
    have hle := List.length_filter_le (fun a => !p a) xs
    omega
  have hloop : ∃ s', (rbForeachSafe fuel body turns items.head?).run s = .ok ((), s') ∧
      ∃ xs, items = xs ++ [] ∧ Owns s' out ((xs.filter fun a => !p a) ++ []) entry ∧
        s'.bare = s.bare := by
    refine rbForeachSafe_rule body (fun rest st => ∃ xs, items = xs ++ rest ∧
      Owns st out ((xs.filter fun a => !p a) ++ rest) entry ∧ st.bare = s.bare) ?_ ?_
      ⟨[], rfl, h, rfl⟩ hturns
    · rintro a rest st ⟨xs, hitems, howns, -⟩
      exact run_lift (howns.tree.rbNext (hfuel' hitems))
    · rintro a rest st ⟨xs, rfl, howns, hbare⟩
      obtain ⟨st', hrun, howns', hbare'⟩ := hbody st _ a howns (by simp) (hfuel' rfl)
      refine ⟨st', hrun, xs ++ [a], by simp, ?_, hbare'.trans hbare⟩
      cases hp : p a with
      | true =>
        have hnot : a ∉ xs.filter fun a => !p a := by
          have hnodup := howns.tree.nodup
          rw [List.nodup_middle, List.nodup_cons, List.mem_append, not_or] at hnodup
          exact hnodup.1.1
        rw [if_pos hp, List.erase_append_right _ hnot, List.erase_cons_head] at howns'
        simpa [hp] using howns'
      | false =>
        rw [hp, if_neg Bool.false_ne_true] at howns'
        simpa [hp] using howns'
  obtain ⟨s', hrun, xs, rfl, howns, hbare⟩ := hloop
  refine ⟨s', ?_, by simpa using howns, hbare⟩
  exact (bind_run (run_lift (h.tree.rbMin hfuel))).trans hrun

/-- **`cache_destroy`** releases all blocks of the cache, each once. -/
theorem destroy (h : Owns s out items entry) (hfuel : levels items.length ≤ fuel)
    (hturns : items.length < fuel) :
    ∃ s', (cacheDestroy fuel).run s = .ok ((), s') ∧ s'.blocks = out ∧
      s'.links .root = some (.plain none) := by
  obtain ⟨s', hrun, howns, -⟩ : ∃ s', (cacheDestroy fuel).run s = .ok ((), s') ∧
      Owns s' out (items.filter fun _ => !true) entry ∧ s'.bare = s.bare := by
    refine h.foreach hfuel hturns fun st items' a howns ha hfuel' => ?_
    obtain ⟨s₁, st', hremove, hdestroy, howns', hbare⟩ := howns.remove ha hfuel'
    exact ⟨st', (bind_run hremove).trans hdestroy, howns', hbare⟩
  rw [Bool.not_true, List.filter_false] at howns
  exact ⟨s', hrun, howns.heap.eq_of_nil, howns.tree.root_of_nil⟩

end Owns

end CacheMem

end

end Propd
