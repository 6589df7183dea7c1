import Propd.Core.Storage
import Propd.Core.Misc
import Propd.Lib.Cells
import Mathlib.Data.List.TakeWhile

/-!
# The route table

`route.c` keeps a list of items, the most recent registration first. An item
holds a storage context, the prefixes it serves and a reference counter; the
address of an item is what an operation keeps of it.

The counter is an `atomic_int`; it counts operations, of which a node runs at
most one a pool thread, and the number of pool threads is a 16-bit one.
-/

namespace Propd

/-- `route_item_t`, with the address it is allocated at. -/
structure RouteItem where
  storage : StorageCtx
  prefixes : List CString
  nref : ℤ
  addr : ℕ
  deriving DecidableEq

namespace RouteItem

/-- Some prefix of the item matches the key. -/
def serves (item : RouteItem) (key : CString) : Bool :=
  item.prefixes.any fun p => prefixMatch p key

end RouteItem

/-- `route_list` -/
abbrev RouteList := List RouteItem

namespace RouteList

/-- Change the counter of the item at `addr`. -/
def addRef (list : RouteList) (addr : ℕ) (d : ℤ) : RouteList :=
  list.map fun item => if item.addr = addr then { item with nref := item.nref + d } else item

/-- The item at `addr`. -/
def itemAt (list : RouteList) (addr : ℕ) : Option RouteItem :=
  list.find? fun item => item.addr = addr

end RouteList

/-- `__route_register`; the new item, if it can be allocated, is at `addr`. -/
def routeRegister (list : RouteList) (storage : StorageCtx) (prefixes : List CString)
    (addr : ℕ) (alloc : Bool) : RouteList × SetResult :=
  if list.any fun item => item.storage.name = storage.name then (list, .error EEXIST)
  else if alloc then (⟨storage, prefixes, 0, addr⟩ :: list, .ok ())
  else (list, .error ENOMEM)

/-- `__route_unregister`: the item it destroys and the list without it. -/
def routeUnregisterName (list : RouteList) (name : CString) :
    Except Errno (RouteItem × RouteList) :=
  match list.find? fun item => item.storage.name = name with
  | none => .error ENOENT
  | some item =>
    if item.nref ≠ 0 then .error EBUSY
    else .ok (item, list.eraseP fun item => item.storage.name = name)

/-- The loop of `route_unregister(NULL)`, at most `n` times: what it leaves, what
it destroys, and the status it ends with. -/
def routeUnregisterLoop : ℕ → RouteList → RouteList × List RouteItem × SetResult
  | 0, list => (list, [], .ok ())
  | _ + 1, [] => ([], [], .ok ())
  | n + 1, first :: rest =>
    match routeUnregisterName (first :: rest) first.storage.name with
    | .error e => (first :: rest, [], .error e)
    | .ok (gone, list) =>
      let (left, destroyed, ret) := routeUnregisterLoop n list
      (left, gone :: destroyed, ret)

/-- `route_unregister`; `none` is `NULL`. Each turn of the loop takes an item off
the list, so it ends within as many turns as the list is long. -/
def routeUnregister (list : RouteList) (name : Option CString) :
    RouteList × List RouteItem × SetResult :=
  match name with
  | some name =>
    match routeUnregisterName list name with
    | .error e => (list, [], .error e)
    | .ok (gone, left) => (left, [gone], .ok ())
  | none => routeUnregisterLoop list.length list

/-- `route_match`: the first item that serves the key is returned, with one more
reference in the table. -/
def routeMatch (list : RouteList) (key : CString) : Except Errno (RouteList × RouteItem) :=
  match list.find? fun item => item.serves key with
  | none => .error ENOENT
  | some item => .ok (list.addRef item.addr 1, item)

/-- `route_deref`, on the item at `addr`. -/
def routeDeref (list : RouteList) (addr : ℕ) : Except Fault RouteList :=
  match list.itemAt addr with
  | none => .error .useAfterFree
  | some _ => .ok (list.addRef addr (-1))

/-- `route_destroy`: the table must be empty. -/
def routeDestroy (list : RouteList) : Except Fault Unit :=
  if list = [] then .ok () else .error .assertion

/-! ## What the operations do -/

namespace RouteList

theorem mem_addRef {list : RouteList} {addr : ℕ} {d : ℤ} {item : RouteItem} :
    item ∈ list.addRef addr d ↔
      (∃ it ∈ list, it.addr = addr ∧ item = { it with nref := it.nref + d }) ∨
      (item ∈ list ∧ item.addr ≠ addr) :=
  Lib.mem_modifyAt

/-- A change of a counter changes nothing else. -/
theorem addRef_map {β : Type} (f : RouteItem → β) (hf : ∀ it n, f { it with nref := n } = f it)
    (list : RouteList) (addr : ℕ) (d : ℤ) : (list.addRef addr d).map f = list.map f :=
  Lib.map_modifyAt (fun it => hf it _) list

/-- A search that does not look at the counters finds the same item. -/
theorem find?_addRef {p : RouteItem → Bool} (hp : ∀ it n, p { it with nref := n } = p it)
    {list : RouteList} {item : RouteItem} (h : list.find? p = some item) (addr : ℕ) (d : ℤ) :
    ∃ n, (list.addRef addr d).find? p = some { item with nref := n } := by
  have hcomp : (p ∘ fun it => if it.addr = addr then { it with nref := it.nref + d } else it) = p := by
    funext it
    by_cases hit : it.addr = addr
    · rw [Function.comp_apply, if_pos hit, hp]
    · rw [Function.comp_apply, if_neg hit]
  rw [addRef, List.find?_map, hcomp, h, Option.map_some]
  by_cases hit : item.addr = addr
  · exact ⟨item.nref + d, by rw [if_pos hit]⟩
  · exact ⟨item.nref, by rw [if_neg hit]⟩

theorem itemAt_eq_some {list : RouteList} {addr : ℕ} {item : RouteItem}
    (h : list.itemAt addr = some item) : item ∈ list ∧ item.addr = addr :=
  Lib.cellAt_eq_some h

/-- In a table sorted by age the address of an item leads to it. -/
theorem itemAt_of_mem {list : RouteList} {item : RouteItem}
    (h : list.Pairwise fun newer older => older.addr < newer.addr) (hitem : item ∈ list) :
    list.itemAt item.addr = some item := by
  have hdistinct : (list.map RouteItem.addr).Nodup :=
    List.pairwise_map.mpr (h.imp fun hlt => (Nat.ne_of_lt hlt).symm)
  exact Lib.cellAt_of_mem hdistinct hitem

theorem itemAt_isSome {list : RouteList} {addr : ℕ} :
    (∃ item, list.itemAt addr = some item) ↔ ∃ item ∈ list, item.addr = addr :=
  Lib.exists_cellAt

end RouteList

/-- `route_match` takes a reference on the first item that serves the key. -/
theorem routeMatch_ok {list list' : RouteList} {key : CString} {item : RouteItem}
    (h : routeMatch list key = .ok (list', item)) :
    list.find? (fun it => it.serves key) = some item ∧ list' = list.addRef item.addr 1 := by
  unfold routeMatch at h
  split at h
  · cases h
  · rename_i item' hitem
    cases h
    exact ⟨hitem, rfl⟩

theorem routeMatch_error {list : RouteList} {key : CString} {e : Errno}
    (h : routeMatch list key = .error e) :
    e = ENOENT ∧ ∀ item ∈ list, item.serves key = false := by
  unfold routeMatch at h
  split at h
  · rename_i hnone
    cases h
    exact ⟨rfl, by simpa using hnone⟩
  · cases h

theorem routeDeref_ok {list list' : RouteList} {addr : ℕ}
    (h : routeDeref list addr = .ok list') :
    (∃ item ∈ list, item.addr = addr) ∧ list' = list.addRef addr (-1) := by
  unfold routeDeref at h
  split at h
  · cases h
  · rename_i item hitem
    cases h
    exact ⟨RouteList.itemAt_isSome.mp ⟨item, hitem⟩, rfl⟩

/-- A registration adds one item in front, under a name that was free, or changes
nothing. -/
theorem routeRegister_cases {list list' : RouteList} {storage : StorageCtx}
    {prefixes : List CString} {addr : ℕ} {alloc : Bool} {ret : SetResult}
    (h : routeRegister list storage prefixes addr alloc = (list', ret)) :
    (list' = list ∧ ∃ e, ret = .error e) ∨
    (list' = ⟨storage, prefixes, 0, addr⟩ :: list ∧ ret = .ok () ∧ alloc = true ∧
      ∀ item ∈ list, item.storage.name ≠ storage.name) := by
  unfold routeRegister at h
  split at h
  · cases h
    -- the name is taken
    exact .inl ⟨rfl, _, rfl⟩
  · rename_i hfree
    split at h
    · rename_i halloc
      cases h
      exact .inr ⟨rfl, rfl, halloc, by simpa using hfree⟩
    · cases h
      -- the item could not be allocated
      exact .inl ⟨rfl, _, rfl⟩

/-- An unregistration by name destroys an item without references, or changes
nothing. -/
theorem routeUnregisterName_ok {list left : RouteList} {name : CString} {gone : RouteItem}
    (h : routeUnregisterName list name = .ok (gone, left)) :
    ∃ l₁ l₂, list = l₁ ++ gone :: l₂ ∧ left = l₁ ++ l₂ ∧ gone.nref = 0 ∧
      gone.storage.name = name := by
  unfold routeUnregisterName at h
  split at h
  · cases h
  · rename_i item hitem
    split at h
    · cases h
    · rename_i href
      cases h
      -- the first item of this name is the one that is erased
      obtain ⟨hp, l₁, l₂, heq, hl₁⟩ := List.find?_eq_some_iff_append.mp hitem
      refine ⟨l₁, l₂, heq, ?_, by simpa using href, by simpa using hp⟩
      rw [heq, List.eraseP_append_right _ (by simpa using hl₁), List.eraseP_cons, hp, cond_true]

/-- The head of a list is the item its own name finds. -/
theorem routeUnregisterName_head (first : RouteItem) (rest : RouteList) :
    routeUnregisterName (first :: rest) first.storage.name =
      if first.nref = 0 then .ok (first, rest) else .error EBUSY := by
  unfold routeUnregisterName
  simp only [List.find?_cons, decide_true, List.eraseP_cons, ne_eq, ite_not]
  split <;> rfl

/-- **Unregister-all** destroys exactly the items in front of the first one with
references, and reports `EBUSY` if there is one. -/
theorem routeUnregisterLoop_eq (n : ℕ) (list : RouteList) (h : list.length ≤ n) :
    routeUnregisterLoop n list =
      (list.dropWhile (fun it => it.nref = 0), list.takeWhile (fun it => it.nref = 0),
        if list.dropWhile (fun it => it.nref = 0) = [] then .ok () else .error EBUSY) := by
  induction n generalizing list with
  | zero =>
    have : list = [] := List.eq_nil_of_length_eq_zero (Nat.le_zero.mp h)
    subst this
    rfl
  | succ n ih =>
    cases list with
    | nil => rfl
    | cons first rest =>
      simp only [routeUnregisterLoop, routeUnregisterName_head]
      -- the loop stops at the first item that is in use
      by_cases hz : first.nref = 0
      · simp only [hz, if_true, ih rest (Nat.le_of_succ_le_succ h), List.dropWhile_cons,
          List.takeWhile_cons, decide_true]
      · simp [hz]

theorem routeUnregister_none (list : RouteList) :
    routeUnregister list none =
      (list.dropWhile (fun it => it.nref = 0), list.takeWhile (fun it => it.nref = 0),
        if list.dropWhile (fun it => it.nref = 0) = [] then .ok () else .error EBUSY) :=
  routeUnregisterLoop_eq _ list le_rfl

/-- Whatever `route_unregister` is called for, it splits the table into what it leaves,
in the same order, and items without references. -/
theorem routeUnregister_split {list left : RouteList} {gone : List RouteItem}
    {name : Option CString} {ret : SetResult} (h : routeUnregister list name = (left, gone, ret)) :
    left.Sublist list ∧ list.Perm (gone ++ left) ∧ ∀ item ∈ gone, item.nref = 0 := by
  cases name with
  | none =>
    -- `NULL`: the items in front of the first one in use
    rw [routeUnregister_none] at h
    cases h
    refine ⟨List.dropWhile_sublist _, ?_, fun item hitem => ?_⟩
    · rw [List.takeWhile_append_dropWhile]
    · simpa using List.mem_takeWhile_imp hitem
  | some name =>
    -- one name: at most its item
    simp only [routeUnregister] at h
    split at h
    · cases h
      exact ⟨List.Sublist.refl _, List.Perm.refl _, by simp⟩
    · rename_i item rest hname
      cases h
      obtain ⟨l₁, l₂, rfl, rfl, hzero, -⟩ := routeUnregisterName_ok hname
      refine ⟨?_, List.perm_middle, by simpa using hzero⟩
      exact (List.Sublist.refl l₁).append (List.sublist_cons_self item l₂)

end Propd
