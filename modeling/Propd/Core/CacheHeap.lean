import Propd.Core.Cache
import Propd.Lib.Blocks
import Propd.Tree.Ordered

/-!
# The cache in memory

`cache.c` down to its pointers: the items, their keys and their values are blocks of a heap, and
the links between the items are those of `tree.h`. A block that is freed is gone, with its links,
and its address may be used again; to touch it is a fault, and so is to free it once more.

An operation takes an answer of the allocator for each block it asks for, and the reading of the
clock it works with. Its loops over the tree take at most `fuel` turns.
-/

namespace Propd

open Lib

/-- A pointer in a block: what `malloc` left there, `NULL`, or the address of a block. -/
inductive BlockPtr (α : Type)
  | uninit
  | null
  | addr (a : α)

namespace BlockPtr

variable {α : Type}

/-- The pointer that an allocation returns. -/
def ofOption : Option α → BlockPtr α
  | none => null
  | some a => addr a

@[simp] theorem ofOption_none : ofOption (none : Option α) = null := rfl

@[simp] theorem ofOption_some (a : α) : ofOption (some a) = addr a := rfl

end BlockPtr

/-- `cache_item_t`, less its entry in the tree. -/
structure ItemBlock (α : Type) where
  key : BlockPtr α
  value : BlockPtr α
  modified : Timestamp
  duration : Timestamp

/-- How long an item lasts, for what reads only this. -/
def ItemBlock.times {α : Type} (i : ItemBlock α) : CacheItem := ⟨none, i.modified, i.duration⟩

/-- What a block of the heap is. -/
inductive HeapBlock (α : Type)
  | item (i : ItemBlock α)
  | string (s : CString)
  | value (v : Value)

/-- `cache_t`, less the lock and the cleaner thread, with the heap; `links` has the entries of the
items and the root of the tree. -/
structure CacheMem (α : Type) where
  links : RbMem α
  blocks : α → Option (HeapBlock α)
  minInterval : Timestamp
  maxInterval : Timestamp
  defaultDuration : Timestamp
  minDuration : Timestamp

/-- A fault of the tree, or another one. -/
abbrev CacheM (α : Type) := StateT (CacheMem α) (Except (RbFault ⊕ Fault))

/-- An answer of the allocator: `NULL`, or an address that is not in use. -/
structure Allocator (α : Type) where
  pick : (α → Bool) → Option α
  fresh : ∀ used a, pick used = some a → used a = false

/-- What a `cache_set` finds: the answers to its allocations, and what is in a new item. -/
structure SetAnswers (α : Type) where
  item : Allocator α
  key : Allocator α
  value : Allocator α
  replacement : Allocator α
  modified : Timestamp
  duration : Timestamp
  word : RbLoc α → RbWord α

/-- `strcmp`: the bytes are compared as unsigned ones. -/
def strcmpBytes : List UInt8 → List UInt8 → Ordering
  | [], [] => .eq
  | [], _ :: _ => .lt
  | _ :: _, [] => .gt
  | b :: bs, c :: cs => if b < c then .lt else if c < b then .gt else strcmpBytes bs cs

def strcmp (s t : CString) : Ordering := strcmpBytes s.bytes t.bytes

namespace CacheMem

variable {α : Type} [DecidableEq α]

/-- An operation of the tree. -/
def onLinks {β : Type} (f : RbM α β) : CacheM α β := fun s =>
  match f.run s.links with
  | .ok (b, links) => .ok (b, { s with links := links })
  | .error e => .error (.inl e)

instance : MonadLift (RbM α) (CacheM α) := ⟨onLinks⟩

/-- `cache_t` without its items, for the functions that read only its other fields. -/
def bare (s : CacheMem α) : Cache :=
  ⟨fun _ => none, s.minInterval, s.maxInterval, s.defaultDuration, s.minDuration⟩

/-! ## The heap -/

def used (s : CacheMem α) (a : α) : Bool := (s.blocks a).isSome

def malloc (al : Allocator α) (b : HeapBlock α) : CacheM α (Option α) := fun s =>
  match al.pick s.used with
  | none => .ok (none, s)
  | some a => .ok (some a, { s with blocks := Function.update s.blocks a (some b) })

/-- The links that come and go with the block at `a`. -/
def setWords (links : RbMem α) (a : α) (w : RbLoc α → Option (RbWord α)) : RbMem α := fun l =>
  if l.owner = some a then w l else links l

/-- `malloc(sizeof(cache_item_t))` -/
def mallocItem (env : SetAnswers α) : CacheM α (Option α) := do
  match ← malloc env.item (.item ⟨.uninit, .uninit, env.modified, env.duration⟩) with
  | none => return none
  | some a =>
    modify fun s => { s with links := setWords s.links a fun l => some (env.word l) }
    return some a

def free (p : BlockPtr α) : CacheM α Unit := fun s =>
  match p with
  | .uninit => .error (.inr .uninitFree)
  | .null => .ok ((), s)
  | .addr a =>
    match s.blocks a with
    | none => .error (.inr .useAfterFree)
    | some _ =>
      .ok ((), { s with
        blocks := Function.update s.blocks a none
        links := setWords s.links a fun _ => none })

/-- The fields of an item. -/
def getItem (a : α) : CacheM α (ItemBlock α) := fun s =>
  match s.blocks a with
  | some (.item i) => .ok (i, s)
  | _ => .error (.inr .useAfterFree)

def modifyItem (a : α) (f : ItemBlock α → ItemBlock α) : CacheM α Unit := fun s =>
  match s.blocks a with
  | some (.item i) => .ok ((), { s with blocks := Function.update s.blocks a (some (.item (f i))) })
  | _ => .error (.inr .useAfterFree)

/-- The value behind a pointer. -/
def getValue (p : BlockPtr α) : CacheM α Value := fun s =>
  match p with
  | .uninit => .error (.inl .uninitialised)
  | .null => .error (.inr .nullDeref)
  | .addr a =>
    match s.blocks a with
    | some (.value v) => .ok (v, s)
    | _ => .error (.inr .useAfterFree)

/-- `strdup` -/
def strdup (al : Allocator α) (s : CString) : CacheM α (Option α) := malloc al (.string s)

/-- `value_dup` of a value that is not in the heap of the cache -/
def valueDup (al : Allocator α) (v : Value) : CacheM α (Option α) := malloc al (.value v)

/-- `item->key`, as `cmp` reads it -/
def keyOf (s : CacheMem α) (a : α) : Except RbFault CString :=
  match s.blocks a with
  | some (.item i) =>
    match i.key with
    | .uninit => .error .uninitialised
    | .null => .error .nullDeref
    | .addr k =>
      match s.blocks k with
      | some (.string x) => .ok x
      | _ => .error .dangling
  | _ => .error .dangling

/-! ## The source -/

/-- `cmp` of an item that has only a key -/
def cmpKey (s : CacheMem α) (key : CString) (b : α) : Except RbFault Ordering :=
  return strcmp key (← s.keyOf b)

/-- `cmp` -/
def cmp (s : CacheMem α) (a b : α) : Except RbFault Ordering := do s.cmpKey (← s.keyOf a) b

/-- `item_destroy` -/
def itemDestroy (item : Option α) : CacheM α Unit := do
  match item with
  | none => return
  | some a =>
    free (← getItem a).key
    free (← getItem a).value
    free (.addr a)

/-- `item_create` -/
def itemCreate (key : CString) (value : Value) (duration now : Timestamp) (env : SetAnswers α) :
    CacheM α (Option α) := do
  match ← mallocItem env with
  | none =>
    itemDestroy none
    return none
  | some item =>
    let k ← strdup env.key key
    modifyItem item fun i => { i with key := .ofOption k }
    if k = none then
      itemDestroy (some item)
      return none
    let v ← valueDup env.value value
    modifyItem item fun i => { i with value := .ofOption v }
    if v = none then
      itemDestroy (some item)
      return none
    modifyItem item fun i => { i with modified := now, duration := duration }
    return some item

/-- `RB_FIND` of an item that has only a key -/
def find (fuel : ℕ) (key : CString) : CacheM α (Option α) := do
  let s ← get
  liftM (rbFind fuel (s.cmpKey key))

/-- `cache_get`: the address of the copy that it makes, and the duration. -/
def cacheGet (fuel : ℕ) (key : CString) (now : Timestamp) (al : Allocator α) :
    CacheM α (Except Errno (α × Timestamp)) := do
  match ← find fuel key with
  | none => return .error ENOENT
  | some item =>
    let i ← getItem item
    if durationIsOutdate i.times now then return .error ENOENT
    match ← valueDup al (← getValue i.value) with
    | none => return .error ENOMEM
    | some v => return .ok (v, (← get).bare.remain i.times now)

/-- What `cache_set` does to an item that is there: the old value is freed before the new one is
allocated. -/
def replaceValue (oldItem : α) (value : Value) (duration now : Timestamp) (al : Allocator α) :
    CacheM α (Except Errno Unit) := do
  free (← getItem oldItem).value
  let v ← valueDup al value
  modifyItem oldItem fun i => { i with value := .ofOption v }
  if v = none then return .error ENOMEM
  modifyItem oldItem fun i => { i with modified := now, duration := duration }
  return .ok ()

/-- `cache_set` -/
def cacheSet (fuel : ℕ) (key : CString) (value : Value) (duration now : Timestamp)
    (env : SetAnswers α) : CacheM α (Except Errno Unit) := do
  let duration := (← get).bare.clampDuration duration
  match ← itemCreate key value duration now env with
  | none => return .error ENOMEM
  | some item =>
    let s ← get
    match ← rbInsert fuel (s.cmp item) item with
    | none => return .ok ()
    | some oldItem =>
      itemDestroy (some item)
      replaceValue oldItem value duration now env.replacement

/-- `cache_del` -/
def cacheDel (fuel : ℕ) (key : CString) : CacheM α (Except Errno Unit) := do
  match ← find fuel key with
  | none => return .error ENOENT
  | some item =>
    rbRemove fuel (some item)
    itemDestroy (some item)
    return .ok ()

/-- One sweep of `cache_cleaner` -/
def cleanerSweep (fuel : ℕ) (now : Timestamp) : CacheM α Unit := do
  let first ← (rbMin fuel : RbM α (Option α))
  rbForeachSafe fuel (fun (item : α) => do
    let i ← getItem item
    if durationIsOutdate i.times now then
      rbRemove fuel (some item)
      itemDestroy (some item)) fuel first

/-- `cache_destroy`, less `free(cache)` and what ends the cleaner -/
def cacheDestroy (fuel : ℕ) : CacheM α Unit := do
  let first ← (rbMin fuel : RbM α (Option α))
  rbForeachSafe fuel (fun (item : α) => do
    rbRemove fuel (some item)
    itemDestroy (some item)) fuel first

end CacheMem

end Propd
