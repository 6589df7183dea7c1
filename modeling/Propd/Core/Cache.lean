import Propd.Core.Value
import Mathlib.Logic.Function.Basic

/-!
# The cache

`cache.c` keeps a red-black tree of items ordered by `strcmp` on their keys; here
the tree is the map from keys to items. Each operation takes the reading of the
monotonic clock it works with and the outcome of its allocations.

The functions follow the source, failures included. The second half gives each
of them one lemma that says all it can do, which later modules use instead of the
definitions.
-/

namespace Propd

/-- `cache_item_t`. The value is a pointer: `none` is `NULL`, which an item holds
once the copy of its new value could not be allocated. -/
structure CacheItem where
  value : Option Value
  modified : Timestamp
  duration : Timestamp
  deriving DecidableEq

/-- `cache_t`, less the lock and the cleaner thread. -/
structure Cache where
  tree : CString → Option CacheItem
  minInterval : Timestamp
  maxInterval : Timestamp
  defaultDuration : Timestamp
  minDuration : Timestamp

/-- `duration_is_outdate`; the sum is a 64-bit one. -/
def durationIsOutdate (item : CacheItem) (now : Timestamp) : Bool :=
  item.duration ≠ DURATION_INF && item.modified + item.duration ≤ now

/-- Which allocations of a `cache_set` succeed: the item, the copy of its key, the
copy of its value, and the copy that replaces the value of an item already there. -/
structure SetAlloc where
  item : Bool
  key : Bool
  value : Bool
  replacement : Bool

/-- Every allocation succeeds. -/
def SetAlloc.all : SetAlloc := ⟨true, true, true, true⟩

/-- `item_create`. The item comes from `malloc`: where its key cannot be copied,
`item_destroy` frees a value pointer that was never set. -/
def itemCreate (value : Value) (duration now : Timestamp) (a : SetAlloc) :
    Except Fault (Option CacheItem) :=
  if !a.item then .ok none
  else if !a.key then .error .uninitFree
  else if !a.value then .ok none
  else .ok (some ⟨some value, now, duration⟩)

namespace Cache

/-- The tree with the item of `key` set to `item`. -/
def put (c : Cache) (key : CString) (item : Option CacheItem) : Cache :=
  { c with tree := Function.update c.tree key item }

/-- The effective duration of a `cache_set`. -/
def clampDuration (c : Cache) (duration : Timestamp) : Timestamp :=
  if duration ≠ 0 then (if duration < c.minDuration then c.minDuration else duration)
  else c.defaultDuration

/-- The duration a hit reports. -/
def remain (c : Cache) (item : CacheItem) (now : Timestamp) : Timestamp :=
  if item.duration ≠ DURATION_INF then
    let left := item.duration - (now - item.modified)
    if left < c.minDuration then c.minDuration else left
  else item.duration

/-- `cache_get`; `alloc` tells whether the copy of the value can be allocated. -/
def cacheGet (c : Cache) (key : CString) (now : Timestamp) (alloc : Bool) :
    Except Fault (Except Errno (Value × Timestamp)) :=
  match c.tree key with
  | none => .ok (.error ENOENT)
  | some item =>
    if durationIsOutdate item now then .ok (.error ENOENT)
    else
      match item.value with
      | none => .error .nullDeref
      | some v => if alloc then .ok (.ok (v, c.remain item now)) else .ok (.error ENOMEM)

/-- `cache_set`. `now` is the clock reading that ends up in the item. -/
def cacheSet (c : Cache) (key : CString) (value : Value) (duration now : Timestamp)
    (a : SetAlloc) : Except Fault (Cache × Except Errno Unit) :=
  match itemCreate value (c.clampDuration duration) now a with
  | .error e => .error e
  | .ok none => .ok (c, .error ENOMEM)
  | .ok (some item) =>
    match c.tree key with
    | none => .ok (c.put key (some item), .ok ())
    | some oldItem =>
      -- the old value is freed before the new one is allocated
      if a.replacement then .ok (c.put key (some ⟨some value, now, c.clampDuration duration⟩), .ok ())
      else .ok (c.put key (some { oldItem with value := none }), .error ENOMEM)

/-- `cache_del` -/
def cacheDel (c : Cache) (key : CString) : Cache × Except Errno Unit :=
  match c.tree key with
  | none => (c, .error ENOENT)
  | some _ => (c.put key none, .ok ())

/-- One sweep of `cache_cleaner`. -/
def cleanerSweep (c : Cache) (now : Timestamp) : Cache :=
  { c with tree := fun key => (c.tree key).filter fun item => !durationIsOutdate item now }

/-! ## What the operations do -/

@[simp] theorem put_tree_self (c : Cache) (key : CString) (item : Option CacheItem) :
    (c.put key item).tree key = item := Function.update_self ..

@[simp] theorem put_tree_of_ne (c : Cache) {key key' : CString} (item : Option CacheItem)
    (h : key' ≠ key) : (c.put key item).tree key' = c.tree key' := Function.update_of_ne h ..

/-- An item of a cache in which one was put: the new one, or an old one under another key. -/
theorem put_tree_eq_some {c : Cache} {key key' : CString} {item : Option CacheItem} {x : CacheItem}
    (h : (c.put key item).tree key' = some x) :
    (key' = key ∧ item = some x) ∨ (key' ≠ key ∧ c.tree key' = some x) := by
  by_cases hkey : key' = key
  · rw [hkey, put_tree_self] at h
    exact .inl ⟨hkey, h⟩
  · rw [put_tree_of_ne c item hkey] at h
    exact .inr ⟨hkey, h⟩

/-- The item a successful `cache_set` leaves under its key. -/
def stored (c : Cache) (value : Value) (duration now : Timestamp) : CacheItem :=
  ⟨some value, now, c.clampDuration duration⟩

/-- A `cache_get` finds nothing, or fails to copy what it finds, or returns the
value of an item that is not out of date. -/
theorem cacheGet_cases {c : Cache} {key : CString} {now : Timestamp} {alloc : Bool}
    {r : Except Errno (Value × Timestamp)} (h : c.cacheGet key now alloc = .ok r) :
    (r = .error ENOENT ∧ ∀ item, c.tree key = some item → durationIsOutdate item now = true) ∨
    (r = .error ENOMEM ∧ alloc = false) ∨
    (∃ item v, c.tree key = some item ∧ durationIsOutdate item now = false ∧
      item.value = some v ∧ r = .ok (v, c.remain item now)) := by
  unfold cacheGet at h
  split at h
  · rename_i hnone
    cases h
    exact .inl ⟨rfl, by simp [hnone]⟩
  · rename_i item hitem
    split at h
    · rename_i hout
      cases h
      -- an item that is out of date is not taken out, but not found either
      refine .inl ⟨rfl, fun item' h' => ?_⟩
      rw [hitem] at h'
      cases h'
      exact hout
    · rename_i hout
      split at h
      · -- an item without a value is followed through `NULL`
        cases h
      · rename_i v hv
        split at h
        · cases h
          -- a hit
          exact .inr (.inr ⟨item, v, hitem, by simpa using hout, hv, rfl⟩)
        · rename_i ha
          cases h
          -- the copy of the value could not be allocated
          exact .inr (.inl ⟨rfl, by simpa using ha⟩)

/-- A `cache_set` that returns leaves the cache alone, or stores the item, or
leaves an item without a value; the last two only under its own key. -/
theorem cacheSet_cases {c c' : Cache} {key : CString} {value : Value} {duration now : Timestamp}
    {a : SetAlloc} {r : Except Errno Unit}
    (h : c.cacheSet key value duration now a = .ok (c', r)) :
    (c' = c ∧ r = .error ENOMEM) ∨
    (c' = c.put key (some (c.stored value duration now)) ∧ r = .ok ()) ∨
    (∃ old, c.tree key = some old ∧ c' = c.put key (some { old with value := none }) ∧
      r = .error ENOMEM) := by
  unfold cacheSet at h
  split at h
  · cases h
  · cases h
    exact .inl ⟨rfl, rfl⟩
  · rename_i item hitem
    -- an item that is created holds the value and the clamped duration
    have hnew : item = c.stored value duration now := by
      unfold itemCreate at hitem
      split at hitem
      · cases hitem
      · split at hitem
        · cases hitem
        · split at hitem <;> cases hitem
          rfl
    split at h
    · cases h
      -- a key without an item
      exact .inr (.inl ⟨by rw [hnew], rfl⟩)
    · rename_i old hold
      -- an item that is updated in place
      split at h <;> cases h
      · exact .inr (.inl ⟨rfl, rfl⟩)
      · exact .inr (.inr ⟨old, hold, rfl, rfl⟩)

/-- With its allocations a `cache_set` stores the item and succeeds. -/
theorem cacheSet_all (c : Cache) (key : CString) (value : Value) (duration now : Timestamp) :
    c.cacheSet key value duration now .all =
      .ok (c.put key (some (c.stored value duration now)), .ok ()) := by
  simp only [cacheSet, itemCreate, SetAlloc.all, Bool.not_true, Bool.false_eq_true, if_false, if_true]
  cases c.tree key <;> rfl

/-- A `cache_del` leaves no item under its key and touches no other. -/
theorem cacheDel_tree (c : Cache) (key : CString) : (c.cacheDel key).1 = c.put key none := by
  unfold cacheDel
  cases h : c.tree key with
  | some item => rfl
  | none =>
    have : Function.update c.tree key none = c.tree := by
      rw [← h, Function.update_eq_self]
    simp only [put, this]

/-- A sweep keeps exactly the items that are not out of date. -/
theorem cleanerSweep_tree {c : Cache} {now : Timestamp} {key : CString} {item : CacheItem} :
    (c.cleanerSweep now).tree key = some item ↔
      c.tree key = some item ∧ durationIsOutdate item now = false := by
  simp only [cleanerSweep, Option.filter_eq_some_iff, Bool.not_eq_eq_eq_not, Bool.not_true]

/-! ## Times without overflow

Where no sum leaves the 64-bit range, an item is alive until `modified + duration`,
and a hit reports what is left of that, raised to the minimum. -/

/-- The 64-bit value of an integer in range is the integer. -/
theorem bmod_of_range {x : ℤ} (hlo : -2 ^ 63 ≤ x) (hhi : x < 2 ^ 63) : x.bmod (2 ^ 64) = x :=
  Int.bmod_eq_of_le (by omega) (by omega)

/-- An item is alive exactly before `modified + duration`. -/
theorem durationIsOutdate_eq_false {item : CacheItem} {now : Timestamp}
    (hinf : item.duration ≠ DURATION_INF)
    (hlo : -2 ^ 63 ≤ item.modified.toInt + item.duration.toInt)
    (hhi : item.modified.toInt + item.duration.toInt < 2 ^ 63) :
    durationIsOutdate item now = false ↔
      now.toInt < item.modified.toInt + item.duration.toInt := by
  simp only [durationIsOutdate, ne_eq, hinf, not_false_eq_true, decide_true, Bool.true_and,
    decide_eq_false_iff_not, Int64.le_iff_toInt_le, Int64.toInt_add]
  rw [bmod_of_range hlo hhi]
  omega

/-- A hit reports the time that is left, or the minimum where that is longer. -/
theorem remain_toInt {c : Cache} {item : CacheItem} {now : Timestamp}
    (hinf : item.duration ≠ DURATION_INF) (hnow : item.modified.toInt ≤ now.toInt)
    (hlive : now.toInt < item.modified.toInt + item.duration.toInt) :
    (c.remain item now).toInt =
      max c.minDuration.toInt (item.modified.toInt + item.duration.toInt - now.toInt) := by
  have hdur := Int64.toInt_lt item.duration
  -- the item is not from the future, so neither difference overflows
  have hage : (now - item.modified).toInt = now.toInt - item.modified.toInt := by
    rw [Int64.toInt_sub, bmod_of_range (by omega) (by omega)]
  have hleft : (item.duration - (now - item.modified)).toInt =
      item.modified.toInt + item.duration.toInt - now.toInt := by
    rw [Int64.toInt_sub, hage, bmod_of_range (by omega) (by omega)]
    omega
  simp only [remain, ne_eq, hinf, not_false_eq_true, if_true, Int64.lt_iff_toInt_lt]
  split <;> omega

end Cache

end Propd
