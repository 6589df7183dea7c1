import Propd.Core.CacheFailures
import Propd.Core.CacheHeapTree

/-!
# The cache in memory refines the map

Every call on the items in memory has the outcome of the call on the map of `Propd.Core.Cache`: the
same reply, or the same fault. The copy that a `cache_get` makes goes over to the caller; all other
blocks that a call leaves are those of the items.
-/

namespace Propd

open Lib

section

variable {α : Type}

/-- The items show the map. -/
def Shows (items : List α) (entry : α → OwnedItem α) (tree : CString → Option CacheItem) : Prop :=
  ∀ k it, tree k = some it ↔ ∃ a ∈ items, (entry a).key = k ∧ (entry a).item = it

namespace Shows

variable {items items' : List α} {entry entry' : α → OwnedItem α}
  {tree : CString → Option CacheItem} {a : α} {key : CString} {it : CacheItem}

theorem eq_none (h : Shows items entry tree) (hkey : ∀ a ∈ items, (entry a).key ≠ key) :
    tree key = none := by
  refine Option.eq_none_iff_forall_ne_some.mpr fun it hit => ?_
  obtain ⟨a, ha, hk, -⟩ := (h key it).mp hit
  exact hkey a ha hk

theorem eq_some (h : Shows items entry tree) (ha : a ∈ items) (hkey : (entry a).key = key) :
    tree key = some (entry a).item := (h key _).mpr ⟨a, ha, hkey, rfl⟩

/-- The item at `a` is new, or has changed. -/
theorem put (h : Shows items entry tree) (ha : a ∈ items') (hkey : (entry' a).key = key)
    (hmem : ∀ b, b ≠ a → (b ∈ items' ↔ b ∈ items)) (hentry : ∀ b, b ≠ a → entry' b = entry b)
    (hother : ∀ b ∈ items, b ≠ a → (entry b).key ≠ key)
    (hold : a ∈ items → (entry a).key = key) :
    Shows items' entry' (Function.update tree key (some (entry' a).item)) := by
  intro k it
  by_cases hk : k = key
  · subst hk
    rw [Function.update_self, Option.some.injEq]
    constructor
    · exact fun hit => ⟨a, ha, hkey, hit⟩
    · rintro ⟨b, hb, hbk, hit⟩
      by_cases hba : b = a
      · rw [← hba, hit]
      · refine absurd ?_ (hother b ((hmem b hba).mp hb) hba)
        rw [← hentry b hba, hbk]
  · rw [Function.update_of_ne hk, h k it]
    constructor
    · rintro ⟨b, hb, hbk, hit⟩
      have hba : b ≠ a := fun heq => hk (by rw [← hbk, heq, hold (heq ▸ hb)])
      exact ⟨b, (hmem b hba).mpr hb, by rw [hentry b hba, hbk], by rw [hentry b hba, hit]⟩
    · rintro ⟨b, hb, hbk, hit⟩
      have hba : b ≠ a := fun heq => hk (by rw [← hbk, heq, hkey])
      exact ⟨b, (hmem b hba).mp hb, by rw [← hentry b hba, hbk], by rw [← hentry b hba, hit]⟩

/-- Some of the items are gone. -/
theorem filter (h : Shows items entry tree) (p : α → Bool) (q : CacheItem → Bool)
    (hp : ∀ a ∈ items, p a = q (entry a).item) :
    Shows (items.filter p) entry fun k => (tree k).filter q := by
  intro k it
  simp only [Option.filter_eq_some_iff, h k it, List.mem_filter]
  constructor
  · rintro ⟨⟨a, ha, hk, hit⟩, hq⟩
    exact ⟨a, ⟨ha, by rw [hp a ha, hit, hq]⟩, hk, hit⟩
  · rintro ⟨a, ⟨ha, hpa⟩, hk, hit⟩
    exact ⟨⟨a, ha, hk, hit⟩, by rw [← hit, ← hp a ha, hpa]⟩

/-- The item at `a` is gone. -/
theorem erase [DecidableEq α] (h : Shows items entry tree) (hnodup : items.Nodup)
    (hkey : (entry a).key = key)
    (hother : ∀ b ∈ items, b ≠ a → (entry b).key ≠ key) :
    Shows (items.erase a) entry (Function.update tree key none) := by
  intro k it
  simp only [hnodup.mem_erase_iff]
  by_cases hk : k = key
  · subst hk
    rw [Function.update_self]
    refine iff_of_false (Option.some_ne_none it).symm ?_
    rintro ⟨b, ⟨hba, hb⟩, hbk, -⟩
    exact hother b hb hba hbk
  · rw [Function.update_of_ne hk, h k it]
    constructor
    · rintro ⟨b, hb, hbk, hit⟩
      exact ⟨b, ⟨fun heq => hk (by rw [← hbk, heq, hkey]), hb⟩, hbk, hit⟩
    · rintro ⟨b, ⟨-, hb⟩, hbk, hit⟩
      exact ⟨b, hb, hbk, hit⟩

end Shows

/-! ## Calls and replies -/

/-- What a call returns; a copy of a value is a `β`. -/
inductive CacheReply (β : Type)
  | status (r : Except Errno Unit)
  | copy (r : Except Errno (β × Timestamp))
  | swept

/-- A call with the answers of the allocator. -/
inductive MemCall (α : Type)
  | set (key : CString) (value : Value) (duration : Timestamp) (env : SetAnswers α)
  | get (key : CString) (al : Allocator α)
  | del (key : CString)
  | sweep

/-- The call of the map that a call in memory stands for, with the outcome of its allocations. -/
inductive MemCall.Stands : MemCall α → CacheCall → Prop
  | set (key : CString) (value : Value) (duration : Timestamp) (env : SetAnswers α) (a : SetAlloc) :
    Stands (.set key value duration env) (.set key value duration a)
  | get (key : CString) (al : Allocator α) (alloc : Bool) : Stands (.get key al) (.get key alloc)
  | del (key : CString) : Stands (.del key) (.del key)
  | sweep : Stands .sweep .sweep

/-- The turns that suffice for a call on `n` items. -/
def MemCall.turns (n : ℕ) : MemCall α → ℕ
  | .sweep => max (n + 1) (levels n)
  | _ => levels n

/-- One call on the map, with its reply. -/
def Cache.respond (c : Cache) (now : Timestamp) :
    CacheCall → Except Fault (Cache × CacheReply Value)
  | .set key value duration a =>
    (c.cacheSet key value duration now a).map fun r => (r.1, .status r.2)
  | .get key alloc => (c.cacheGet key now alloc).map fun r => (c, .copy r)
  | .del key => .ok ((c.cacheDel key).1, .status (c.cacheDel key).2)
  | .sweep => .ok (c.cleanerSweep now, .swept)

/-- The reply in memory is that of the map, and the caller gets the block of the copy. -/
inductive Hands (out : α → Option (HeapBlock α)) [DecidableEq α] :
    CacheReply α → CacheReply Value → (α → Option (HeapBlock α)) → Prop
  | status (r : Except Errno Unit) : Hands out (.status r) (.status r) out
  | failed (e : Errno) : Hands out (.copy (.error e)) (.copy (.error e)) out
  | copied (p : α) (v : Value) (d : Timestamp) (hp : out p = none) :
    Hands out (.copy (.ok (p, d))) (.copy (.ok (v, d))) (Function.update out p (some (.value v)))
  | swept : Hands out .swept .swept out

variable [DecidableEq α]

namespace CacheMem

/-- One call, with its reply. -/
def respond (fuel : ℕ) (now : Timestamp) : MemCall α → CacheM α (CacheReply α)
  | .set key value duration env => return .status (← cacheSet fuel key value duration now env)
  | .get key al => return .copy (← cacheGet fuel key now al)
  | .del key => return .status (← cacheDel fuel key)
  | .sweep => do
    cleanerSweep fuel now
    return .swept

variable {s s' : CacheMem α} {out : α → Option (HeapBlock α)} {items : List α}
  {entry : α → OwnedItem α} {c : Cache} {a : α} {key : CString} {fuel : ℕ} {now : Timestamp}

/-- The memory represents the map. -/
structure Represents (s : CacheMem α) (out : α → Option (HeapBlock α)) (items : List α)
    (entry : α → OwnedItem α) (c : Cache) : Prop extends Owns s out items entry where
  shows : Shows items entry c.tree
  bare : s.bare = { c with tree := fun _ => none }

/-- A call in memory has the outcome of a call on the map. -/
def Agrees (x : Except (RbFault ⊕ Fault) (CacheReply α × CacheMem α))
    (y : Except Fault (Cache × CacheReply Value)) (out : α → Option (HeapBlock α)) : Prop :=
  (∃ f, x = .error (.inr f) ∧ y = .error f) ∨
  ∃ r s' r' c' out' items' entry', x = .ok (r, s') ∧ y = .ok (c', r') ∧ Hands out r r' out' ∧
    Represents s' out' items' entry' c'

omit [DecidableEq α] in
@[simp] theorem durationIsOutdate_times (e : OwnedItem α) :
    durationIsOutdate e.block.times now = durationIsOutdate e.item now := rfl

namespace Represents

omit [DecidableEq α] in
theorem remain (h : Represents s out items entry c) (hs' : s'.bare = s.bare) (e : OwnedItem α) :
    s'.bare.remain e.block.times now = c.remain e.item now := by
  rw [hs', h.bare]
  rfl

omit [DecidableEq α] in
theorem key_inj {b : α} (h : Represents s out items entry c) (ha : a ∈ items) (hb : b ∈ items)
    (hkey : (entry a).key = (entry b).key) : a = b :=
  h.tree.inj ha hb (congrArg CString.codes hkey)

/-- **`cache_get`** -/
theorem get (h : Represents s out items entry c) (hfuel : levels items.length ≤ fuel)
    (al : Allocator α) : ∃ alloc, Agrees ((respond fuel now (.get key al)).run s)
      (c.respond now (.get key alloc)) out := by
  obtain ⟨r, hfind, hsome, hnone⟩ := h.find hfuel key
  cases r with
  | none =>
    have hc := h.shows.eq_none (hnone rfl)
    refine ⟨true, .inr ⟨_, s, _, c, out, items, entry, ?_, ?_, .failed ENOENT, h⟩⟩
    · simp [respond, cacheGet, hfind]
    · simp [Cache.respond, Cache.cacheGet, hc, Except.map]
  | some a =>
    obtain ⟨ha, hkey⟩ := hsome a rfl
    have hc := h.shows.eq_some ha hkey
    have hitem := h.run_getItem ha
    cases hout : durationIsOutdate (entry a).item now with
    | true =>
      refine ⟨true, .inr ⟨_, s, _, c, out, items, entry, ?_, ?_, .failed ENOENT, h⟩⟩
      · simp [respond, cacheGet, hfind, hitem, hout]
      · simp [Cache.respond, Cache.cacheGet, hc, hout, Except.map]
    | false =>
      cases hv : (entry a).value with
      | none =>
        -- the copy of a value failed before
        have hval : (entry a).item.value = none := by simp [OwnedItem.item, hv]
        refine ⟨true, .inl ⟨.nullDeref, ?_, ?_⟩⟩
        · have hnull : (getValue (entry a).block.value).run s = .error (.inr .nullDeref) := by
            simp [OwnedItem.block, hv, getValue, StateT.run]
          simp [respond, cacheGet, hfind, hitem, hout, hnull]
        · simp [Cache.respond, Cache.cacheGet, hc, hout, hval, Except.map]
      | some v =>
        have hval : (entry a).item.value = some v.2 := by simp [OwnedItem.item, hv]
        have hread : (getValue (entry a).block.value).run s = .ok (v.2, s) := by
          have hblock : s.blocks v.1 = some (.value v.2) :=
            h.heap.get (mem_ownedBlocks ha (by simp [OwnedItem.blocks, hv]))
          simp [OwnedItem.block, hv, getValue, StateT.run, hblock]
        rcases malloc_spec h.heap al (.value v.2) with ⟨hrun, -⟩ | ⟨p, s', hrun, -, hleaves⟩
        · refine ⟨false, .inr ⟨_, s, _, c, out, items, entry, ?_, ?_, .failed ENOMEM, h⟩⟩
          · simp [respond, cacheGet, hfind, hitem, hout, hread, valueDup, hrun]
          · simp [Cache.respond, Cache.cacheGet, hc, hout, hval, Except.map]
        · refine ⟨true, .inr ⟨_, s', _, c, _, items, entry, ?_, ?_,
            .copied p v.2 (c.remain (entry a).item now) ?_, ?_⟩⟩
          · simp [respond, cacheGet, hfind, hitem, hout, hread, valueDup, hrun,
              h.remain hleaves.bare]
          · simp [Cache.respond, Cache.cacheGet, hc, hout, hval, Except.map]
          · exact hleaves.heap.apart _ List.mem_cons_self
          · refine ⟨⟨?_, hleaves.heap.give⟩, h.shows, hleaves.bare.trans h.bare⟩
            rw [hleaves.links.eq]
            exact h.tree

/-- **`cache_del`** -/
theorem del (h : Represents s out items entry c) (hfuel : levels items.length ≤ fuel) :
    Agrees ((respond fuel now (.del key)).run s) (c.respond now (.del key)) out := by
  obtain ⟨r, hfind, hsome, hnone⟩ := h.find hfuel key
  cases r with
  | none =>
    have hc := h.shows.eq_none (hnone rfl)
    refine .inr ⟨_, s, _, c, out, items, entry, ?_, ?_, .status (.error ENOENT), h⟩
    · simp [respond, cacheDel, hfind]
    · simp [Cache.respond, Cache.cacheDel, hc]
  | some a =>
    obtain ⟨ha, hkey⟩ := hsome a rfl
    have hc := h.shows.eq_some ha hkey
    obtain ⟨s₁, s', hremove, hdestroy, howns, hbare⟩ := h.remove ha hfuel
    refine .inr ⟨_, s', _, c.put key none, out, items.erase a, entry, ?_, ?_, .status (.ok ()), ?_⟩
    · simp [respond, cacheDel, hfind, hremove, hdestroy]
    · simp [Cache.respond, Cache.cacheDel, hc]
    · refine ⟨howns, ?_, hbare.trans h.bare⟩
      exact h.shows.erase h.tree.nodup hkey fun b hb hne hbk =>
        hne (h.key_inj hb ha (hbk.trans hkey.symm))

/-- The item at `a` is new, or another one. -/
theorem put {items' : List α} {e : OwnedItem α} (h : Represents s out items entry c)
    (howns : Owns s' out items' (Function.update entry a e)) (hbare : s'.bare = s.bare)
    (ha : a ∈ items') (hkey : e.key = key) (hmem : ∀ b, b ≠ a → (b ∈ items' ↔ b ∈ items))
    (hother : ∀ b ∈ items, b ≠ a → (entry b).key ≠ key) (hold : a ∈ items → (entry a).key = key) :
    Represents s' out items' (Function.update entry a e) (c.put key (some e.item)) := by
  have hself : Function.update entry a e a = e := Function.update_self ..
  have hput : Shows items' (Function.update entry a e)
      (Function.update c.tree key (some (Function.update entry a e a).item)) :=
    h.shows.put ha (by rw [hself, hkey]) hmem (fun b hb => Function.update_of_ne hb ..) hother hold
  rw [hself] at hput
  exact ⟨howns, hput, hbare.trans h.bare⟩

/-- **`cache_set`** -/
theorem set (h : Represents s out items entry c) (hfuel : levels items.length ≤ fuel)
    (value : Value) (duration : Timestamp) (env : SetAnswers α) :
    ∃ a, Agrees ((respond fuel now (.set key value duration env)).run s)
      (c.respond now (.set key value duration a)) out := by
  have hclamp : s.bare.clampDuration duration = c.clampDuration duration := by
    rw [h.bare]
    rfl
  rcases itemCreate_spec h.heap key value (s.bare.clampDuration duration) now env with
    ⟨hrun, -⟩ | ⟨s₁, touched, hrun, hleaves, hfree⟩ | ⟨a, e, s₁, hrun, hkey, hitem, hfree, halloc, hleaves⟩
  · refine ⟨⟨true, false, true, true⟩, .inl ⟨.uninitFree, ?_, ?_⟩⟩
    · simp [respond, cacheSet, hrun]
    · simp [Cache.respond, Cache.cacheSet, Propd.itemCreate, Except.map]
  · refine ⟨⟨false, true, true, true⟩,
      .inr ⟨_, s₁, _, c, out, items, entry, ?_, ?_, .status (.error ENOMEM), ?_⟩⟩
    · simp [respond, cacheSet, hrun]
    · simp [Cache.respond, Cache.cacheSet, Propd.itemCreate, Except.map]
    · refine ⟨h.congr hleaves fun b hb hbt => ?_, h.shows, hleaves.bare.trans h.bare⟩
      exact h.notMem (hfree b hbt) hb
  · rcases h.insert hleaves hfree halloc hfuel with
      ⟨s₂, items', hins, howns, hperm, hne, hbare⟩ | ⟨b, hb, hbkey, hins⟩
    · -- a key without an item
      rw [hkey] at hne
      have hc := h.shows.eq_none hne
      have hmem := h.notMem hfree
      refine ⟨⟨true, true, true, true⟩, .inr ⟨_, s₂, _, c.put key (some e.item), out, items',
        Function.update entry a e, ?_, ?_, .status (.ok ()), ?_⟩⟩
      · simp [respond, cacheSet, hrun, hins]
      · simp [Cache.respond, Cache.cacheSet, Propd.itemCreate, hc, Except.map, hitem, hclamp]
      · refine h.put howns hbare (hperm.mem_iff.mpr List.mem_cons_self) hkey (fun b hb => ?_)
          (fun b hb _ => hne b hb) fun ha => absurd ha hmem
        rw [hperm.mem_iff, List.mem_cons, or_iff_right hb]
    · -- the new item was made for nothing: it is destroyed, and the old one gets the value
      have hc := h.shows.eq_some hb (hbkey.trans hkey)
      obtain ⟨s₂, hdestroy, h₂⟩ := itemDestroy_spec hleaves.heap
      have howns : Owns s₂ out items entry := by
        refine h.congr (hleaves.trans h₂) fun b hb hbt => ?_
        have hnodup := hleaves.heap.nodup
        rw [List.map_append, List.nodup_append'] at hnodup
        refine hnodup.2.2 (?_ : b ∈ (e.blocks a).map Prod.fst) (mem_addr hb)
        simpa [OwnedItem.blocks] using hbt
      have hother : ∀ b' ∈ items, b' ≠ b → (entry b').key ≠ key := fun b' hb' hne hkey' =>
        hne (h.key_inj hb' hb (hkey'.trans (hbkey.trans hkey).symm))
      have hbare : s₂.bare = s.bare := h₂.bare.trans hleaves.bare
      have hkeyb := hbkey.trans hkey
      rcases howns.replaceValue hb value (s.bare.clampDuration duration) now env.replacement with
        ⟨s₃, hrepl, h₃, hbare₃⟩ | ⟨p, s₃, hrepl, h₃, hbare₃⟩
      · have hrep := h.put h₃ (hbare₃.trans hbare) hb hkeyb (fun _ _ => Iff.rfl) hother fun _ => hkeyb
        refine ⟨⟨true, true, true, false⟩, .inr ⟨_, s₃, _, _, out, items, _, ?_, ?_,
          .status (.error ENOMEM), hrep⟩⟩
        · simp [respond, cacheSet, hrun, hins, hdestroy, hrepl]
        · simp [Cache.respond, Cache.cacheSet, Propd.itemCreate, hc, Except.map]
          rfl
      · have hrep := h.put h₃ (hbare₃.trans hbare) hb hkeyb (fun _ _ => Iff.rfl) hother fun _ => hkeyb
        refine ⟨⟨true, true, true, true⟩, .inr ⟨_, s₃, _, _, out, items, _, ?_, ?_,
          .status (.ok ()), hrep⟩⟩
        · simp [respond, cacheSet, hrun, hins, hdestroy, hrepl]
        · simp [Cache.respond, Cache.cacheSet, Propd.itemCreate, hc, Except.map, hclamp]
          rfl

/-- **A sweep** -/
theorem sweep (h : Represents s out items entry c)
    (hfuel : (MemCall.sweep : MemCall α).turns items.length ≤ fuel) :
    Agrees ((respond fuel now .sweep).run s) (c.respond now .sweep) out := by
  obtain ⟨hturns, hlevels⟩ := max_le_iff.mp hfuel
  obtain ⟨s', hrun, howns, hbare⟩ : ∃ s', (cleanerSweep fuel now).run s = .ok ((), s') ∧
      Owns s' out (items.filter fun a => !durationIsOutdate (entry a).item now) entry ∧
      s'.bare = s.bare := by
    refine h.foreach hlevels hturns fun st items' a howns ha hfuel' => ?_
    have hitem := howns.run_getItem ha
    cases hout : durationIsOutdate (entry a).item now with
    | true =>
      obtain ⟨s₁, st', hremove, hdestroy, howns', hbare⟩ := howns.remove ha hfuel'
      refine ⟨st', ?_, howns', hbare⟩
      simp [hitem, hout, hremove, hdestroy]
    | false =>
      refine ⟨st, ?_, howns, rfl⟩
      simp [hitem, hout]
  refine .inr ⟨_, s', _, c.cleanerSweep now, out, _, entry, ?_, rfl, .swept, howns, ?_,
    hbare.trans h.bare⟩
  · simp [respond, hrun]
  · exact h.shows.filter _ _ fun a _ => rfl

end Represents

end CacheMem

end

end Propd
