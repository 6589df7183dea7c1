import Propd.Chain.Model
import Propd.Core.Prefix
import Propd.Wire.Key
import Mathlib.Algebra.Order.Ring.Int
import Mathlib.Tactic.Ring

/-!
# Staleness along a chain

Every value a node of a chain returns was held by the backend not long before, as long as
the keys of the requests are kept on their way down: `chain_staleness`. With a key that is
not, a node returns what the backend never held.

The invariant is about the items of the caches. An item of node `i` outlives the moment its
value was the backend's by at most `bound i`, whatever path of reads and writes brought it
there.

The step that carries it is `chainGet_spec`: what comes up from below node `i` is
either the backend's value of this instant, with duration `0` ("use your own
default"), or what is left of an item further down, raised to the minimum.
-/

namespace Propd

open Lib

namespace ChainConfig

variable (cfg : ChainConfig)

theorem default_le_max (i : ℕ) : (cfg.default i).toInt ≤ cfg.maxDefault i := by
  cases i with
  | zero => exact le_refl _
  | succ i => exact le_max_right _ _

theorem default_le_bound (i : ℕ) : (cfg.default i).toInt ≤ cfg.bound i := by
  have hmax := cfg.default_le_max i
  have hmin : 0 ≤ (i : ℤ) * cfg.min.toInt := mul_nonneg (Int.natCast_nonneg i) cfg.min_nonneg
  unfold bound
  omega

theorem bound_nonneg (i : ℕ) : 0 ≤ cfg.bound i :=
  (cfg.default_nonneg i).trans (cfg.default_le_bound i)

/-- One more hop is worth at least one more minimum duration. -/
theorem bound_succ (i : ℕ) : cfg.bound i + cfg.min.toInt ≤ cfg.bound (i + 1) := by
  have hmax : cfg.maxDefault i ≤ cfg.maxDefault (i + 1) := le_max_left _ _
  have hhop : ((i + 1 : ℕ) : ℤ) * cfg.min.toInt = i * cfg.min.toInt + cfg.min.toInt := by
    push_cast
    ring
  unfold bound
  omega

end ChainConfig

variable {cfg : ChainConfig} {past : List (Timestamp × Backend)} {now : Timestamp}

/-- The backend held `v` for `key` at the instant `τ`. -/
def Held (past : List (Timestamp × Backend)) (key : CString) (v : Value) (τ : Timestamp) : Prop :=
  ∃ b, (τ, b) ∈ past ∧ b key = some v

theorem Held.mono {past past' : List (Timestamp × Backend)} {key : CString} {v : Value}
    {τ : Timestamp} (h : Held past key v τ) (hsub : past ⊆ past') : Held past' key v τ := by
  obtain ⟨b, hb, hv⟩ := h
  exact ⟨b, hsub hb, hv⟩

/-- An item of node `i` holds a value the backend held at some `τ`, and ends at most
`bound i` after that. -/
structure FreshItem (cfg : ChainConfig) (past : List (Timestamp × Backend)) (now : Timestamp)
    (i : ℕ) (key : CString) (v : Value) (item : CacheItem) : Prop where
  finite : item.duration ≠ DURATION_INF
  modified_nonneg : 0 ≤ item.modified.toInt
  modified_le : item.modified.toInt ≤ now.toInt
  held : ∃ τ, Held past key v τ ∧
    item.modified.toInt + item.duration.toInt ≤ τ.toInt + cfg.bound i

/-- Node `i` has a cache with the durations of the chain, and its items are fresh. -/
def FreshNode (cfg : ChainConfig) (past : List (Timestamp × Backend)) (now : Timestamp)
    (i : ℕ) (io : IoCtx) : Prop :=
  ∃ c, io.cache = some c ∧ c.defaultDuration = cfg.default i ∧ c.minDuration = cfg.min ∧
    ∀ key item v, c.tree key = some item → item.value = some v →
      FreshItem cfg past now i key v item

/-- All nodes are fresh. -/
def Fresh (cfg : ChainConfig) (past : List (Timestamp × Backend)) (now : Timestamp)
    (s : Chain) : Prop :=
  ∀ i, FreshNode cfg past now i (s.nodes i)

/-- Freshness stays while the clock and the record grow. -/
theorem Fresh.mono {past' : List (Timestamp × Backend)} {now' : Timestamp} {s : Chain}
    (h : Fresh cfg past now s) (hsub : past ⊆ past') (hnow : now.toInt ≤ now'.toInt) :
    Fresh cfg past' now' s := by
  intro i
  obtain ⟨c, hc, hdef, hmin, hitems⟩ := h i
  refine ⟨c, hc, hdef, hmin, fun key item v hitem hv => ?_⟩
  obtain ⟨hfin, hnonneg, hle, τ, hheld, hend⟩ := hitems key item v hitem hv
  exact ⟨hfin, hnonneg, hle.trans hnow, τ, hheld.mono hsub, hend⟩

theorem Fresh.setNode {s : Chain} {i : ℕ} {io : IoCtx} (h : Fresh cfg past now s)
    (hio : FreshNode cfg past now i io) : Fresh cfg past now (s.setNode i io) := by
  intro l
  by_cases hl : l = i
  · subst hl
    simpa using hio
  · simpa [hl] using h l

/-- A node that puts an item into its cache is fresh if this item is. -/
theorem FreshNode.put {i : ℕ} {io io' : IoCtx} {c : Cache} {key : CString}
    {item : Option CacheItem} (h : FreshNode cfg past now i io) (hc : io.cache = some c)
    (hput : io'.cache = some (c.put key item))
    (hitem : ∀ x v, item = some x → x.value = some v → FreshItem cfg past now i key v x) :
    FreshNode cfg past now i io' := by
  obtain ⟨c', hc', hdef, hmin, hitems⟩ := h
  cases hc.symm.trans hc'
  refine ⟨_, hput, hdef, hmin, fun key' x v hx hv => ?_⟩
  rcases Cache.put_tree_eq_some hx with ⟨rfl, hnew⟩ | ⟨-, hold⟩
  · exact hitem x v hnew hv
  · exact hitems key' x v hold hv

/-- A node whose backend part changed its cache is fresh if what it stored is. -/
theorem FreshNode.fill {i : ℕ} {io io' : IoCtx} {c : Cache} {key : CString} {v : Value}
    {duration : Timestamp} {a : SetAlloc} (h : FreshNode cfg past now i io)
    (hc : io.cache = some c) (hfill : cacheFill io.cache key v duration now a = .ok io'.cache)
    (hitem : FreshItem cfg past now i key v (c.stored v duration now)) :
    FreshNode cfg past now i io' := by
  rw [hc] at hfill
  rcases cacheFill_cases hfill with heq | heq | ⟨old, hold, heq⟩
  · -- nothing was written
    obtain ⟨c', hc', hrest⟩ := h
    cases hc.symm.trans hc'
    exact ⟨c, heq, hrest⟩
  · refine h.put hc heq fun x v' hx hv' => ?_
    cases hx
    cases hv'
    exact hitem
  · -- an item without a value
    refine h.put hc heq fun x v' hx hv' => ?_
    cases hx
    cases hv'

/-! ## The call of a storage -/

theorem nodeDone_ok {α : Type} {i : ℕ} {x : Except Fault (IoCtx × Chain × α)} {s' : Chain} {r : α}
    (h : nodeDone i x = .ok (s', r)) : ∃ io s₁, x = .ok (io, s₁, r) ∧ s' = s₁.setNode i io := by
  cases x with
  | error e => cases h
  | ok res =>
    obtain ⟨io, s₁, r₁⟩ := res
    cases h
    exact ⟨io, s₁, rfl, rfl⟩

theorem KeyKept.le {i j : ℕ} {r : WireRequest} (h : KeyKept j r) (hij : i ≤ j) : KeyKept i r :=
  h.imp_left fun hj => by omega

/-- A request whose key is kept is served with its key. -/
theorem servedBelow_ok {α : Type} {i : ℕ} {r : WireRequest} {serve : CString → Except Fault α}
    {x : α} (hkey : KeyKept i r) (h : servedBelow i r serve = .ok x) : serve r.key = .ok x := by
  cases i with
  | zero => exact h
  | succ i =>
    have hintact : r.KeyIntact := hkey.resolve_left (Nat.succ_ne_zero i)
    rw [servedBelow, workerServes, WireRequest.asRead_iff.mpr hintact] at h
    dsimp only at h
    split at h
    · cases h
    · exact h

/-- A call that is served is the request as the worker reads it. -/
theorem storageCall_served {σ α : Type} {i : ℕ} {r r' : WireRequest} {w : σ}
    {serve : CString → Except Fault (σ × Except Errno α)} (hread : r.asRead = some r')
    (hdata : r'.req.setsEmpty = false) : storageCall .served (i + 1) r w serve = serve r'.key := by
  show workerServes r serve = _
  rw [workerServes, hread]
  simp [hdata]

/-- The call of a storage fails and does nothing, or serves the request; an error is all that can
come back instead of the reply. -/
theorem storageCall_ok {σ α : Type} {hop : Hop} {i : ℕ} {r : WireRequest} {w w' : σ}
    {serve : CString → Except Fault (σ × Except Errno α)} {ret : Except Errno α}
    (hkey : KeyKept i r) (h : storageCall hop i r w serve = .ok (w', ret)) :
    (w' = w ∧ ∃ e, ret = .error e) ∨
      ∃ ret', serve r.key = .ok (w', ret') ∧ (ret = ret' ∨ ∃ e, ret = .error e) := by
  cases hop with
  | unserved e =>
    cases h
    exact .inl ⟨rfl, e, rfl⟩
  | served => exact .inr ⟨ret, servedBelow_ok hkey h, .inl rfl⟩
  | lost e =>
    obtain ⟨⟨w₁, ret'⟩, hserved, hpair⟩ := exceptMap_ok h
    cases hpair
    exact .inr ⟨ret', servedBelow_ok hkey hserved, .inr ⟨e, rfl⟩⟩

/-! ## Reads -/

/-- What comes up from below node `i` with duration `d`: a value of this instant with
duration `0`, or one whose remaining time stays within `bound i`. -/
def Stamp (cfg : ChainConfig) (now : Timestamp) (i : ℕ) (τ d : Timestamp) : Prop :=
  (d = 0 ∧ τ = now) ∨
    (d ≠ 0 ∧ cfg.min.toInt ≤ d.toInt ∧ d ≠ DURATION_INF ∧
      now.toInt + d.toInt ≤ τ.toInt + cfg.bound i)

/-- A stamped value is at most `bound i` old. -/
theorem Stamp.age {i : ℕ} {τ d : Timestamp} (h : Stamp cfg now i τ d) :
    now.toInt ≤ τ.toInt + cfg.bound i := by
  have hbound := cfg.bound_nonneg i
  rcases h with ⟨-, rfl⟩ | ⟨-, hmin, -, hend⟩
  · omega
  · have := cfg.min_nonneg
    omega

theorem Stamp.succ {i : ℕ} {τ d : Timestamp} (h : Stamp cfg now i τ d) :
    Stamp cfg now (i + 1) τ d := by
  have hbound := cfg.bound_succ i
  have hmin := cfg.min_nonneg
  rcases h with h | ⟨hd, hm, hfin, hend⟩
  · exact .inl h
  · exact .inr ⟨hd, hm, hfin, by omega⟩

/-- A stamped value, cached by node `i`, is a fresh item. -/
theorem Stamp.fresh {i : ℕ} {c : Cache} {key : CString} {v : Value} {τ d : Timestamp}
    (h : Stamp cfg now i τ d) (hnow : 0 ≤ now.toInt) (hheld : Held past key v τ)
    (hdef : c.defaultDuration = cfg.default i) (hmin : c.minDuration = cfg.min) :
    FreshItem cfg past now i key v (c.stored v d now) := by
  rcases h with ⟨rfl, rfl⟩ | ⟨hd, hm, hfin, hend⟩
  · have hclamp : c.clampDuration 0 = cfg.default i := by simp [Cache.clampDuration, hdef]
    refine ⟨?_, hnow, le_refl _, τ, hheld, ?_⟩
    · simpa only [Cache.stored, hclamp] using cfg.default_ne_inf i
    · simp only [Cache.stored, hclamp]
      have := cfg.default_le_bound i
      omega
  · have hclamp : c.clampDuration d = d := by
      have : ¬ d < c.minDuration := by rw [hmin, Int64.lt_iff_toInt_lt]; omega
      simp [Cache.clampDuration, hd, this]
    exact ⟨by simpa only [Cache.stored, hclamp] using hfin, hnow, le_refl _, τ, hheld,
      by simpa only [Cache.stored, hclamp] using hend⟩

/-- A hit of node `i`: the value is younger than `bound i`, and what is left of the
item is stamped for the node above. -/
theorem FreshItem.hit {i : ℕ} {c : Cache} {key : CString} {v : Value} {item : CacheItem}
    (h : FreshItem cfg past now i key v item) (hmin : c.minDuration = cfg.min)
    (hsum : item.modified.toInt + item.duration.toInt < 2 ^ 63)
    (hlive : durationIsOutdate item now = false) :
    ∃ τ, Held past key v τ ∧ now.toInt ≤ τ.toInt + cfg.bound i ∧
      Stamp cfg now (i + 1) τ (c.remain item now) := by
  obtain ⟨hfin, hnonneg, hle, τ, hheld, hend⟩ := h
  have hdur := Int64.le_toInt item.duration
  have halive := (Cache.durationIsOutdate_eq_false hfin (by omega) hsum).mp hlive
  have hremain := Cache.remain_toInt (c := c) hfin hle halive
  rw [hmin] at hremain
  have hbound := cfg.bound_succ i
  have hminnn := cfg.min_nonneg
  refine ⟨τ, hheld, by omega, .inr ⟨?_, by omega, ?_, by omega⟩⟩
  · intro h0
    rw [h0] at hremain
    have : (0 : Int64).toInt = 0 := rfl
    omega
  · -- the remaining time is at most the duration or the minimum, both finite
    intro hinf
    rw [hinf] at hremain
    have hdur : item.duration.toInt ≠ DURATION_INF.toInt := fun he => hfin (Int64.toInt_inj.mp he)
    have hm : cfg.min.toInt ≠ DURATION_INF.toInt := fun he => cfg.min_ne_inf (Int64.toInt_inj.mp he)
    have hmax : DURATION_INF.toInt = 2 ^ 63 - 1 := rfl
    have hlt := Int64.toInt_lt item.duration
    omega

/-- What a get of `key` that reaches down from node `i` does: it leaves the backend and the nodes
above alone and the caches fresh; its value was the backend's at some `τ`, is stamped for the
node above, and is at most `bound j` old when node `j` returns it. -/
structure ReadSpec (cfg : ChainConfig) (past : List (Timestamp × Backend)) (now : Timestamp)
    (key : CString) (i : ℕ) (s s' : Chain) (r : GetResult) : Prop where
  backend : s'.backend = s.backend
  above : ∀ l, i ≤ l → s'.nodes l = s.nodes l
  fresh : Fresh cfg past now s'
  value : ∀ v d, r = .ok (v, d) → ∃ τ, Held past key v τ ∧ Stamp cfg now i τ d ∧
    ∀ j, i = j + 1 → now.toInt ≤ τ.toInt + cfg.bound j

/-- A get that fails and changes nothing. -/
theorem ReadSpec.failed {key : CString} {i : ℕ} {s : Chain} {r : GetResult}
    (hfresh : Fresh cfg past now s) (hr : ∃ e, r = .error e) :
    ReadSpec cfg past now key i s s r where
  backend := rfl
  above _ _ := rfl
  fresh := hfresh
  value v d hv := by
    obtain ⟨e, rfl⟩ := hr
    cases hv

/-- The call of a storage serves what is below it, or fails and changes nothing. -/
theorem ReadSpec.call {key : CString} {i : ℕ} {s s' : Chain} {r : GetResult} {hop : Hop}
    {serve : CString → Except Fault (Chain × GetResult)} (hkey : KeyKept i ⟨.get, key⟩)
    (hfresh : Fresh cfg past now s)
    (hserve : ∀ {s' r}, serve key = .ok (s', r) → ReadSpec cfg past now key i s s' r)
    (h : storageCall hop i ⟨.get, key⟩ s serve = .ok (s', r)) :
    ReadSpec cfg past now key i s s' r := by
  rcases storageCall_ok hkey h with ⟨rfl, hr⟩ | ⟨r', hserved, rfl | ⟨e, rfl⟩⟩
  · exact .failed hfresh hr
  · exact hserve hserved
  · obtain ⟨hback, habove, hfresh', -⟩ := hserve hserved
    exact ⟨hback, habove, hfresh', nofun⟩

/-- **Reads along the chain**. -/
theorem chainGet_spec {key : CString} {env : ChainEnv} (i : ℕ) {s s' : Chain} {r : GetResult}
    (hkey : ∀ l < i, KeyKept l ⟨.get, key⟩) (hnow : 0 ≤ now.toInt) (hfresh : Fresh cfg past now s)
    (hpast : (now, s.backend) ∈ past) (hov : NoOverflow s)
    (h : chainGet env now i key s = .ok (s', r)) : ReadSpec cfg past now key i s s' r := by
  induction i generalizing s' r with
  | zero =>
    cases h
    refine ⟨rfl, fun _ _ => rfl, hfresh, fun v d hr => ?_⟩
    -- the backend itself: its value now, with duration 0
    unfold backendGet at hr
    split at hr
    · rename_i v' hv
      cases hr
      exact ⟨now, ⟨s.backend, hpast, hv⟩, .inl ⟨rfl, rfl⟩, fun j hj => by omega⟩
    · cases hr
  | succ i ih =>
    unfold chainGet at h
    obtain ⟨io, s₁, hio, rfl⟩ := nodeDone_ok h
    obtain ⟨c, hc, hdef, hmin, hitems⟩ := hfresh i
    rcases ioGet_cases hio with ⟨c', res, hc', hget, rfl, rfl, rfl, -⟩ | hmiss
    · -- node `i` answers from its cache
      rw [hc] at hc'
      cases hc'
      rw [Chain.setNode_eq_self]
      refine ⟨rfl, fun _ _ => rfl, hfresh, fun v d hr => ?_⟩
      rcases Cache.cacheGet_cases hget with ⟨rfl, -⟩ | ⟨rfl, -⟩ | ⟨item, v', hitem, hlive, hv, rfl⟩
      · cases hr
      · cases hr
      · cases hr
        have hitem' := hitems key item v hitem hv
        obtain ⟨τ, hheld, hage, hstamp⟩ :=
          hitem'.hit hmin (hov i c key item hc hitem hitem'.finite) hlive
        exact ⟨τ, hheld, hstamp, fun j hj => by cases hj; exact hage⟩
    · rcases ioGetMiss_ok hmiss with ⟨rfl, rfl, hr⟩ | ⟨item, -, -, hcall, hfill⟩
      · -- no storage is asked
        rw [Chain.setNode_eq_self]
        exact .failed hfresh hr
      · -- what is below answers, and node `i` caches what it says
        obtain ⟨hback, hnodes, hfresh₁, hval⟩ := ReadSpec.call (hkey i (Nat.lt_succ_self i)) hfresh
          (ih fun l hl => hkey l (Nat.lt_succ_of_lt hl)) hcall
        refine ⟨hback, fun l hl => ?_, ?_, fun v d hr => ?_⟩
        · rw [Chain.setNode_nodes_of_ne _ _ (by omega), hnodes l (by omega)]
        · have hnode := hfresh₁ i
          rw [hnodes i (le_refl i)] at hnode
          refine hfresh₁.setNode ?_
          rcases hfill with ⟨hsame, -⟩ | ⟨⟨v, d⟩, hr, hfill⟩
          · obtain ⟨c₁, hc₁, hrest⟩ := hnode
            exact ⟨c₁, hsame.trans hc₁, hrest⟩
          · obtain ⟨τ, hheld, hstamp, -⟩ := hval v d hr
            exact hnode.fill hc hfill (hstamp.fresh hnow hheld hdef hmin)
        · obtain ⟨τ, hheld, hstamp, -⟩ := hval v d hr
          exact ⟨τ, hheld, hstamp.succ, fun j hj => by cases hj; exact hstamp.age⟩

/-! ## Writes -/

/-- What a write of `new` for `key` that reaches down from node `i` does: if it succeeds the
backend holds `new`. Where it fails it may have been done below all the same. The nodes above
stay as they are, and the caches fresh. -/
structure WriteSpec (cfg : ChainConfig) (now : Timestamp) (key : CString) (new : Option Value)
    (i : ℕ) (s s' : Chain) (r : SetResult) : Prop where
  above : ∀ l, i ≤ l → s'.nodes l = s.nodes l
  done : r = .ok () → s'.backend key = new
  fresh : ∀ past, Fresh cfg past now s → (now, s'.backend) ∈ past → Fresh cfg past now s'

/-- A write that fails and changes nothing. -/
theorem WriteSpec.failed {key : CString} {new : Option Value} {i : ℕ} {s : Chain} {r : SetResult}
    (hr : ∃ e, r = .error e) : WriteSpec cfg now key new i s s r where
  above _ _ := rfl
  done hok := by
    obtain ⟨e, rfl⟩ := hr
    cases hok
  fresh _ h _ := h

theorem backendPut_spec (key : CString) (new : Option Value) (s : Chain) :
    WriteSpec cfg now key new 0 s (backendPut key new s) (.ok ()) where
  above _ _ := rfl
  done _ := Function.update_self ..
  fresh _ h _ := h

/-- The call of a storage serves what is below it, or fails and changes nothing. -/
theorem WriteSpec.call {r : WireRequest} {new : Option Value} {i : ℕ} {s s' : Chain}
    {ret : SetResult} {hop : Hop} {serve : CString → Except Fault (Chain × SetResult)}
    (hkey : KeyKept i r)
    (hserve : ∀ {s' ret}, serve r.key = .ok (s', ret) → WriteSpec cfg now r.key new i s s' ret)
    (h : storageCall hop i r s serve = .ok (s', ret)) : WriteSpec cfg now r.key new i s s' ret := by
  rcases storageCall_ok hkey h with ⟨rfl, hr⟩ | ⟨ret', hserved, rfl | ⟨e, rfl⟩⟩
  · exact .failed hr
  · exact hserve hserved
  · obtain ⟨habove, -, hfresh⟩ := hserve hserved
    exact ⟨habove, nofun, hfresh⟩

/-- One node up: the call of its storage is followed by `fill` on the cache of node `i`. -/
theorem WriteSpec.succ {r : WireRequest} {new : Option Value} {i : ℕ} {s s₁ : Chain} {io : IoCtx}
    {ret : SetResult} {hop : Hop} {serve : CString → Except Fault (Chain × SetResult)}
    {fill : Unit → Except Fault (Option Cache)} (hkey : KeyKept i r)
    (hcalls : CallsStorage (s.nodes i) io r.key s s₁ ret
      (fun _ => storageCall hop i r s serve) fill)
    (hserve : ∀ {s' ret}, serve r.key = .ok (s', ret) → WriteSpec cfg now r.key new i s s' ret)
    (hfill : ∀ past, fill () = .ok io.cache → FreshNode cfg past now i (s.nodes i) →
      (∀ v, new = some v → Held past r.key v now) → FreshNode cfg past now i io) :
    WriteSpec cfg now r.key new (i + 1) s (s₁.setNode i io) ret := by
  rcases hcalls with ⟨rfl, rfl, hr⟩ | ⟨item, -, hroute, hcall, hres⟩
  · -- the storage is not asked: nothing changes
    rw [Chain.setNode_eq_self]
    exact .failed hr
  · obtain ⟨habove, hdone, hfresh⟩ := WriteSpec.call hkey hserve hcall
    have hnode : s₁.nodes i = s.nodes i := habove i (le_refl i)
    refine ⟨fun l hl => ?_, hdone, fun past hf hp => ?_⟩
    · rw [Chain.setNode_nodes_of_ne _ _ (by omega), habove l (by omega)]
    · have hf₁ : Fresh cfg past now s₁ := hfresh past hf hp
      refine hf₁.setNode ?_
      rcases hres with ⟨hcache, -⟩ | ⟨_, hret, hx⟩
      · rw [IoCtx.ext hcache hroute, ← hnode]
        exact hf₁ i
      · refine hfill past hx (hf i) fun v hv => ⟨s₁.backend, hp, ?_⟩
        rw [hdone hret, hv]

theorem chainSet_spec {key : CString} {env : ChainEnv} {v : Value} (hnow : 0 ≤ now.toInt) (i : ℕ)
    {s s' : Chain} {r : SetResult} (hkey : ∀ l < i, KeyKept l ⟨.set v, key⟩)
    (h : chainSet env now v i key s = .ok (s', r)) : WriteSpec cfg now key (some v) i s s' r := by
  induction i generalizing s' r with
  | zero =>
    cases h
    exact backendPut_spec key (some v) s
  | succ i ih =>
    unfold chainSet at h
    obtain ⟨io, s₁, hio, rfl⟩ := nodeDone_ok h
    refine WriteSpec.succ (r := ⟨.set v, key⟩) (hkey i (Nat.lt_succ_self i)) (ioSet_ok hio)
      (ih fun l hl => hkey l (Nat.lt_succ_of_lt hl)) fun past hx hnode hheld => ?_
    obtain ⟨c, hc, hdef, hmin, -⟩ := id hnode
    have hstamp : Stamp cfg now i now 0 := .inl ⟨rfl, rfl⟩
    exact hnode.fill hc hx (hstamp.fresh hnow (hheld v rfl) hdef hmin)

theorem chainDel_spec {key : CString} {env : ChainEnv} (i : ℕ) {s s' : Chain} {r : SetResult}
    (hkey : ∀ l < i, KeyKept l ⟨.del, key⟩) (h : chainDel env i key s = .ok (s', r)) :
    WriteSpec cfg now key none i s s' r := by
  induction i generalizing s' r with
  | zero =>
    cases h
    exact backendPut_spec key none s
  | succ i ih =>
    unfold chainDel at h
    obtain ⟨io, s₁, hio, rfl⟩ := nodeDone_ok h
    refine WriteSpec.succ (r := ⟨.del, key⟩) (hkey i (Nat.lt_succ_self i)) (ioDel_ok hio)
      (ih fun l hl => hkey l (Nat.lt_succ_of_lt hl)) fun past hx hnode _ => ?_
    obtain ⟨c, hc, -⟩ := id hnode
    rw [hc] at hx
    have hcache : io.cache = some (c.put key none) := by
      rw [← Cache.cacheDel_tree]
      exact (Except.ok.inj hx).symm
    exact hnode.put hc hcache nofun

/-! ## Whole runs -/

/-- A sweep removes items and changes none. -/
theorem Fresh.sweep {s : Chain} (h : Fresh cfg past now s) (j : ℕ) (t : Timestamp) :
    Fresh cfg past now (s.setNode j { s.nodes j with
      cache := (s.nodes j).cache.map fun c => c.cleanerSweep t }) := by
  refine h.setNode ?_
  obtain ⟨c, hc, hdef, hmin, hitems⟩ := h j
  refine ⟨c.cleanerSweep t, by rw [hc]; rfl, hdef, hmin, fun key item v hitem hv => ?_⟩
  exact hitems key item v (Cache.cleanerSweep_tree.mp hitem).1 hv

/-- **Step lemma**: an operation at the instant `now` keeps the caches fresh, once what
the backend holds before and after it is recorded. -/
theorem ChainOp.run_fresh {op : ChainOp} {s s' : Chain} (hkey : op.KeepsKey) (hnow : 0 ≤ now.toInt)
    (hfresh : Fresh cfg past now s) (hbefore : (now, s.backend) ∈ past)
    (hafter : (now, s'.backend) ∈ past) (hov : NoOverflow s)
    (h : op.run now s = .ok s') : Fresh cfg past now s' := by
  cases op with
  | request j r env =>
    have hkept : ∀ l < j + 1, KeyKept l r := fun l hl => KeyKept.le hkey (Nat.le_of_lt_succ hl)
    obtain ⟨req, key⟩ := r
    cases req with
    | get =>
      obtain ⟨⟨s₁, r⟩, hget, rfl⟩ := exceptMap_ok h
      exact (chainGet_spec _ hkept hnow hfresh hbefore hov hget).fresh
    | set v =>
      obtain ⟨⟨s₁, r⟩, hset, rfl⟩ := exceptMap_ok h
      exact (chainSet_spec hnow _ hkept hset).fresh past hfresh hafter
    | del =>
      obtain ⟨⟨s₁, r⟩, hdel, rfl⟩ := exceptMap_ok h
      exact (chainDel_spec _ hkept hdel).fresh past hfresh hafter
  | sweep j =>
    cases h
    exact hfresh.sweep j now

/-- The condition on a step: the keys are kept, and nothing overflows. -/
def chainSound (s : ChainState) (l : Timestamp × ChainOp) : Prop :=
  l.2.KeepsKey ∧ NoOverflow s.chain

/-- **Run lemma**: in every run whose keys are kept and that does not overflow the caches are
fresh. -/
theorem fresh_of_reachable {s : ChainState} (hs : (cfg.system.during chainSound).Reachable s) :
    0 ≤ s.clock.toInt ∧ Fresh cfg s.past s.clock s.chain := by
  refine LTS.invariant (I := fun s => 0 ≤ s.clock.toInt ∧ Fresh cfg s.past s.clock s.chain)
    ?_ ?_ hs
  · rintro s ⟨hclock, -, hstart⟩
    refine ⟨hclock, fun i => ?_⟩
    obtain ⟨c, hc, hdef, hmin, hempty⟩ := hstart i
    exact ⟨c, hc, hdef, hmin, fun key item v hitem _ => by simp [hempty key] at hitem⟩
  · rintro s ⟨t, op⟩ s' ⟨hclock, hfresh⟩ ⟨hstep, hkey, hov⟩
    have hstep : chainStep s (t, op) = some s' := hstep
    unfold chainStep at hstep
    split at hstep
    · rename_i hle
      rw [Int64.le_iff_toInt_le] at hle
      split at hstep
      · cases hstep
      · rename_i c hrun
        cases hstep
        refine ⟨hclock.trans hle, ChainOp.run_fresh hkey (hclock.trans hle)
          (hfresh.mono (by simp) hle) (by simp) (by simp) hov hrun⟩
    · cases hstep

/-- **Staleness does not accumulate**: after any run of gets, sets, dels and sweeps
anywhere in the chain whose keys the nodes below read as they are, every value node `j` returns
at time `now` was held by the backend at some `τ ≥ now - (max (D 0) … (D j) + j * m)`. -/
theorem chain_staleness (cfg : ChainConfig) {s : ChainState}
    (hs : (cfg.system.during chainSound).Reachable s)
    (j : ℕ) (key : CString) (now : Timestamp) (env : ChainEnv) (hkey : KeyKept j ⟨.get, key⟩)
    (hclock : s.clock ≤ now) (hov : NoOverflow s.chain) {s' : Chain} {v : Value} {d : Timestamp}
    (hget : chainGet env now (j + 1) key s.chain = .ok (s', .ok (v, d))) :
    ∃ τ, Held (s.past ++ [(now, s.chain.backend)]) key v τ ∧
      now.toInt - (cfg.maxDefault j + j * cfg.min.toInt) ≤ τ.toInt := by
  obtain ⟨hnonneg, hfresh⟩ := fresh_of_reachable hs
  rw [Int64.le_iff_toInt_le] at hclock
  have hfresh' : Fresh cfg (s.past ++ [(now, s.chain.backend)]) now s.chain :=
    hfresh.mono (by simp) hclock
  have hspec := chainGet_spec (j + 1) (fun l hl => hkey.le (Nat.le_of_lt_succ hl))
    (hnonneg.trans hclock) hfresh' (by simp) hov hget
  obtain ⟨τ, hheld, -, hage⟩ := hspec.value v d rfl
  have hage : now.toInt ≤ τ.toInt + cfg.bound j := hage j rfl
  unfold ChainConfig.bound at hage
  exact ⟨τ, hheld, by omega⟩

section Example

/-- One second by default, 100 ms at least. -/
def exampleConfig : ChainConfig where
  default _ := 1000000000
  min := 100000000
  default_nonneg _ := by decide
  default_ne_inf _ := by decide
  min_nonneg := by decide
  min_ne_inf := by decide

/-- Every node has an empty cache and one storage, for every key. -/
def exampleHop : IoCtx where
  cache := some ⟨fun _ => none, 500000000, 1000000000, 1000000000, 100000000⟩
  route := [⟨⟨exampleName, 0, true, true, true⟩, [exampleAny], 0, 0⟩]

def exampleChain : ChainState where
  chain := ⟨fun _ => exampleHop, fun key => if key = exampleKey then some exampleValue else none⟩
  clock := 0
  past := []

/-- The node has stored the value under the key at the instant `10`. -/
def exampleHopHolding (key : CString) : IoCtx :=
  { exampleHop with
    cache := exampleHop.cache.map fun c => c.put key (some ⟨some exampleValue, 10, 1000000000⟩) }

/-- Node `0` has read the key at the instant `10`. -/
def exampleChainRead : ChainState where
  chain := exampleChain.chain.setNode 0 (exampleHopHolding exampleKey)
  clock := 10
  past := [(10, exampleChain.chain.backend), (10, exampleChain.chain.backend)]

theorem exampleChain_noOverflow : NoOverflow exampleChain.chain := by
  intro i c key item hc hitem
  cases hc
  cases hitem

theorem NoOverflow.hold {s : Chain} (h : NoOverflow s) (i : ℕ) (key : CString) :
    NoOverflow (s.setNode i (exampleHopHolding key)) := by
  intro l c key' item hc hitem hfin
  by_cases hl : l = i
  · subst hl
    rw [Chain.setNode_nodes_self] at hc
    cases hc
    rcases Cache.put_tree_eq_some hitem with ⟨-, hnew⟩ | ⟨-, hold⟩
    · cases hnew
      decide
    · cases hold
  · rw [Chain.setNode_nodes_of_ne _ _ hl] at hc
    exact h l c key' item hc hitem hfin

/-- All memory is there, and every call of a storage is served. -/
def exampleEnv : ChainEnv := ⟨fun _ => .all, fun _ => .served⟩

/-- Node `0` reads at `10`; at `20` node `1` gets what is left of its item. -/
theorem chain_staleness_read :
    ∃ τ, Held (exampleChainRead.past ++ [(20, exampleChainRead.chain.backend)])
        exampleKey exampleValue τ ∧
      (20 : Timestamp).toInt - (exampleConfig.maxDefault 1 + 1 * exampleConfig.min.toInt) ≤
        τ.toInt := by
  have hrun : (exampleConfig.system.during chainSound).step exampleChain
      (10, .request 0 ⟨.get, exampleKey⟩ exampleEnv) exampleChainRead :=
    ⟨rfl, .inl rfl, exampleChain_noOverflow⟩
  have hstart : (exampleConfig.system.during chainSound).init exampleChain :=
    ⟨by decide, rfl, fun _ => ⟨_, rfl, rfl, rfl, fun _ => rfl⟩⟩
  exact chain_staleness exampleConfig ((LTS.Reachable.of_init hstart).tail hrun)
    1 exampleKey 20 exampleEnv (.inr (.inl (by decide))) (by decide)
    (exampleChain_noOverflow.hold 0 exampleKey)
    (d := 999999990) rfl

/-- A set at a node that matches the key stores the value there once the storage has it. -/
theorem ioSet_exampleHop {σ : Type} {key : CString} (hkey : prefixMatch exampleAny key = true)
    (w w' : σ) : ioSet exampleHop key exampleValue 10 .all (fun _ => .ok (w', .ok ())) w =
      .ok (exampleHopHolding key, w', .ok ()) := by
  have hmatch : routeMatch exampleHop.route key =
      .ok (exampleHop.route.addRef 0 1, ⟨⟨exampleName, 0, true, true, true⟩, [exampleAny], 0, 0⟩) :=
    @routeMatch_append [] [] _ key nofun (by simp [RouteItem.serves, hkey])
  unfold ioSet withStorage
  rw [hmatch]
  rfl

/-- Node `1` has set a key as long as its field at the instant `10`. The worker of node `0` has
read another key. -/
def exampleChainMisread : ChainState where
  chain := ((backendPut fieldKeyRead (some exampleValue) exampleChain.chain).setNode 0
    (exampleHopHolding fieldKeyRead)).setNode 1 (exampleHopHolding fieldKey)
  clock := 10
  past := [(10, exampleChain.chain.backend),
    (10, (backendPut fieldKeyRead (some exampleValue) exampleChain.chain).backend)]

/-- The set with the key as long as its field, down to the backend and up again. -/
theorem exampleChain_set :
    chainStep exampleChain (10, .request 1 ⟨.set exampleValue, fieldKey⟩ exampleEnv) =
      some exampleChainMisread := by
  have hread : (⟨.set exampleValue, fieldKey⟩ : WireRequest).asRead =
      some ⟨.set exampleValue, fieldKeyRead⟩ := by decide +kernel
  have hbelow : chainSet exampleEnv 10 exampleValue 1 fieldKeyRead exampleChain.chain =
      .ok ((backendPut fieldKeyRead (some exampleValue) exampleChain.chain).setNode 0
        (exampleHopHolding fieldKeyRead), .ok ()) := by
    show nodeDone 0 (ioSet exampleHop fieldKeyRead exampleValue 10 .all
      (fun _ => .ok (_, .ok ())) _) = _
    rw [ioSet_exampleHop (by decide +kernel)]
    rfl
  have hset : chainSet exampleEnv 10 exampleValue 2 fieldKey exampleChain.chain =
      .ok (exampleChainMisread.chain, .ok ()) := by
    rw [chainSet, show exampleEnv.hops 1 = .served from rfl, storageCall_served hread rfl, hbelow]
    show nodeDone 1 (ioSet exampleHop fieldKey exampleValue 10 .all
      (fun _ => .ok (_, .ok ())) _) = _
    rw [ioSet_exampleHop (by decide +kernel)]
    rfl
  rw [chainStep, if_pos (by decide), ChainOp.run, hset]
  rfl

/-- What the node has stored at `10` it returns at `20`. -/
theorem ioGet_exampleHop {σ : Type} (key : CString)
    (call : ℕ → Except Fault (σ × GetResult)) (w : σ) :
    ioGet (exampleHopHolding key) key 20 .all call w =
      .ok (exampleHopHolding key, w, .ok (exampleValue, 999999990)) := by
  unfold ioGet
  simp only [exampleHopHolding, exampleHop, Option.map_some, Cache.cacheGet, Cache.put_tree_self]
  rfl

/-- A set of a key that is not kept: node `1` returns the value for the key, and the backend never
held it there. -/
theorem chain_serves_unheld :
    (exampleConfig.system.during fun s _ => NoOverflow s.chain).Reachable exampleChainMisread ∧
      NoOverflow exampleChainMisread.chain ∧
      (∃ s d, chainGet exampleEnv 20 2 fieldKey exampleChainMisread.chain =
        .ok (s, .ok (exampleValue, d))) ∧
      ∀ τ, ¬Held (exampleChainMisread.past ++ [(20, exampleChainMisread.chain.backend)])
        fieldKey exampleValue τ := by
  have hstart : (exampleConfig.system.during fun s _ => NoOverflow s.chain).init exampleChain :=
    ⟨by decide, rfl, fun _ => ⟨_, rfl, rfl, rfl, fun _ => rfl⟩⟩
  have hget : chainGet exampleEnv 20 2 fieldKey exampleChainMisread.chain =
      .ok (exampleChainMisread.chain.setNode 1 (exampleHopHolding fieldKey),
        .ok (exampleValue, 999999990)) := by
    show nodeDone 1 (ioGet (exampleHopHolding fieldKey) fieldKey 20 .all _ _) = _
    rw [ioGet_exampleHop]
    rfl
  refine ⟨(LTS.Reachable.of_init hstart).tail ⟨exampleChain_set, exampleChain_noOverflow⟩,
    NoOverflow.hold (NoOverflow.hold exampleChain_noOverflow 0 fieldKeyRead) 1 fieldKey,
    ⟨_, _, hget⟩, ?_⟩
  -- before the set the backend held another key, and after it that one and the key misread
  have hkey : fieldKey ≠ exampleKey := by decide +kernel
  have hread : fieldKey ≠ fieldKeyRead := by decide +kernel
  have hbefore : exampleChain.chain.backend fieldKey = none := by simp [exampleChain, hkey]
  have hafter : exampleChainMisread.chain.backend fieldKey = none := by
    simpa [exampleChainMisread, Chain.setNode, backendPut, hread] using hbefore
  rintro τ ⟨b, hb, hv⟩
  have hb : b = exampleChain.chain.backend ∨ b = exampleChainMisread.chain.backend := by
    simp only [exampleChainMisread, List.cons_append, List.nil_append, List.mem_cons,
      Prod.mk.injEq, List.not_mem_nil, or_false] at hb
    rcases hb with ⟨-, hb⟩ | ⟨-, hb⟩ | ⟨-, hb⟩
    · exact .inl hb
    · exact .inr hb
    · exact .inr hb
  have hnone : b fieldKey = none := by
    rcases hb with rfl | rfl
    · exact hbefore
    · exact hafter
  cases hnone.symm.trans hv

end Example

end Propd
