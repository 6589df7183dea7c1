import Propd.Ctrl.Bounds

/-!
# The ctrl server of a node

The handling of a package with the functions of `io.c` and `route.c` on the node. On a valid
package `register_child` is `registerChild` on the strings in its slots. On any other package
the node has its part in what goes wrong: without a cache no key is read. So that every
invalid package is read too far is shown on a node that has one.
-/

namespace Propd

open Lib

variable {σ : Type}

/-- What the handling of a package meets: what `register_child` and each `io_update` meet, the
copies of the prefixes, by their slots, and the replies of another server. -/
structure CtrlTurn (σ : Type) where
  child : ChildAlloc
  dup : ℕ → Bool
  update : ℕ → UpdateTurn σ
  ctrlRegisterChild : CString → SetResult
  ctrlUnregisterChild : CString → SetResult

/-- The functions a package is handled with, on a node and the world behind it. -/
def CtrlTurn.env (t : CtrlTurn σ) : CtrlEnv (IoCtx × σ) where
  hasCache s := s.1.cache.isSome
  construct := t.child.instance'
  update i key storage s :=
    (ioUpdate s.1 key storage (t.update i).now (t.update i).alloc
      (fun priv => (t.update i).call priv key s.2) s.2).map fun (io, w, ret) => ((io, w), ret)
  table := t.child.table
  taken name s := s.1.route.any fun item => item.storage.name = name
  item := t.child.item
  dup := t.dup
  register storage prefixes s :=
    let (route, ret) := routeRegister s.1.route storage prefixes t.child.addr true
    (({ s.1 with route := route }, s.2), ret)
  unregister name s :=
    let (route, _, ret) := routeUnregister s.1.route name
    (({ s.1 with route := route }, s.2), ret)
  ctrlRegisterChild := t.ctrlRegisterChild
  ctrlUnregisterChild := t.ctrlUnregisterChild

/-! ## A valid package -/

variable {pkg : List UInt8} {off : ℕ}

/-- The string at `off`, where there is one. -/
def packageString (pkg : List UInt8) (off : ℕ) : CString :=
  (CString.ofBuffer (pkg.drop off)).getD ⟨[], CString.nonul_nil⟩

/-- The strings of `k` slots from `i` on. -/
def slotStrings (pkg : List UInt8) (i k : ℕ) : List CString :=
  (List.range' i k).map fun j => packageString pkg (slotOffset j)

/-- The package of a child with the strings of its slots. -/
def childPackage (pkg : List UInt8) : ChildPackage where
  name := packageString pkg ctrlNameOffset
  cacheNow := slotStrings pkg 0 (packageCount pkg numCacheNowOffset)
  prefixes :=
    slotStrings pkg (packageCount pkg numCacheNowOffset) (packageCount pkg numPrefixOffset)

/-- The slots of the prefixes. -/
def prefixRange (pkg : List UInt8) : List ℕ :=
  List.range' (packageCount pkg numCacheNowOffset) (packageCount pkg numPrefixOffset)

/-- The allocations with those of the copies of the prefixes among those of the item. -/
def CtrlTurn.childAlloc (t : CtrlTurn σ) (pkg : List UInt8) : ChildAlloc :=
  { t.child with item := t.child.item && (prefixRange pkg).all t.dup }

/-- The string of a slot ends somewhere in the package. -/
def SlotReadable (pkg : List UInt8) (i : ℕ) : Prop := (0 : UInt8) ∈ pkg.drop (slotOffset i)

/-- The name and the strings in the slots end in the package, be it in another field, and the
counts are there. -/
structure ChildReadable (pkg : List UInt8) : Prop where
  name : (0 : UInt8) ∈ pkg.drop ctrlNameOffset
  counts : sizeofCtrlPackage ≤ pkg.length
  slots : ∀ i < packageCount pkg numCacheNowOffset + packageCount pkg numPrefixOffset,
    SlotReadable pkg i

/-- A slot that is in a datagram, if only in part, has no large index. -/
theorem SlotReadable.lt {max : UInt32} {d : Datagram max} {i : ℕ} (h : SlotReadable d.bytes i) :
    i < 2 ^ 31 - 1 := by
  have hlt : slotOffset i < d.bytes.length := by
    by_contra hge
    rw [SlotReadable, List.drop_of_length_le (Nat.le_of_not_lt hge)] at h
    cases h
  have hfits := hlt.trans_le d.fits
  have hmod : (max.toNat * NAME_MAX) % 2 ^ 32 < 2 ^ 32 := Nat.mod_lt _ (by decide)
  simp only [slotOffset, pkgLength, NAME_MAX] at hfits hmod
  omega

theorem stringAt_of_mem (h : (0 : UInt8) ∈ pkg.drop off) :
    stringAt pkg off = .ok (packageString pkg off) := by
  unfold stringAt packageString CString.ofBuffer
  rw [if_pos h]
  rfl

theorem u32At_of_le (h : off + uint32Code.width ≤ pkg.length) :
    ∃ n, u32At pkg off = .ok n ∧ n.toNat = packageCount pkg off := by
  unfold u32At
  rw [if_pos h]
  exact ⟨_, rfl, rfl⟩

/-- What `register_child` leaves and returns, the slots aside. -/
def leftOf (r : List ℕ × (IoCtx × σ) × SetResult) : IoCtx × σ × SetResult :=
  (r.2.1.1, r.2.1.2, r.2.2)

/-- Which slots were read does not matter for what is left. -/
theorem leftOf_used (used : List ℕ)
    (x : Except PkgFault (List ℕ × (IoCtx × σ) × Except Errno Unit)) :
    Except.map leftOf (do
      let (slots, s'', ret) ← x
      .ok (used ++ slots, s'', ret)) = x.map leftOf := by
  cases x with
  | error e => rfl
  | ok r => rfl

theorem updateSlot_env {t : CtrlTurn σ} {storage : StorageCtx} {i : ℕ} (h : SlotReadable pkg i)
    (io : IoCtx) (w : σ) :
    updateSlot pkg t.env storage i (io, w) =
      ((ioUpdate io (packageString pkg (slotOffset i)) storage (t.update i).now
        (t.update i).alloc (fun priv => (t.update i).call priv (packageString pkg (slotOffset i)) w)
        w).map fun (io, w, ret) => ((io, w), ret)).mapError .io := by
  unfold updateSlot
  rw [stringAt_of_mem h]
  cases hc : io.cache with
  | none =>
    have hnone : (!t.env.hasCache (io, w)) = true := by simp [CtrlTurn.env, hc]
    rw [if_pos hnone, ioUpdate, hc]
    rfl
  | some c =>
    have hsome : ¬ (!t.env.hasCache (io, w)) = true := by simp [CtrlTurn.env, hc]
    rw [if_neg hsome]
    rfl

/-- The loop over slots is the loop over their strings. -/
theorem updateSlots_env (t : CtrlTurn σ) (storage : StorageCtx) {k i : ℕ}
    (h : ∀ j, i ≤ j → j < i + k → SlotReadable pkg j) (io : IoCtx) (w : σ) :
    (updateSlots pkg t.env storage k i (io, w)).map leftOf =
      (updateLoop storage t.update i (slotStrings pkg i k) io w).mapError .io := by
  induction k generalizing i io w with
  | zero => rfl
  | succ k ih =>
    have hslot : SlotReadable pkg i := h i le_rfl (by omega)
    have hrest := fun io w => ih (i := i + 1) (fun j hle hlt => h j (by omega) (by omega)) io w
    have hkeys : slotStrings pkg i (k + 1) =
        packageString pkg (slotOffset i) :: slotStrings pkg (i + 1) k := rfl
    rw [updateSlots, updateSlot_env hslot, hkeys, updateLoop]
    cases hupdate : ioUpdate io (packageString pkg (slotOffset i)) storage (t.update i).now
        (t.update i).alloc (fun priv => (t.update i).call priv (packageString pkg (slotOffset i)) w)
        w with
    | error e => rfl
    | ok r =>
      obtain ⟨io', w', ret⟩ := r
      cases ret with
      | error e => rfl
      | ok u =>
        cases u
        exact (leftOf_used [i] _).trans (hrest io' w')

theorem dupSlots_eq {dup : ℕ → Bool} {slots : List ℕ} (h : ∀ i ∈ slots, SlotReadable pkg i) :
    dupSlots pkg dup slots = .ok (if slots.all dup then
      .ok (slots.map fun j => packageString pkg (slotOffset j)) else .error ENOMEM) := by
  induction slots with
  | nil => rfl
  | cons i rest ih =>
    have hrest := ih fun j hj => h j (List.mem_cons_of_mem i hj)
    rw [dupSlots, stringAt_of_mem (h i List.mem_cons_self), hrest]
    cases hdup : dup i with
    | false =>
      rw [List.all_cons, hdup]
      rfl
    | true =>
      rw [List.all_cons, hdup, Bool.true_and]
      cases rest.all dup with
      | false => rfl
      | true => rfl

/-- What follows the loop is what `registerChild` does with the prefixes. -/
theorem registerSlots_env {t : CtrlTurn σ} {storage : StorageCtx} {slots : List ℕ}
    (hint : slots.length < 2 ^ 31) (h : ∀ i ∈ slots, SlotReadable pkg i) (io : IoCtx) (w : σ) :
    registerSlots pkg t.env storage slots (io, w) =
      let (route, ret) := routeRegister io.route storage
        (slots.map fun j => packageString pkg (slotOffset j)) t.child.addr
        (t.child.item && slots.all t.dup)
      .ok (({ io with route := route }, w), ret) := by
  unfold registerSlots routeRegister
  have hnotneg : slots.length ≠ 2 ^ 32 - 1 := by omega
  cases htaken : io.route.any fun item => item.storage.name = storage.name with
  | true =>
    rw [if_pos (show t.env.taken storage.name (io, w) = true from htaken)]
    rfl
  | false =>
    rw [if_neg (show ¬ t.env.taken storage.name (io, w) = true from by simp [CtrlTurn.env, htaken])]
    cases hitem : t.child.item with
    | false =>
      rw [if_pos (by simp [CtrlTurn.env, hitem])]
      rfl
    | true =>
      rw [if_neg (by simp [CtrlTurn.env, hitem]), if_neg hnotneg, if_neg (by omega),
        dupSlots_eq h, show t.env.dup = t.dup from rfl]
      cases slots.all t.dup with
      | false => rfl
      | true =>
        show Except.ok (t.env.register _ _ _) = _
        simp only [CtrlTurn.env, routeRegister, htaken, Bool.false_eq_true, if_false, if_true,
          Bool.and_self]

/-- Of the slots of a datagram there are few: a 32-bit number of them does not fit. -/
theorem prefixRange_short {max : UInt32} {d : Datagram max}
    (h : ∀ i ∈ prefixRange d.bytes, SlotReadable d.bytes i) :
    (prefixRange d.bytes).length < 2 ^ 31 := by
  by_contra hlong
  have hlen : (prefixRange d.bytes).length = packageCount d.bytes numPrefixOffset :=
    List.length_range'
  have hslot := h (packageCount d.bytes numCacheNowOffset + (2 ^ 31 - 1))
    (List.mem_range'_1.mpr ⟨by omega, by omega⟩)
  have hlt := hslot.lt
  omega

/-- The slots of the prefixes, as `register_child` finds them. -/
theorem prefixSlots_eq {max : UInt32} {d : Datagram max} {numCacheNow numPrefix : UInt32}
    (hcache : numCacheNow.toNat = packageCount d.bytes numCacheNowOffset)
    (hprefixes : numPrefix.toNat = packageCount d.bytes numPrefixOffset)
    (h : ∀ i ∈ prefixRange d.bytes, SlotReadable d.bytes i) :
    prefixSlots numCacheNow numPrefix = prefixRange d.bytes := by
  unfold prefixSlots prefixRange at *
  rw [← hcache, ← hprefixes] at *
  rw [List.range'_eq_map_range]
  refine List.map_congr_left fun i hi => Nat.mod_eq_of_lt ?_
  have hslot := h (numCacheNow.toNat + i)
    (List.mem_range'_1.mpr ⟨by omega, by simpa using hi⟩)
  exact hslot.lt.trans (by decide)

@[simp] theorem slotStrings_eq_nil {i k : ℕ} : slotStrings pkg i k = [] ↔ k = 0 := by
  simp [slotStrings]

theorem u32_toNat_eq_zero {n : UInt32} : n.toNat = 0 ↔ n = 0 := by
  rw [← UInt32.toNat_inj]
  rfl

theorem emptyChild_eq {numCacheNow : UInt32} (hlen : sizeofCtrlPackage ≤ pkg.length)
    (hcache : numCacheNow.toNat = packageCount pkg numCacheNowOffset) :
    emptyChild pkg numCacheNow =
      .ok (decide ((childPackage pkg).cacheNow = [] ∧ (childPackage pkg).prefixes = [])) := by
  obtain ⟨numPrefix, hread, hprefixes⟩ := u32At_of_le
    (show numPrefixOffset + uint32Code.width ≤ pkg.length from hlen)
  simp only [childPackage, slotStrings_eq_nil, ← hcache, ← hprefixes, u32_toNat_eq_zero]
  unfold emptyChild
  by_cases hzero : numCacheNow = 0
  · rw [if_neg (not_not.mpr hzero), hread]
    show Except.ok (numPrefix == 0) = _
    simp only [hzero, true_and]
    rfl
  · rw [if_pos hzero]
    simp only [hzero, false_and, decide_false]

/-- What follows the loop is what `registerChild` does with the prefixes. -/
theorem registerPrefixes_env {max : UInt32} {d : Datagram max} (storage : StorageCtx)
    {numCacheNow : UInt32} (hlen : sizeofCtrlPackage ≤ d.bytes.length)
    (hcache : numCacheNow.toNat = packageCount d.bytes numCacheNowOffset)
    (h : ∀ i ∈ prefixRange d.bytes, SlotReadable d.bytes i) (t : CtrlTurn σ) (io : IoCtx) (w : σ) :
    (registerPrefixes d.bytes t.env storage numCacheNow (io, w)).map leftOf =
      .ok (if (childPackage d.bytes).prefixes = [] then (io, w, .ok ())
        else if !t.child.table then (io, w, .error ENOMEM)
        else
          let (route, ret) := routeRegister io.route storage (childPackage d.bytes).prefixes
            t.child.addr (t.childAlloc d.bytes).item
          ({ io with route := route }, w, ret)) := by
  obtain ⟨numPrefix, hread, hprefixes⟩ := u32At_of_le
    (show numPrefixOffset + uint32Code.width ≤ d.bytes.length from hlen)
  have hnil : (childPackage d.bytes).prefixes = [] ↔ numPrefix = 0 := by
    rw [childPackage, slotStrings_eq_nil, ← hprefixes, u32_toNat_eq_zero]
  unfold registerPrefixes
  rw [hread]
  by_cases hzero : numPrefix = 0
  · rw [if_pos (hnil.mpr hzero)]
    subst hzero
    rfl
  · rw [if_neg (mt hnil.mp hzero)]
    cases htable : t.child.table with
    | false =>
      refine congrArg _ ((if_neg hzero).trans (if_pos ?_))
      simp [CtrlTurn.env, htable]
    | true =>
      refine (congrArg _ ((if_neg hzero).trans (if_neg ?_))).trans ?_
      · simp [CtrlTurn.env, htable]
      · rw [prefixSlots_eq hcache hprefixes h, registerSlots_env (prefixRange_short h) h]
        rfl

/-- **A package whose strings end in it is registered as `registerChild` registers its strings.** -/
theorem registerChildPkg_env {max : UInt32} {d : Datagram max} (h : ChildReadable d.bytes)
    (t : CtrlTurn σ) (io : IoCtx) (w : σ) :
    (registerChildPkg d.bytes t.env (io, w)).map leftOf =
      (registerChild io (childPackage d.bytes) (t.childAlloc d.bytes) t.update w).mapError .io := by
  have hlen := h.counts
  have hslots := h.slots
  obtain ⟨numCacheNow, hread, hcache⟩ :=
    u32At_of_le (show numCacheNowOffset + uint32Code.width ≤ d.bytes.length from
      le_trans (by decide) hlen)
  have hrange : ∀ i ∈ prefixRange d.bytes, SlotReadable d.bytes i := fun i hi =>
    hslots i (List.mem_range'_1.mp hi).2
  unfold registerChildPkg registerChild
  rw [hread]
  change Except.map leftOf (emptyChild d.bytes numCacheNow >>= _) = _
  rw [emptyChild_eq hlen hcache]
  change Except.map leftOf (stringAt d.bytes ctrlNameOffset >>= _) = _
  rw [stringAt_of_mem h.name]
  by_cases hempty : (childPackage d.bytes).cacheNow = [] ∧ (childPackage d.bytes).prefixes = []
  · rw [decide_eq_true hempty, if_pos hempty]
    rfl
  rw [decide_eq_false hempty, if_neg hempty, show t.env.construct = t.child.instance' from rfl,
    show (t.childAlloc d.bytes).instance' = t.child.instance' from rfl]
  cases t.child.instance' with
  | error e => rfl
  | ok priv =>
    have hloop := updateSlots_env t (unixStorage (packageString d.bytes ctrlNameOffset) priv)
      (fun j (_ : 0 ≤ j) (hj : j < 0 + numCacheNow.toNat) => hslots j (by omega)) io w
    have hprefixes := registerPrefixes_env
      (unixStorage (packageString d.bytes ctrlNameOffset) priv) hlen hcache hrange t
    rw [hcache] at hloop
    simp only [bind, Except.bind, Bool.false_eq_true, if_false]
    rw [hcache, show (childPackage d.bytes).name = packageString d.bytes ctrlNameOffset from rfl,
      show (childPackage d.bytes).cacheNow =
        slotStrings d.bytes 0 (packageCount d.bytes numCacheNowOffset) from rfl]
    -- the two loops agree, and from here on it matters only what they return
    generalize unixStorage (packageString d.bytes ctrlNameOffset) priv = storage at *
    generalize updateLoop storage t.update 0
      (slotStrings d.bytes 0 (packageCount d.bytes numCacheNowOffset)) io w = loop at hloop ⊢
    generalize updateSlots d.bytes t.env storage (packageCount d.bytes numCacheNowOffset) 0
      (io, w) = run at hloop ⊢
    cases run with
    | error e =>
      cases loop with
      | error e' => exact hloop
      | ok r => cases hloop
    | ok r =>
      obtain ⟨used, ⟨io', w'⟩, ret⟩ := r
      cases loop with
      | error e => cases hloop
      | ok r' =>
        cases hloop
        cases ret with
        | error e => rfl
        | ok u =>
          cases u
          refine (leftOf_used used _).trans ((hprefixes io' w').trans ?_)
          dsimp only [leftOf]
          by_cases hnil : (childPackage d.bytes).prefixes = []
          · rw [if_pos hnil, if_pos hnil]
            rfl
          · rw [if_neg hnil, if_neg hnil]
            have hsame : (t.childAlloc d.bytes).table = t.child.table := rfl
            rw [hsame]
            by_cases htable : (!t.child.table) = true
            · rw [if_pos htable, if_pos htable]
              rfl
            · rw [if_neg htable, if_neg htable]
              rfl

/-! ## Only a valid package is handled within its bytes -/

/-- Handling the package on a node, with no other thread in it, reads nothing but the bytes of
the package, and the slots `register_child` uses are all there with a NUL. -/
def NodeStaysWithin (pkg : List UInt8) : Prop :=
  ∀ (σ : Type) (t : CtrlTurn σ) (io : IoCtx) (w : σ),
    Avoids .overread (fun h => ∀ i ∈ h.used, SlotOk pkg i) (handlePackage pkg t.env (io, w))

theorem StaysWithin.node (h : StaysWithin pkg) : NodeStaysWithin pkg :=
  fun _ t io w => h _ t.env (io, w)

/-- Every allocation succeeds, and so does every call of the child. -/
def eagerTurn : CtrlTurn Unit where
  child := ⟨.ok 0, true, true, 0⟩
  dup _ := true
  update _ := ⟨0, .all, fun _ _ w => .ok (w, .ok (exampleValue, 0))⟩
  ctrlRegisterChild _ := .ok ()
  ctrlUnregisterChild _ := .ok ()

/-- A node with a cache, and nothing registered. -/
structure Eager (io : IoCtx) : Prop where
  cache : io.cache.isSome
  route : io.route = []

theorem eagerUpdate {io : IoCtx} (hio : Eager io) (name key : CString) (priv i : ℕ) :
    ∃ io', Eager io' ∧
      eagerTurn.env.update i key (unixStorage name priv) (io, ()) = .ok ((io', ()), .ok ()) := by
  obtain ⟨c, hc⟩ := Option.isSome_iff_exists.mp hio.cache
  refine ⟨{ io with cache := some (c.put key (some (c.stored exampleValue 0 0))) },
    ⟨rfl, hio.route⟩, ?_⟩
  show Except.map _ (ioUpdate io key (unixStorage name priv) 0 .all _ ()) = _
  rw [ioUpdate_all hc name rfl (by decide)]
  rfl

/-- Where the loop does not read too far it uses all of its slots, and has read their strings. -/
theorem updateSlots_eager {io : IoCtx} (hio : Eager io) {name : CString} {priv k i : ℕ}
    (h : updateSlots pkg eagerTurn.env (unixStorage name priv) k i (io, ()) ≠ .error .overread) :
    (∀ j, i ≤ j → j < i + k → SlotReadable pkg j) ∧ ∃ io', Eager io' ∧
      updateSlots pkg eagerTurn.env (unixStorage name priv) k i (io, ()) =
        .ok (List.range' i k, (io', ()), .ok ()) := by
  induction k generalizing i io with
  | zero => exact ⟨fun j hle hlt => absurd hlt (Nat.not_lt.mpr hle), io, hio, rfl⟩
  | succ k ih =>
    have hcache : ¬ (!eagerTurn.env.hasCache (io, ())) = true := by simp [CtrlTurn.env, hio.cache]
    rcases stringAt_eq_ok_or pkg (slotOffset i) with ⟨key, hkey⟩ | hover
    · obtain ⟨io', hio', hupdate⟩ := eagerUpdate hio name key priv i
      have hslot : updateSlot pkg eagerTurn.env (unixStorage name priv) i (io, ()) =
          .ok ((io', ()), .ok ()) := by
        rw [updateSlot, if_neg hcache, hkey]
        exact congrArg (Except.mapError PkgFault.io) hupdate
      have hunfold : updateSlots pkg eagerTurn.env (unixStorage name priv) (k + 1) i (io, ()) =
          (do
            let (used, s'', ret) ←
              updateSlots pkg eagerTurn.env (unixStorage name priv) k (i + 1) (io', ())
            .ok (i :: used, s'', ret)) := by
        rw [updateSlots, hslot]
        rfl
      rw [hunfold] at h ⊢
      have hrest : updateSlots pkg eagerTurn.env (unixStorage name priv) k (i + 1) (io', ()) ≠
          .error .overread := by
        intro he
        rw [he] at h
        exact h rfl
      obtain ⟨hread, io'', hio'', hrun⟩ := ih hio' hrest
      refine ⟨fun j hle hlt => ?_, io'', hio'', ?_⟩
      · rcases Nat.eq_or_lt_of_le hle with rfl | hgt
        · exact (stringAt_of_ne (by rw [hkey]; exact nofun)).1
        · exact hread j hgt (by omega)
      · rw [hrun]
        rfl
    · refine absurd ?_ h
      have hslot : updateSlot pkg eagerTurn.env (unixStorage name priv) i (io, ()) =
          .error .overread := by
        rw [updateSlot, if_neg hcache, hover]
        rfl
      rw [updateSlots, hslot]
      rfl

/-- Where every copy is made, all of the strings are read. -/
theorem dupSlots_readable {dup : ℕ → Bool} {slots : List ℕ} (hdup : ∀ i, dup i = true)
    (h : dupSlots pkg dup slots ≠ .error .overread) : ∀ i ∈ slots, SlotReadable pkg i := by
  induction slots with
  | nil => exact fun i hi => absurd hi List.not_mem_nil
  | cons i rest ih =>
    unfold dupSlots at h
    have hfirst : stringAt pkg (slotOffset i) ≠ .error .overread := by
      intro he
      rw [he] at h
      exact h rfl
    obtain ⟨hterm, p, hp⟩ := stringAt_of_ne hfirst
    rw [hp] at h
    have hrest : dupSlots pkg dup rest ≠ .error .overread := by
      intro he
      refine h ((if_neg (by simp [hdup i])).trans ?_)
      rw [he]
      rfl
    intro j hj
    rcases List.mem_cons.mp hj with rfl | hj
    · exact hterm
    · exact ih hrest j hj

theorem registerSlots_of_ne {storage : StorageCtx} {slots : List ℕ} {io : IoCtx} (hio : Eager io)
    (h : registerSlots pkg eagerTurn.env storage slots (io, ()) ≠ .error .overread) :
    (slots.length < 2 ^ 31 → ∀ i ∈ slots, SlotReadable pkg i) ∧
      ∃ s ret, registerSlots pkg eagerTurn.env storage slots (io, ()) = .ok (s, ret) := by
  have htaken : ¬ eagerTurn.env.taken storage.name (io, ()) = true := by
    simp [CtrlTurn.env, hio.route]
  have hitem : ¬ (!eagerTurn.env.item) = true := Bool.false_ne_true
  unfold registerSlots at h ⊢
  rw [if_neg htaken, if_neg hitem] at h ⊢
  by_cases hnone : slots.length = 2 ^ 32 - 1
  · exact ⟨fun hshort => by omega, _, _, if_pos hnone⟩
  rw [if_neg hnone] at h ⊢
  by_cases hint : 2 ^ 31 ≤ slots.length
  · exact ⟨fun hshort => by omega, _, _, if_pos hint⟩
  rw [if_neg hint] at h ⊢
  have hread : dupSlots pkg eagerTurn.env.dup slots ≠ .error .overread := by
    intro he
    rw [he] at h
    exact h rfl
  refine ⟨fun _ => dupSlots_readable (fun _ => rfl) hread, ?_⟩
  rcases dupSlots_eq_ok_or pkg eagerTurn.env.dup slots with ⟨r, hr⟩ | hover
  · rw [hr]
    cases r with
    | error e => exact ⟨_, _, rfl⟩
    | ok prefixes => exact ⟨_, _, rfl⟩
  · rw [hover] at h
    exact absurd rfl h

/-- What follows the loop uses a slot for each prefix. -/
theorem registerPrefixes_eager {storage : StorageCtx} {numCacheNow : UInt32} {io : IoCtx}
    (hio : Eager io)
    (h : registerPrefixes pkg eagerTurn.env storage numCacheNow (io, ()) ≠ .error .overread) :
    sizeofCtrlPackage ≤ pkg.length ∧ ∃ numPrefix s ret,
      numPrefix.toNat = packageCount pkg numPrefixOffset ∧
      (numPrefix.toNat < 2 ^ 31 → ∀ j ∈ prefixSlots numCacheNow numPrefix, SlotReadable pkg j) ∧
      registerPrefixes pkg eagerTurn.env storage numCacheNow (io, ()) =
        .ok (prefixSlots numCacheNow numPrefix, s, ret) := by
  unfold registerPrefixes at h ⊢
  have hnum : u32At pkg numPrefixOffset ≠ .error .overread := by
    intro he
    rw [he] at h
    exact h rfl
  obtain ⟨hlen, numPrefix, hread, hcount⟩ := u32At_of_ne hnum
  refine ⟨hlen, numPrefix, ?_⟩
  rw [hread] at h ⊢
  by_cases hzero : numPrefix = 0
  · subst hzero
    exact ⟨(io, ()), .ok (), hcount, fun _ j hj => absurd hj List.not_mem_nil, rfl⟩
  · have htable : ¬ (!eagerTurn.env.table) = true := Bool.false_ne_true
    have hreg : registerSlots pkg eagerTurn.env storage (prefixSlots numCacheNow numPrefix)
        (io, ()) ≠ .error .overread := by
      intro he
      refine h ((if_neg hzero).trans ((if_neg htable).trans ?_))
      rw [he]
      rfl
    obtain ⟨hslots, s, ret, hret⟩ := registerSlots_of_ne hio hreg
    have hlength : (prefixSlots numCacheNow numPrefix).length = numPrefix.toNat := by
      simp [prefixSlots]
    rw [hlength] at hslots
    refine ⟨s, ret, hcount, hslots, (if_neg hzero).trans ((if_neg htable).trans ?_)⟩
    rw [hret]
    rfl

/-- A child that is registered by such a node without a read too far has a name with an end, its
counts, and strings in its slots; and what holds of the outcome holds of one that uses them. -/
theorem registerChildPkg_eager {io : IoCtx} {Q : List ℕ × (IoCtx × Unit) × SetResult → Prop}
    (hio : Eager io) (h : Avoids .overread Q (registerChildPkg pkg eagerTurn.env (io, ()))) :
    (0 : UInt8) ∈ pkg.drop ctrlNameOffset ∧ sizeofCtrlPackage ≤ pkg.length ∧
      (∀ j < packageCount pkg numCacheNowOffset, SlotReadable pkg j) ∧
      (packageCount pkg numPrefixOffset < 2 ^ 31 → ∀ i < packageCount pkg numPrefixOffset,
        SlotReadable pkg ((packageCount pkg numCacheNowOffset + i) % 2 ^ 32)) ∧
      ∃ used s ret, Q (used, s, ret) ∧ (∀ j < packageCount pkg numCacheNowOffset, j ∈ used) ∧
        ∀ i < packageCount pkg numPrefixOffset,
          (packageCount pkg numCacheNowOffset + i) % 2 ^ 32 ∈ used := by
  unfold registerChildPkg at h
  obtain ⟨-, numCacheNow, hread, hcount⟩ := u32At_of_ne h.first
  replace h := h.second hread
  rw [← hcount]
  obtain ⟨empty, hempty, hzero⟩ := emptyChild_of_ne h.first
  replace h := h.second hempty
  obtain ⟨hterm, name, hname⟩ := stringAt_of_ne h.first
  replace h := h.second hname
  refine ⟨hterm, ?_⟩
  cases empty with
  | true =>
    obtain ⟨rfl, hlen, hprefixes⟩ := hzero rfl
    rw [hprefixes]
    have hnone : ∀ (P : ℕ → Prop), ∀ j < 0, P j := fun P j hj => absurd hj (Nat.not_lt_zero j)
    exact ⟨hlen, hnone _, fun _ => hnone _, _, _, _, h.2 _ rfl, hnone _, hnone _⟩
  | false =>
    have hconstruct : eagerTurn.env.construct = .ok 0 := rfl
    rw [if_neg Bool.false_ne_true, hconstruct] at h
    obtain ⟨hcache, io', hio', hloop⟩ := updateSlots_eager hio h.first
    replace h := h.second hloop
    obtain ⟨hlen, numPrefix, s, ret, hprefixes, hslots, hreg⟩ :=
      registerPrefixes_eager hio' h.first
    replace h := h.second hreg
    rw [← hprefixes]
    have hmem : ∀ i < numPrefix.toNat,
        (numCacheNow.toNat + i) % 2 ^ 32 ∈ prefixSlots numCacheNow numPrefix := fun i hi =>
      List.mem_map.mpr ⟨i, List.mem_range.mpr hi, rfl⟩
    refine ⟨hlen, fun j hj => hcache j (Nat.zero_le j) (by omega),
      fun hshort i hi => hslots hshort _ (hmem i hi), _, _, _, h.2 _ rfl, fun j hj => ?_,
      fun i hi => List.mem_append_right _ (hmem i hi)⟩
    exact List.mem_append_left _ (by simpa [List.mem_range'_1] using hj)

/-- A node with an empty cache and no routes. -/
def eagerNode : IoCtx where
  cache := some ⟨fun _ => none, 500000000, 1000000000, 1000000000, 100000000⟩
  route := []

/-- A package a node with a cache handles within its bytes is valid. -/
theorem NodeStaysWithin.valid {max : UInt32} {d : Datagram max} (h : NodeStaysWithin d.bytes) :
    PackageValid d.bytes := by
  have hav := h Unit eagerTurn eagerNode ()
  have hne : d.bytes ≠ [] := by
    intro hnil
    rw [hnil] at hav
    exact hav.1 rfl
  unfold handlePackage at hav
  replace hav := hav.second (byteAt_zero hne)
  have hchild : packageType d.bytes = CtrlType.registerChild →
      (0 : UInt8) ∈ d.bytes.drop ctrlNameOffset ∧ sizeofCtrlPackage ≤ d.bytes.length ∧
        (∀ j < packageCount d.bytes numCacheNowOffset, SlotOk d.bytes j) ∧
        ∀ i < packageCount d.bytes numPrefixOffset,
          SlotOk d.bytes ((packageCount d.bytes numCacheNowOffset + i) % 2 ^ 32) := by
    intro htype
    rw [if_pos htype] at hav
    have hrun : Avoids .overread (fun r => ∀ i ∈ r.1, SlotOk d.bytes i)
        (registerChildPkg d.bytes eagerTurn.env (eagerNode, ())) := by
      refine ⟨hav.first, fun r hr => ?_⟩
      replace hav := hav.second hr
      exact hav.2 _ rfl
    obtain ⟨hterm, hlen, -, -, used, s, ret, hused, hcache, hprefixes⟩ :=
      registerChildPkg_eager ⟨rfl, rfl⟩ hrun
    exact ⟨hterm, hlen, fun j hj => hused j (hcache j hj), fun i hi => hused _ (hprefixes i hi)⟩
  refine ⟨hne, ?_, fun htype => (hchild htype).2.1, fun htype j hj => ?_⟩
  · rintro (htype | htype | htype | htype)
    · exact (hchild htype).1
    · rw [htype, if_neg (by decide), if_pos rfl] at hav
      exact (stringAt_of_ne hav.first).1
    · rw [htype, if_neg (by decide), if_neg (by decide), if_pos rfl] at hav
      exact unregisterChildPkg_of_ne hav.first
    · rw [htype, if_neg (by decide), if_neg (by decide), if_neg (by decide), if_pos rfl] at hav
      exact (stringAt_of_ne hav.first).1
  · obtain ⟨-, -, hcache, hprefixes⟩ := hchild htype
    exact slots_of_sums (UInt32.toNat_lt _) hcache hprefixes j hj

/-- **The reads of the ctrl server stay within a datagram if and only if its package is
valid**: whatever the rest of the server does, and so on every node; and on a node alone no
other package is read within its bytes. -/
theorem ctrl_staysWithin_iff {max : UInt32} (d : Datagram max) :
    (StaysWithin d.bytes ↔ PackageValid d.bytes) ∧
      (NodeStaysWithin d.bytes ↔ PackageValid d.bytes) :=
  ⟨⟨fun h => h.node.valid, PackageValid.staysWithin⟩,
    ⟨NodeStaysWithin.valid, fun h => h.staysWithin.node⟩⟩

/-- A child with a name and one prefix in the count, sent without the slot of the prefix. -/
def shortRegisterChild : Datagram 1 where
  bytes := [CtrlType.registerChild, 110] ++ List.replicate 254 0 ++ uint32Code.encode 0 ++
    uint32Code.encode 1
  fits := by decide +kernel

/-- **The slot of the prefix is read past the end of the datagram.** -/
theorem shortRegisterChild_overread :
    shortRegisterChild.bytes.length = sizeofCtrlPackage ∧
      handlePackage shortRegisterChild.bytes eagerTurn.env (eagerNode, ()) = .error .overread ∧
      ¬ NodeStaysWithin shortRegisterChild.bytes := by
  have hrun : ((handlePackage shortRegisterChild.bytes eagerTurn.env (eagerNode, ())).map
      fun _ => ()) = .error .overread := by
    decide +kernel
  have hover : handlePackage shortRegisterChild.bytes eagerTurn.env (eagerNode, ()) =
      .error .overread := by
    cases h : handlePackage shortRegisterChild.bytes eagerTurn.env (eagerNode, ()) with
    | error e =>
      rw [h] at hrun
      exact congrArg Except.error (Except.error.inj hrun)
    | ok r =>
      rw [h] at hrun
      cases hrun
  exact ⟨by decide +kernel, hover, fun h => (h Unit eagerTurn eagerNode ()).1 hover⟩

end Propd
