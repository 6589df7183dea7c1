import Propd.Ctrl.Datagram
import Propd.Lib.Avoids

/-!
# Reads within a datagram

The counts of a `register_child` package come from its sender and nothing compares them
with the number of bytes that were received, nor looks for the NUL of a name or of a slot.
So a package is handled within the bytes that were received exactly when its sender made it
so: the fields that its type has are there, the name ends in the package, and each slot the
counts speak of is there and has a NUL.
-/

namespace Propd

open Lib

/-- A slot that is there as a whole and has a NUL. -/
def SlotOk (pkg : List UInt8) (i : ℕ) : Prop :=
  slotOffset (i + 1) ≤ pkg.length ∧ (0 : UInt8) ∈ (pkg.drop (slotOffset i)).take NAME_MAX

instance (pkg : List UInt8) (i : ℕ) : Decidable (SlotOk pkg i) :=
  inferInstanceAs (Decidable (_ ∧ _))

/-- Handling the package reads nothing but its bytes, and the slots `register_child` uses are
all there with a NUL, whatever the rest of the server does. -/
def StaysWithin (pkg : List UInt8) : Prop :=
  ∀ (S : Type) (env : CtrlEnv S) (s : S),
    Avoids .overread (fun h => ∀ i ∈ h.used, SlotOk pkg i) (handlePackage pkg env s)

/-! ## The condition on a package -/

/-- The type byte, where there is one. -/
def packageType (pkg : List UInt8) : UInt8 :=
  byteCode.decode pkg

/-- The `uint32_t` at `off`, where it is there. -/
def packageCount (pkg : List UInt8) (off : ℕ) : ℕ :=
  (uint32Code.decode ((pkg.drop off).take uint32Code.width)).toNat

/-- The types whose package has a name. -/
def hasName (type : UInt8) : Prop :=
  type = CtrlType.registerChild ∨ type = CtrlType.registerParent ∨
    type = CtrlType.unregisterChild ∨ type = CtrlType.unregisterParent

/-- There is a type byte, a name ends in the package, and for `register_child` the two counts
are there and so is every slot they speak of, with a NUL in it. -/
structure PackageValid (pkg : List UInt8) : Prop where
  nonempty : pkg ≠ []
  name : hasName (packageType pkg) → (0 : UInt8) ∈ pkg.drop ctrlNameOffset
  counts : packageType pkg = CtrlType.registerChild → sizeofCtrlPackage ≤ pkg.length
  slots : packageType pkg = CtrlType.registerChild →
    ∀ i < packageCount pkg numCacheNowOffset + packageCount pkg numPrefixOffset, SlotOk pkg i

/-! ## Reads -/

variable {pkg : List UInt8} {off : ℕ}

/-- A string is read within the package exactly where it has a NUL. -/
theorem stringAt_avoids :
    Avoids .overread (fun _ => True) (stringAt pkg off) ↔ (0 : UInt8) ∈ pkg.drop off := by
  unfold stringAt CString.ofBuffer
  by_cases h : (0 : UInt8) ∈ pkg.drop off
  · rw [if_pos h]
    exact iff_of_true (.ok trivial) h
  · rw [if_neg h]
    exact iff_of_false (fun hav => hav.1 rfl) h

theorem u32At_avoids :
    Avoids .overread (fun n => n.toNat = packageCount pkg off) (u32At pkg off) ↔
      off + uint32Code.width ≤ pkg.length := by
  unfold u32At
  by_cases h : off + uint32Code.width ≤ pkg.length
  · rw [if_pos h]
    exact iff_of_true (.ok rfl) h
  · rw [if_neg h]
    exact iff_of_false (fun hav => hav.1 rfl) h

theorem byteAt_zero (h : pkg ≠ []) : byteAt pkg 0 = .ok (packageType pkg) := by
  cases pkg with
  | nil => exact absurd rfl h
  | cons b rest => rfl

theorem SlotOk.terminated {i : ℕ} (h : SlotOk pkg i) : (0 : UInt8) ∈ pkg.drop (slotOffset i) :=
  List.mem_of_mem_take h.2

/-- A datagram is too short for the last slots a 32-bit index can name. -/
theorem SlotOk.lt {max : UInt32} {d : Datagram max} {i : ℕ} (h : SlotOk d.bytes i) :
    i < 2 ^ 32 - 1 := by
  have hle := h.1.trans d.fits
  have hmod : (max.toNat * NAME_MAX) % 2 ^ 32 < 2 ^ 32 := Nat.mod_lt _ (by decide)
  simp only [slotOffset, pkgLength, NAME_MAX] at hle hmod
  omega

/-! ## A valid package is handled within its bytes -/

variable {S : Type} {env : CtrlEnv S} {s : S}

/-- The loop over the slots from `i` on uses those slots and no others. -/
theorem updateSlots_avoids {storage : StorageCtx} {k i : ℕ}
    (h : ∀ j, i ≤ j → j < i + k → SlotOk pkg j) (s : S) :
    Avoids .overread (fun r => ∀ j ∈ r.1, SlotOk pkg j) (updateSlots pkg env storage k i s) := by
  induction k generalizing i s with
  | zero => exact .ok nofun
  | succ k ih =>
    have hslot : SlotOk pkg i := h i le_rfl (by omega)
    have hrest := fun s => ih (i := i + 1) (fun j hle hlt => h j (by omega) (by omega)) s
    unfold updateSlots
    refine .bind (P := fun _ => True) ?_ ?_
    · unfold updateSlot
      split
      · exact .ok trivial
      · exact .bind (stringAt_avoids.mpr hslot.terminated) fun key _ => .mapError nofun
    · rintro ⟨s', ret⟩ -
      cases ret with
      | error e => exact .ok fun j hj => List.mem_singleton.mp hj ▸ hslot
      | ok u =>
        refine (hrest s').bind ?_
        rintro ⟨used, s'', ret⟩ hused
        refine .ok fun j hj => ?_
        rcases List.mem_cons.mp hj with rfl | hj
        · exact hslot
        · exact hused j hj

theorem dupSlots_avoids {dup : ℕ → Bool} {slots : List ℕ} (h : ∀ i ∈ slots, SlotOk pkg i) :
    Avoids .overread (fun _ => True) (dupSlots pkg dup slots) := by
  induction slots with
  | nil => exact .ok trivial
  | cons i rest ih =>
    unfold dupSlots
    refine .bind (stringAt_avoids.mpr (h i List.mem_cons_self).terminated) fun p _ => ?_
    split
    · exact .ok trivial
    · exact .bind (ih fun j hj => h j (List.mem_cons_of_mem i hj)) fun ps _ => .ok trivial

theorem registerSlots_avoids {storage : StorageCtx} {slots : List ℕ}
    (h : ∀ i ∈ slots, SlotOk pkg i) (s : S) :
    Avoids .overread (fun _ => True) (registerSlots pkg env storage slots s) := by
  unfold registerSlots
  repeat' split
  all_goals first
    | exact .ok trivial
    | skip
  refine .bind (dupSlots_avoids h) fun r _ => ?_
  cases r with
  | error e => exact .ok trivial
  | ok prefixes => exact .ok trivial

/-- With slots for all of its counts, the sum of which is then no 32-bit overflow, what follows
the loop uses those slots. -/
theorem registerPrefixes_avoids {max : UInt32} {d : Datagram max} {storage : StorageCtx}
    {numCacheNow : UInt32} (hlen : sizeofCtrlPackage ≤ d.bytes.length)
    (h : ∀ i < numCacheNow.toNat + packageCount d.bytes numPrefixOffset, SlotOk d.bytes i) (s : S) :
    Avoids .overread (fun r => ∀ j ∈ r.1, SlotOk d.bytes j)
      (registerPrefixes d.bytes env storage numCacheNow s) := by
  unfold registerPrefixes
  refine .bind (u32At_avoids.mpr hlen) fun numPrefix hnum => ?_
  have hslots : ∀ j ∈ prefixSlots numCacheNow numPrefix, SlotOk d.bytes j := by
    intro j hj
    obtain ⟨i, hi, rfl⟩ := List.mem_map.mp hj
    have hslot : SlotOk d.bytes (numCacheNow.toNat + i) := by
      refine h _ ?_
      have hi := List.mem_range.mp hi
      omega
    rwa [Nat.mod_eq_of_lt (hslot.lt.trans (by decide))]
  split
  · exact .ok nofun
  split
  · exact .ok nofun
  · refine .bind (registerSlots_avoids hslots s) ?_
    rintro ⟨s', ret⟩ -
    exact .ok hslots

theorem emptyChild_avoids {numCacheNow : UInt32} (hlen : sizeofCtrlPackage ≤ pkg.length) :
    Avoids .overread (fun _ => True) (emptyChild pkg numCacheNow) := by
  unfold emptyChild
  split
  · exact .ok trivial
  · exact .bind (u32At_avoids.mpr hlen) fun _ _ => .ok trivial

theorem registerChildPkg_avoids {max : UInt32} {d : Datagram max} (h : PackageValid d.bytes)
    (htype : packageType d.bytes = CtrlType.registerChild) (s : S) :
    Avoids .overread (fun r => ∀ j ∈ r.1, SlotOk d.bytes j) (registerChildPkg d.bytes env s) := by
  have hlen := h.counts htype
  have hslots := h.slots htype
  have hcounts : numCacheNowOffset + uint32Code.width ≤ d.bytes.length :=
    le_trans (by decide) hlen
  unfold registerChildPkg
  refine .bind (u32At_avoids.mpr hcounts) fun numCacheNow hnum => ?_
  rw [← hnum] at hslots
  refine .bind (emptyChild_avoids hlen) fun empty _ => ?_
  refine .bind (stringAt_avoids.mpr (h.name (.inl htype))) fun name _ => ?_
  split
  · exact .ok nofun
  split
  · exact .ok nofun
  · refine .bind (updateSlots_avoids (fun j _ hj => hslots j (by omega)) s) ?_
    rintro ⟨used, s', ret⟩ hused
    cases ret with
    | error e => exact .ok hused
    | ok u =>
      refine (registerPrefixes_avoids hlen hslots s').bind ?_
      rintro ⟨slots, s'', ret⟩ hslots'
      refine .ok fun j hj => ?_
      rcases List.mem_append.mp hj with hj | hj
      · exact hused j hj
      · exact hslots' j hj

/-- **A valid package is handled within its bytes.** -/
theorem PackageValid.staysWithin {max : UInt32} {d : Datagram max} (h : PackageValid d.bytes) :
    StaysWithin d.bytes := by
  intro S env s
  have hquiet : ∀ (s' : S) (ret : Option SetResult),
      Avoids PkgFault.overread (fun h : Handling S => ∀ i ∈ h.used, SlotOk d.bytes i)
        (.ok ⟨[], s', ret⟩) := fun s' ret => .ok nofun
  have hname : hasName (packageType d.bytes) →
      Avoids .overread (fun _ => True) (stringAt d.bytes ctrlNameOffset) :=
    fun hn => stringAt_avoids.mpr (h.name hn)
  unfold handlePackage
  rw [byteAt_zero h.nonempty]
  refine .bind (.ok (P := fun type => type = packageType d.bytes) rfl) ?_
  rintro type rfl
  split
  · rename_i htype
    refine (registerChildPkg_avoids h htype s).bind ?_
    rintro ⟨used, s', ret⟩ hused
    exact .ok hused
  split
  · rename_i htype
    exact (hname (.inr (.inl htype))).bind fun name _ => hquiet s _
  split
  · rename_i htype
    have hterm := h.name (.inr (.inr (.inl htype)))
    refine .bind (P := fun _ => True) ?_ fun r _ => hquiet _ _
    unfold unregisterChildPkg
    refine .bind (P := fun _ => True) ?_ fun first _ => ?_
    · unfold byteAt
      split
      · exact .ok trivial
      · rename_i hnone
        rw [List.drop_of_length_le (List.getElem?_eq_none_iff.mp hnone)] at hterm
        cases hterm
    · split
      · exact .ok trivial
      · exact (stringAt_avoids.mpr hterm).bind fun name _ => .ok trivial
  split
  · rename_i htype
    exact (hname (.inr (.inr (.inr htype)))).bind fun name _ => hquiet s _
  split
  · exact hquiet s _
  · exact hquiet s _

/-! ## What is read within the bytes -/

theorem stringAt_eq_ok_or (pkg : List UInt8) (off : ℕ) :
    (∃ s, stringAt pkg off = .ok s) ∨ stringAt pkg off = .error .overread := by
  unfold stringAt
  split
  · exact .inl ⟨_, rfl⟩
  · exact .inr rfl

/-- The count at an offset. -/
theorem u32At_of_ne (h : u32At pkg off ≠ .error .overread) :
    off + uint32Code.width ≤ pkg.length ∧
      ∃ n, u32At pkg off = .ok n ∧ n.toNat = packageCount pkg off := by
  unfold u32At at h ⊢
  split
  · rename_i hle
    exact ⟨hle, _, rfl, rfl⟩
  · rename_i hle
    rw [if_neg hle] at h
    exact absurd rfl h

theorem stringAt_of_ne (h : stringAt pkg off ≠ .error .overread) :
    (0 : UInt8) ∈ pkg.drop off ∧ ∃ s, stringAt pkg off = .ok s :=
  ⟨stringAt_avoids.mp ⟨h, fun _ _ => trivial⟩, (stringAt_eq_ok_or pkg off).resolve_right h⟩

theorem dupSlots_eq_ok_or (pkg : List UInt8) (dup : ℕ → Bool) (slots : List ℕ) :
    (∃ r, dupSlots pkg dup slots = .ok r) ∨ dupSlots pkg dup slots = .error .overread := by
  induction slots with
  | nil => exact .inl ⟨_, rfl⟩
  | cons i rest ih =>
    unfold dupSlots
    rcases stringAt_eq_ok_or pkg (slotOffset i) with ⟨p, hp⟩ | hover
    · rw [hp]
      show (∃ r, (if !dup i then _ else _) = _) ∨ (if !dup i then _ else _) = _
      split
      · exact .inl ⟨_, rfl⟩
      · rcases ih with ⟨ps, hps⟩ | hover
        · rw [hps]
          exact .inl ⟨_, rfl⟩
        · rw [hover]
          exact .inr rfl
    · rw [hover]
      exact .inr rfl

theorem emptyChild_of_ne {numCacheNow : UInt32}
    (h : emptyChild pkg numCacheNow ≠ .error .overread) :
    ∃ empty, emptyChild pkg numCacheNow = .ok empty ∧
      (empty = true → numCacheNow = 0 ∧ sizeofCtrlPackage ≤ pkg.length ∧
        packageCount pkg numPrefixOffset = 0) := by
  unfold emptyChild at h ⊢
  by_cases hzero : numCacheNow ≠ 0
  · exact ⟨false, if_pos hzero, nofun⟩
  · rw [if_neg hzero] at h ⊢
    have hnum : u32At pkg numPrefixOffset ≠ .error .overread := by
      intro he
      rw [he] at h
      exact h rfl
    obtain ⟨hlen, numPrefix, hread, hcount⟩ := u32At_of_ne hnum
    rw [hread]
    refine ⟨numPrefix == 0, rfl, fun hempty => ⟨not_not.mp hzero, hlen, ?_⟩⟩
    rw [← hcount, beq_iff_eq.mp hempty]
    rfl

/-- `unregister_child` reads a name, if only an empty one. -/
theorem unregisterChildPkg_of_ne (h : unregisterChildPkg pkg env s ≠ .error .overread) :
    (0 : UInt8) ∈ pkg.drop ctrlNameOffset := by
  unfold unregisterChildPkg byteAt at h
  cases hfirst : pkg[ctrlNameOffset]? with
  | none =>
    rw [hfirst] at h
    exact absurd rfl h
  | some first =>
    rw [hfirst] at h
    obtain ⟨hlt, hget⟩ := List.getElem?_eq_some_iff.mp hfirst
    rw [List.drop_eq_getElem_cons hlt, hget]
    by_cases hzero : first = 0
    · subst hzero
      exact List.mem_cons_self
    · have hname : stringAt pkg ctrlNameOffset ≠ .error .overread := by
        intro he
        refine h ((if_neg hzero).trans ?_)
        rw [he]
        rfl
      have hmem := (stringAt_of_ne hname).1
      rwa [List.drop_eq_getElem_cons hlt, hget] at hmem

/-- In a datagram that has the slots whose indices are 32-bit sums, no sum overflows: the slot
before the overflow would not have fit. -/
theorem slots_of_sums {max : UInt32} {d : Datagram max} {numCacheNow numPrefix : ℕ}
    (hcount : numCacheNow < 2 ^ 32) (hcache : ∀ j < numCacheNow, SlotOk d.bytes j)
    (hprefixes : ∀ i < numPrefix, SlotOk d.bytes ((numCacheNow + i) % 2 ^ 32)) :
    ∀ j < numCacheNow + numPrefix, SlotOk d.bytes j := by
  have hsum : numCacheNow + numPrefix < 2 ^ 32 := by
    by_contra hover
    have hlast := hprefixes (2 ^ 32 - 1 - numCacheNow) (by omega)
    rw [show numCacheNow + (2 ^ 32 - 1 - numCacheNow) = 2 ^ 32 - 1 by omega,
      Nat.mod_eq_of_lt (by decide)] at hlast
    exact absurd hlast.lt (lt_irrefl _)
  intro j hj
  rcases Nat.lt_or_ge j numCacheNow with hlt | hge
  · exact hcache j hlt
  · have hslot := hprefixes (j - numCacheNow) (by omega)
    rwa [Nat.add_sub_cancel' hge, Nat.mod_eq_of_lt (hj.trans hsum)] at hslot

end Propd
