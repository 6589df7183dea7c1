import Propd.Ctrl.Exchange
import Mathlib.Data.List.Chain

/-!
# The round trip of a registration

`ctrl_register_child` writes the name and each string into a field of `NAME_MAX` bytes with
`strncpy`, and `register_child` reads them from there as strings. A string that fills its field
goes on in what follows: the next slot, or the counts behind the name. What does not fit the
receive buffer of the server is cut off.

So a registration registers what it says exactly where each string is shorter than its field, or
the rest of it is by chance what follows, and where the last string ends in the buffer.
-/

namespace Propd

open Lib

/-! ## Fields -/

/-- A field that is cut off is a shorter field. -/
theorem take_strncpy (s : CString) {m n : ℕ} (h : m ≤ n) : (strncpy s n).take m = strncpy s m := by
  rw [strncpy, strncpy, List.take_take, Nat.min_eq_left h, List.take_append, List.take_append,
    List.take_replicate, List.take_replicate]
  congr 2
  omega

/-- **What is read from a field is the string** exactly where the string is shorter than the field,
or what does not fit is what follows the field. -/
theorem ofBuffer_strncpy_iff {s : CString} {n : ℕ} {follow : List UInt8} :
    CString.ofBuffer (strncpy s n ++ follow) = some s ↔
      s.length < n ∨ ∃ tail, CString.ofBuffer follow = some tail ∧ s.bytes.drop n = tail.bytes := by
  rcases Nat.lt_or_ge s.length n with hlt | hge
  · refine iff_of_true ?_ (.inl hlt)
    rw [strncpy_of_lt hlt, List.append_assoc, List.cons_append]
    exact CString.ofBuffer_append s _
  · have hsplit : (s.take n).bytes ++ s.bytes.drop n = s.bytes := List.take_append_drop n s.bytes
    rw [strncpy_of_le hge, CString.ofBuffer_append_left, Option.map_eq_some_iff]
    constructor
    · rintro ⟨tail, htail, heq⟩
      have hbytes : (s.take n).bytes ++ s.bytes.drop n = (s.take n).bytes ++ tail.bytes := by
        rw [hsplit]
        exact (congrArg CString.bytes heq).symm
      exact .inr ⟨tail, htail, List.append_cancel_left hbytes⟩
    · rintro (hlt | ⟨tail, htail, hdrop⟩)
      · exact absurd hlt (Nat.not_lt.mpr hge)
      · refine ⟨tail, htail, CString.ext ?_⟩
        show (s.take n).bytes ++ tail.bytes = s.bytes
        rw [← hdrop, hsplit]

/-- A string in a field with nothing behind it. -/
theorem ofBuffer_strncpy_nil {s : CString} {n : ℕ} :
    CString.ofBuffer (strncpy s n) = some s ↔ s.length < n := by
  have hnil : CString.ofBuffer [] = none := rfl
  have hiff : CString.ofBuffer (strncpy s n ++ []) = some s ↔ _ := ofBuffer_strncpy_iff
  rw [List.append_nil, hnil] at hiff
  simpa using hiff

/-! ## Slots -/

/-- A string that is shorter than its slot, or goes on in the next one with what this holds. -/
def FollowedBy (s next : CString) : Prop :=
  s.length < NAME_MAX ∨ s.bytes.drop NAME_MAX = next.bytes

/-- The strings that are written into slots are those that are read, where `room` bytes of the
slots are received. -/
structure SlotsIntact (room : ℕ) (strings : List CString) : Prop where
  followed : strings.IsChain FollowedBy
  last : ∀ s ∈ strings.getLast?, s.length < NAME_MAX ∧ NAME_MAX * (strings.length - 1) + s.length < room

/-- Each slot is read as the string that was written there. -/
def SlotsRead (room : ℕ) (strings : List CString) : Prop :=
  ∀ (i : ℕ) (s : CString), strings[i]? = some s →
    CString.ofBuffer (((slotBytes strings).take room).drop (NAME_MAX * i)) = some s

theorem slotBytes_cons (s : CString) (rest : List CString) :
    slotBytes (s :: rest) = strncpy s NAME_MAX ++ slotBytes rest := rfl

/-- Behind the first slot are the slots of the rest. -/
theorem drop_slotBytes (s : CString) (rest : List CString) (room i : ℕ) :
    ((slotBytes (s :: rest)).take room).drop (NAME_MAX * (i + 1)) =
      ((slotBytes rest).take (room - NAME_MAX)).drop (NAME_MAX * i) := by
  have hskip : NAME_MAX * (i + 1) = NAME_MAX + NAME_MAX * i := by rw [Nat.mul_succ, Nat.add_comm]
  rw [slotBytes_cons, hskip, ← List.drop_drop, List.drop_take, List.drop_left' (length_strncpy _ _)]

theorem slotsRead_cons {room : ℕ} {s : CString} {rest : List CString} :
    SlotsRead room (s :: rest) ↔
      CString.ofBuffer ((slotBytes (s :: rest)).take room) = some s ∧
        SlotsRead (room - NAME_MAX) rest := by
  constructor
  · intro h
    refine ⟨h 0 s rfl, fun i t ht => ?_⟩
    rw [← drop_slotBytes s]
    exact h (i + 1) t ht
  · rintro ⟨hfirst, hrest⟩ i t ht
    cases i with
    | zero =>
      cases ht
      exact hfirst
    | succ i =>
      rw [drop_slotBytes]
      exact hrest i t ht

/-- The last slot: what follows was not written by anyone. -/
theorem slotsRead_last {room : ℕ} {s : CString} :
    CString.ofBuffer ((slotBytes [s]).take room) = some s ↔ s.length < NAME_MAX ∧ s.length < room := by
  have hread : (slotBytes [s]).take room = strncpy s (min NAME_MAX room) := by
    rw [slotBytes_cons, show slotBytes [] = [] from rfl, List.append_nil,
      ← take_strncpy s (Nat.min_le_left NAME_MAX room)]
    rcases Nat.le_total NAME_MAX room with hle | hle
    · rw [Nat.min_eq_left hle, List.take_of_length_le (by simpa using hle),
        List.take_of_length_le (by simp)]
    · rw [Nat.min_eq_right hle]
  rw [hread, ofBuffer_strncpy_nil, Nat.lt_min]

/-- A slot in front of one that is read right: as that one begins with what was received, the
first is there as a whole. -/
theorem slotsRead_followed {room : ℕ} {s t : CString} {rest : List CString}
    (hnext : CString.ofBuffer ((slotBytes (t :: rest)).take (room - NAME_MAX)) = some t) :
    CString.ofBuffer ((slotBytes (s :: t :: rest)).take room) = some s ↔ FollowedBy s t := by
  have hle : NAME_MAX ≤ room := by
    by_contra hgt
    rw [Nat.sub_eq_zero_of_le (by omega), List.take_zero] at hnext
    cases hnext
  rw [slotBytes_cons, List.take_append, List.take_of_length_le (by simpa using hle),
    length_strncpy, ofBuffer_strncpy_iff, hnext]
  constructor
  · rintro (hlt | ⟨tail, htail, hdrop⟩)
    · exact .inl hlt
    · cases htail
      exact .inr hdrop
  · exact fun h => h.imp_right fun hdrop => ⟨t, rfl, hdrop⟩

theorem SlotsIntact.cons_cons {room : ℕ} {s t : CString} {rest : List CString} :
    SlotsIntact room (s :: t :: rest) ↔
      FollowedBy s t ∧ SlotsIntact (room - NAME_MAX) (t :: rest) := by
  have hlength : (t :: rest).length - 1 + 1 = (s :: t :: rest).length - 1 := by simp
  have hroom : ∀ n : ℕ, NAME_MAX * ((t :: rest).length - 1) + n < room - NAME_MAX ↔
      NAME_MAX * ((s :: t :: rest).length - 1) + n < room := by
    intro n
    rw [← hlength, Nat.mul_succ]
    omega
  constructor
  · rintro ⟨hfollowed, hlast⟩
    obtain ⟨hst, hfollowed⟩ := List.isChain_cons_cons.mp hfollowed
    refine ⟨hst, hfollowed, fun u hu => ?_⟩
    obtain ⟨hlt, hfits⟩ := hlast u (by rwa [List.getLast?_cons_cons])
    exact ⟨hlt, (hroom _).mpr hfits⟩
  · rintro ⟨hst, hfollowed, hlast⟩
    refine ⟨List.isChain_cons_cons.mpr ⟨hst, hfollowed⟩, fun u hu => ?_⟩
    rw [List.getLast?_cons_cons] at hu
    obtain ⟨hlt, hfits⟩ := hlast u hu
    exact ⟨hlt, (hroom _).mp hfits⟩

/-- **The slots are read as they were written** exactly where the strings are intact. -/
theorem slotsRead_iff {room : ℕ} {strings : List CString} :
    SlotsRead room strings ↔ SlotsIntact room strings := by
  induction strings generalizing room with
  | nil => exact iff_of_true (fun i s h => nomatch h) ⟨.nil, fun s h => nomatch h⟩
  | cons s rest ih =>
    rw [slotsRead_cons, ih]
    cases rest with
    | nil =>
      rw [slotsRead_last]
      constructor
      · rintro ⟨hfits, -⟩
        refine ⟨.singleton s, fun t ht => ?_⟩
        cases ht
        simpa using hfits
      · rintro ⟨-, hlast⟩
        exact ⟨by simpa using hlast s rfl, .nil, fun t ht => nomatch ht⟩
    | cons t rest =>
      rw [SlotsIntact.cons_cons]
      -- whether the first slot is read right depends on the next one
      refine and_congr_left fun hrest => ?_
      exact slotsRead_followed (slotsRead_cons.mp (ih.mpr hrest)).1

/-! ## The package as it is received -/

/-- The counts as they stand behind the name. -/
def childCounts (cacheNow prefixes : List CString) : List UInt8 :=
  uint32Code.encode (UInt32.ofNat cacheNow.length) ++
    uint32Code.encode (UInt32.ofNat prefixes.length)

/-- The bytes of the slots that fit the receive buffer. -/
def slotRoom (max : UInt32) : ℕ := (max.toNat * NAME_MAX) % 2 ^ 32

variable {max : UInt32} {name : CString} {cacheNow prefixes : List CString}

/-- The package of a registration, cut off at the end of the buffer. -/
def receivedChild (max : UInt32) (name : CString) (cacheNow prefixes : List CString) :
    Datagram max where
  bytes := CtrlType.registerChild :: (strncpy name NAME_MAX ++ (childCounts cacheNow prefixes ++
    (slotBytes (cacheNow ++ prefixes)).take (slotRoom max)))
  fits := by
    simp only [List.length_cons, List.length_append, length_strncpy, childCounts, List.length_take,
      uint32Code.length_encode]
    simp only [pkgLength, slotRoom, sizeofCtrlPackage, numPrefixOffset, numCacheNowOffset,
      ctrlNameOffset, uint32Code]
    omega

/-- The bytes in front of the slots. -/
theorem length_childCounts (cacheNow prefixes : List CString) :
    (childCounts cacheNow prefixes).length = 8 := by
  rw [childCounts, List.length_append, uint32Code.length_encode, uint32Code.length_encode]
  rfl

theorem take_package (t : CtrlClientTurn) :
    ((CtrlRequest.registerChild name cacheNow prefixes).package t).take (pkgLength max) =
      (receivedChild max name cacheNow prefixes).bytes := by
  have hlength : (strncpy name NAME_MAX ++ childCounts cacheNow prefixes).length = 263 := by
    rw [List.length_append, length_strncpy, length_childCounts]
    rfl
  have hbuffer : pkgLength max = 263 + slotRoom max + 1 := by
    simp only [pkgLength, slotRoom, sizeofCtrlPackage, numPrefixOffset, numCacheNowOffset,
      ctrlNameOffset, NAME_MAX]
    omega
  have hpackage : (CtrlRequest.registerChild name cacheNow prefixes).package t =
      CtrlType.registerChild :: ((strncpy name NAME_MAX ++ childCounts cacheNow prefixes) ++
        slotBytes (cacheNow ++ prefixes)) := by
    simp only [CtrlRequest.package, CtrlRequest.payload, CtrlRequest.type, childCounts,
      List.append_assoc]
  rw [hpackage, hbuffer, List.take_succ_cons, List.take_append, hlength,
    List.take_of_length_le (by omega), Nat.add_sub_cancel_left, List.append_assoc]
  rfl

/-- What is behind the type. -/
theorem drop_receivedChild_name :
    (receivedChild max name cacheNow prefixes).bytes.drop ctrlNameOffset =
      strncpy name NAME_MAX ++ (childCounts cacheNow prefixes ++
        (slotBytes (cacheNow ++ prefixes)).take (slotRoom max)) := rfl

/-- What is behind the name. -/
theorem drop_receivedChild_counts :
    (receivedChild max name cacheNow prefixes).bytes.drop numCacheNowOffset =
      childCounts cacheNow prefixes ++ (slotBytes (cacheNow ++ prefixes)).take (slotRoom max) := by
  have hoffset : numCacheNowOffset = ctrlNameOffset + NAME_MAX := rfl
  rw [hoffset, ← List.drop_drop, drop_receivedChild_name, List.drop_left' (length_strncpy _ _)]

/-- What is behind the counts. -/
theorem drop_receivedChild_slots (name : CString) (i : ℕ) :
    (receivedChild max name cacheNow prefixes).bytes.drop (slotOffset i) =
      ((slotBytes (cacheNow ++ prefixes)).take (slotRoom max)).drop (NAME_MAX * i) := by
  have hoffset : slotOffset i = numCacheNowOffset + (8 + NAME_MAX * i) := by
    simp only [slotOffset, sizeofCtrlPackage, numPrefixOffset]
    omega
  rw [hoffset, ← List.drop_drop, drop_receivedChild_counts, ← List.drop_drop,
    List.drop_left' (length_childCounts _ _)]

theorem le_length_receivedChild :
    sizeofCtrlPackage ≤ (receivedChild max name cacheNow prefixes).bytes.length := by
  simp only [receivedChild, List.length_cons, List.length_append, length_strncpy,
    length_childCounts]
  simp only [sizeofCtrlPackage, numPrefixOffset, numCacheNowOffset, ctrlNameOffset]
  omega

section Counts

variable (hcounted : (CtrlRequest.registerChild name cacheNow prefixes).Counted)

include hcounted

theorem packageCount_cacheNow :
    packageCount (receivedChild max name cacheNow prefixes).bytes numCacheNowOffset =
      cacheNow.length := by
  rw [packageCount, drop_receivedChild_counts, childCounts, List.append_assoc,
    List.take_left' (uint32Code.length_encode _), uint32Code.decode_encode,
    UInt32.toNat_ofNat_of_lt' hcounted.1]

theorem packageCount_prefixes :
    packageCount (receivedChild max name cacheNow prefixes).bytes numPrefixOffset =
      prefixes.length := by
  have hoffset : numPrefixOffset = numCacheNowOffset + uint32Code.width := rfl
  rw [packageCount, hoffset, ← List.drop_drop, drop_receivedChild_counts, childCounts,
    List.append_assoc, List.drop_left' (uint32Code.length_encode _),
    List.take_left' (uint32Code.length_encode _), uint32Code.decode_encode,
    UInt32.toNat_ofNat_of_lt' hcounted.2]

end Counts

/-- Strings whose slots have a 32-bit size are counted in 32 bits. -/
theorem CtrlRequest.Allocated.counted
    (h : (CtrlRequest.registerChild name cacheNow prefixes).Allocated) :
    (CtrlRequest.registerChild name cacheNow prefixes).Counted := by
  have hsum : 255 * (cacheNow.length + prefixes.length) < 2 ^ 32 := h
  exact ⟨by omega, by omega⟩

/-- **There is a zero in the counts** of a package that could be allocated: one of them is small. -/
theorem zero_mem_childCounts (h : (CtrlRequest.registerChild name cacheNow prefixes).Allocated) :
    (0 : UInt8) ∈ childCounts cacheNow prefixes := by
  have hsum : 255 * (cacheNow.length + prefixes.length) < 2 ^ 32 := h
  have hcounted := h.counted
  rcases Nat.lt_or_ge cacheNow.length (256 ^ 3) with hlt | hge
  · refine List.mem_append_left _ ?_
    show _ ∈ toLE 4 (UInt32.ofNat cacheNow.length).toNat
    rw [UInt32.toNat_ofNat_of_lt' hcounted.1]
    exact zero_mem_toLE hlt
  · refine List.mem_append_right _ ?_
    show _ ∈ toLE 4 (UInt32.ofNat prefixes.length).toNat
    rw [UInt32.toNat_ofNat_of_lt' hcounted.2]
    exact zero_mem_toLE (by omega)

/-- A buffer with a NUL is read no further than its end. -/
theorem ofBuffer_append_of_mem {buf : List UInt8} (h : (0 : UInt8) ∈ buf) (rest : List UInt8) :
    CString.ofBuffer (buf ++ rest) = CString.ofBuffer buf := by
  obtain ⟨s, back, rfl⟩ := CString.exists_of_mem h
  rw [List.append_assoc, List.cons_append, CString.ofBuffer_append, CString.ofBuffer_append]

/-! ## What is read of the package -/

/-- The name is read as it was written: it is shorter than its field, or what does not fit is what
the counts spell, up to their first zero. -/
def NameIntact (name : CString) (cacheNow prefixes : List CString) : Prop :=
  name.length < NAME_MAX ∨ ∃ tail, CString.ofBuffer (childCounts cacheNow prefixes) = some tail ∧
    name.bytes.drop NAME_MAX = tail.bytes

/-- The strings of slots, and of more slots behind them. -/
theorem slotStrings_append (pkg : List UInt8) (i k m : ℕ) :
    slotStrings pkg i (k + m) = slotStrings pkg i k ++ slotStrings pkg (i + k) m := by
  rw [slotStrings, slotStrings, slotStrings, ← List.map_append, List.range'_append_1]

/-- A string that ends in the package is the one that is read. -/
theorem packageString_eq_iff {pkg : List UInt8} {off : ℕ} {s : CString}
    (h : (0 : UInt8) ∈ pkg.drop off) :
    packageString pkg off = s ↔ CString.ofBuffer (pkg.drop off) = some s := by
  obtain ⟨t, rest, ht⟩ := CString.exists_of_mem h
  rw [packageString, ht, CString.ofBuffer_append, Option.getD_some, Option.some_inj]

section Received

variable (halloc : (CtrlRequest.registerChild name cacheNow prefixes).Allocated)

include halloc

/-- The name of the package always has an end, if only in the counts. -/
theorem zero_mem_receivedChild_name :
    (0 : UInt8) ∈ (receivedChild max name cacheNow prefixes).bytes.drop ctrlNameOffset := by
  rw [drop_receivedChild_name]
  exact List.mem_append_right _ (List.mem_append_left _ (zero_mem_childCounts halloc))

/-- **The name arrives** exactly where it is intact. -/
theorem childPackage_name_iff :
    (childPackage (receivedChild max name cacheNow prefixes).bytes).name = name ↔
      NameIntact name cacheNow prefixes := by
  rw [childPackage, packageString_eq_iff (zero_mem_receivedChild_name halloc),
    drop_receivedChild_name, ofBuffer_strncpy_iff,
    ofBuffer_append_of_mem (zero_mem_childCounts halloc)]
  rfl

theorem childReadable_of_slots (h : ∀ i < cacheNow.length + prefixes.length,
    SlotReadable (receivedChild max name cacheNow prefixes).bytes i) :
    ChildReadable (receivedChild max name cacheNow prefixes).bytes where
  name := zero_mem_receivedChild_name halloc
  counts := le_length_receivedChild
  slots i hi := by
    rw [packageCount_cacheNow halloc.counted, packageCount_prefixes halloc.counted] at hi
    exact h i hi

/-- The strings of all slots are the `cache_now` keys and the prefixes. -/
theorem slotStrings_received (max : UInt32) :
    slotStrings (receivedChild max name cacheNow prefixes).bytes 0
        (cacheNow.length + prefixes.length) =
      (childPackage (receivedChild max name cacheNow prefixes).bytes).cacheNow ++
        (childPackage (receivedChild max name cacheNow prefixes).bytes).prefixes := by
  rw [slotStrings_append, childPackage, packageCount_cacheNow halloc.counted,
    packageCount_prefixes halloc.counted, Nat.zero_add]

/-- **The strings of the slots arrive** exactly where they are intact. -/
theorem childPackage_slots_iff :
    (ChildReadable (receivedChild max name cacheNow prefixes).bytes ∧
      (childPackage (receivedChild max name cacheNow prefixes).bytes).cacheNow = cacheNow ∧
      (childPackage (receivedChild max name cacheNow prefixes).bytes).prefixes = prefixes) ↔
        SlotsIntact (slotRoom max) (cacheNow ++ prefixes) := by
  rw [← slotsRead_iff]
  constructor
  · rintro ⟨hreadable, hcache, hprefixes⟩ i s hs
    have hall := slotStrings_received halloc max
    rw [hcache, hprefixes] at hall
    have hi : i < cacheNow.length + prefixes.length := by
      rw [← List.length_append]
      exact (List.getElem?_eq_some_iff.mp hs).1
    have hslot : SlotReadable (receivedChild max name cacheNow prefixes).bytes i := by
      refine hreadable.slots i ?_
      rwa [packageCount_cacheNow halloc.counted, packageCount_prefixes halloc.counted]
    rw [← hall, slotStrings, List.getElem?_map, List.getElem?_range' hi, Nat.zero_add, Nat.one_mul,
      Option.map_some, Option.some_inj, packageString_eq_iff hslot, drop_receivedChild_slots] at hs
    exact hs
  · intro hread
    have hslot : ∀ i (hi : i < (cacheNow ++ prefixes).length),
        SlotReadable (receivedChild max name cacheNow prefixes).bytes i ∧
          packageString (receivedChild max name cacheNow prefixes).bytes (slotOffset i) =
            (cacheNow ++ prefixes)[i] := by
      intro i hi
      have hsome := hread i _ (List.getElem?_eq_getElem hi)
      rw [← drop_receivedChild_slots name] at hsome
      have hmem : SlotReadable (receivedChild max name cacheNow prefixes).bytes i := by
        by_contra hnone
        rw [CString.ofBuffer_eq_none.mpr hnone] at hsome
        cases hsome
      exact ⟨hmem, (packageString_eq_iff hmem).mpr hsome⟩
    have hreadable : ChildReadable (receivedChild max name cacheNow prefixes).bytes :=
      childReadable_of_slots halloc fun i hi => (hslot i (by rwa [List.length_append])).1
    have hall : slotStrings (receivedChild max name cacheNow prefixes).bytes 0
        (cacheNow.length + prefixes.length) = cacheNow ++ prefixes := by
      refine List.ext_getElem (by simp [slotStrings]) fun i hi hi' => ?_
      simp only [slotStrings, List.getElem_map, List.getElem_range', Nat.zero_add, Nat.one_mul]
      exact (hslot i hi').2
    rw [slotStrings_received halloc max] at hall
    refine ⟨hreadable, List.append_inj hall ?_⟩
    simp [childPackage, slotStrings, packageCount_cacheNow halloc.counted]

end Received

/-! ## What a registration does -/

variable {σ : Type}

/-- `io_update` was run for each key of the child, in order, and the table has a new item with its
name and its prefixes in front; where it has no prefixes there is no new item. -/
def Registered (t : CtrlTurn σ) (io : IoCtx) (w : σ) (child : ChildPackage) (s : IoCtx × σ) : Prop :=
  ∃ priv io₁, t.child.instance' = .ok priv ∧
    updateLoop (unixStorage child.name priv) t.update 0 child.cacheNow io w =
      .ok (io₁, s.2, .ok ()) ∧
    s.1.cache = io₁.cache ∧
    s.1.route = if child.prefixes = [] then io.route
      else ⟨unixStorage child.name priv, child.prefixes, 0, t.child.addr⟩ :: io.route

/-- **What is asked of a registration**: if its package reaches the server, this reads nothing but
what it has received, and a call that returns 0 has registered the child; if it does not, the
call returns an error. A call whose package is handled returns, so it returns an error where the
child is not registered; but one that finds a dump type in its released package, `stale`, waits
for other replies. -/
structure RegistrationExact (max : UInt32) (t : CtrlTurn σ) (io : IoCtx) (w : σ)
    (child : ChildPackage) (stale : UInt8) (run : CtrlRun) : Prop where
  unsent : run.sent = none → ∃ e, run.ret = .ok (.error e)
  within : ∀ package, run.sent = some package →
    ctrlServer max t.env (io, w) package ≠ .error .overread
  registered : ∀ package, run.sent = some package → run.ret = .ok (.ok ()) →
    ∃ h, ctrlServer max t.env (io, w) package = .ok h ∧ Registered t io w child h.state
  returns : ∀ package h, run.sent = some package → ctrlServer max t.env (io, w) package = .ok h →
    dumps stale = false → ∃ ret, run.ret = .ok ret

/-- The calls with these arguments are exact, whatever the client and the node meet. -/
def RegistersExactly (max : UInt32) (name : CString) (cacheNow prefixes : List CString) : Prop :=
  ∀ (σ : Type) (client : CtrlClientTurn) (t : CtrlTurn σ) (io : IoCtx) (w : σ),
    RegistrationExact max t io w ⟨name, cacheNow, prefixes⟩ client.stale
      (ctrlRegisterChild client name cacheNow prefixes fun package =>
        workerReplies (ctrlServer max t.env (io, w) package))

/-- **When a registration is exact**: the slots have a 32-bit size, the name is intact where an
item is registered under it, and so are the keys and the prefixes in the slots that the server
receives. -/
structure RegistrationIntact (max : UInt32) (name : CString) (cacheNow prefixes : List CString) :
    Prop where
  allocated : NAME_MAX * (cacheNow.length + prefixes.length) < 2 ^ 32
  name : prefixes ≠ [] → NameIntact name cacheNow prefixes
  slots : SlotsIntact (slotRoom max) (cacheNow ++ prefixes)

/-- The callback that runs does not depend on the name. -/
theorem updateLoop_name (name name' : CString) (priv : ℕ) (turn : ℕ → UpdateTurn σ) (i : ℕ)
    (keys : List CString) (io : IoCtx) (w : σ) :
    updateLoop (unixStorage name priv) turn i keys io w =
      updateLoop (unixStorage name' priv) turn i keys io w := by
  induction keys generalizing i io w with
  | nil => rfl
  | cons key rest ih =>
    have hupdate : ∀ call, ioUpdate io key (unixStorage name priv) (turn i).now (turn i).alloc call
        w = ioUpdate io key (unixStorage name' priv) (turn i).now (turn i).alloc call w :=
      fun call => rfl
    rw [updateLoop, updateLoop, hupdate]
    split
    · rfl
    · rfl
    · exact ih _ _ _

/-- A child without prefixes is registered under any name alike. -/
theorem Registered.rename {t : CtrlTurn σ} {io : IoCtx} {w : σ} {child : ChildPackage}
    {s : IoCtx × σ} (h : Registered t io w child s) (name : CString)
    (hname : child.prefixes ≠ [] → child.name = name) :
    Registered t io w ⟨name, child.cacheNow, child.prefixes⟩ s := by
  obtain ⟨priv, io₁, hpriv, hloop, hcache, hroute⟩ := h
  refine ⟨priv, io₁, hpriv, (updateLoop_name _ _ _ _ _ _ _ _).trans hloop, hcache, ?_⟩
  rw [hroute]
  by_cases hnil : child.prefixes = []
  · rw [if_pos hnil, if_pos hnil]
  · rw [if_neg hnil, if_neg hnil, hname hnil]

/-- What `register_child` has done when it returns 0. -/
theorem registerChild_ok {io io' : IoCtx} {child : ChildPackage} {t : CtrlTurn σ} {w w' : σ}
    {a : ChildAlloc} (ha : a.instance' = t.child.instance' ∧ a.addr = t.child.addr)
    (h : registerChild io child a t.update w = .ok (io', w', .ok ())) :
    Registered t io w child (io', w') := by
  unfold registerChild at h
  split at h
  · cases h
  split at h
  · cases h
  · rename_i priv hpriv
    dsimp only at h
    split at h
    · cases h
    · cases h
    · rename_i io₁ w₁ hloop
      refine ⟨priv, io₁, ha.1.symm.trans hpriv, ?_⟩
      have hroute : io₁.route = io.route := by
        obtain ⟨_, _, _, _, hleft, _⟩ := updateLoop_left hloop
        exact hleft.1
      split at h
      · rename_i hnil
        cases h
        exact ⟨hloop, rfl, by rw [if_pos hnil, hroute]⟩
      · rename_i hnil
        split at h
        · cases h
        · cases hreg : routeRegister io₁.route (unixStorage child.name priv) child.prefixes a.addr
            a.item with
          | mk route ret =>
            rw [hreg] at h
            cases h
            rcases routeRegister_cases hreg with ⟨-, e, he⟩ | ⟨hitem, -⟩
            · cases he
            · refine ⟨hloop, rfl, ?_⟩
              rw [if_neg hnil, ← hroute, ← ha.2]
              exact hitem

/-- A package of a child is handled by `register_child`. -/
theorem handlePackage_child {S : Type} {env : CtrlEnv S} {s : S} :
    handlePackage (receivedChild max name cacheNow prefixes).bytes env s =
      (registerChildPkg (receivedChild max name cacheNow prefixes).bytes env s).map
        fun (used, s', ret) => ⟨used, s', some ret⟩ := by
  unfold handlePackage
  have htype : byteAt (receivedChild max name cacheNow prefixes).bytes 0 =
      .ok CtrlType.registerChild := rfl
  rw [htype]
  dsimp only [bind, Except.bind]
  rw [if_pos rfl]
  cases registerChildPkg (receivedChild max name cacheNow prefixes).bytes env s with
  | error e => rfl
  | ok r => rfl

/-- On a readable package it does not read too far, and a result 0 means that the child with the
strings of the package is registered. -/
theorem handlePackage_registered (t : CtrlTurn σ) (io : IoCtx) (w : σ)
    (hreadable : ChildReadable (receivedChild max name cacheNow prefixes).bytes) :
    handlePackage (receivedChild max name cacheNow prefixes).bytes t.env (io, w) ≠ .error .overread ∧
      ∀ h, handlePackage (receivedChild max name cacheNow prefixes).bytes t.env (io, w) = .ok h →
        h.ret = some (.ok ()) →
        Registered t io w (childPackage (receivedChild max name cacheNow prefixes).bytes) h.state := by
  have henv := registerChildPkg_env hreadable t io w
  rw [handlePackage_child]
  cases hrun : registerChildPkg (receivedChild max name cacheNow prefixes).bytes t.env (io, w) with
  | error e =>
    refine ⟨fun he => ?_, nofun⟩
    cases he
    rw [hrun] at henv
    cases hchild : registerChild io (childPackage (receivedChild max name cacheNow prefixes).bytes)
        (t.childAlloc (receivedChild max name cacheNow prefixes).bytes) t.update w with
    | error f =>
      rw [hchild] at henv
      exact absurd (Except.error.inj henv) nofun
    | ok r =>
      rw [hchild] at henv
      cases henv
  | ok r =>
    refine ⟨nofun, fun h hok hret => ?_⟩
    obtain ⟨used, ⟨io', w'⟩, ret⟩ := r
    cases hok
    cases hret
    rw [hrun] at henv
    cases hchild : registerChild io (childPackage (receivedChild max name cacheNow prefixes).bytes)
        (t.childAlloc (receivedChild max name cacheNow prefixes).bytes) t.update w with
    | error f =>
      rw [hchild] at henv
      cases henv
    | ok r =>
      rw [hchild] at henv
      cases henv
      exact registerChild_ok (a := t.childAlloc (receivedChild max name cacheNow prefixes).bytes)
        ⟨rfl, rfl⟩ hchild

/-! ## When a registration is exact -/

/-- The call of a registration, with its counts and its memory in order. -/
theorem ctrlRegisterChild_exchange {client : CtrlClientTurn} {server : List UInt8 → List Reply}
    (halloc : (CtrlRequest.registerChild name cacheNow prefixes).Allocated)
    (hinit : client.init = .ok ()) :
    ctrlRegisterChild client name cacheNow prefixes server =
      ctrlExchange ((CtrlRequest.registerChild name cacheNow prefixes).package client) client false
        server :=
  (ctrlRegisterChild_eq halloc.counted hinit).trans (if_pos halloc)

/-- A call that sends nothing and fails is exact. -/
theorem RegistrationExact.unsent_error (t : CtrlTurn σ) (io : IoCtx) (w : σ) (child : ChildPackage)
    (stale : UInt8) (e : Errno) :
    RegistrationExact max t io w child stale (.unsent (.ok (.error e))) where
  unsent _ := ⟨e, rfl⟩
  within package h := by cases h
  registered package h := by cases h
  returns package h hsent := by cases hsent

/-- **An intact registration is exact.** -/
theorem RegistrationIntact.exact (hintact : RegistrationIntact max name cacheNow prefixes) :
    RegistersExactly max name cacheNow prefixes := by
  intro σ client t io w
  have halloc : (CtrlRequest.registerChild name cacheNow prefixes).Allocated := hintact.allocated
  obtain ⟨hreadable, hcache, hprefixes⟩ := (childPackage_slots_iff halloc).mpr hintact.slots
  obtain ⟨hwithin, hregistered⟩ := handlePackage_registered t io w hreadable
  have hserver : ctrlServer max t.env (io, w)
      ((CtrlRequest.registerChild name cacheNow prefixes).package client) =
        handlePackage (receivedChild max name cacheNow prefixes).bytes t.env (io, w) := by
    rw [ctrlServer, take_package]
  cases hinit : client.init with
  | error e =>
    have hcall : ctrlRegisterChild client name cacheNow prefixes (fun package =>
        workerReplies (ctrlServer max t.env (io, w) package)) = .unsent (.ok (.error e)) := by
      rcases (CtrlRequest.registerChild name cacheNow prefixes).call_cases client fun package =>
          workerReplies (ctrlServer max t.env (io, w) package) with
        ⟨hnot, -⟩ | ⟨-, e', he', hcall⟩ | ⟨-, hok, -⟩ | ⟨-, hok, -⟩
      · exact absurd halloc.counted hnot
      · cases hinit.symm.trans he'
        exact hcall
      · cases hinit.symm.trans hok
      · cases hinit.symm.trans hok
    rw [hcall]
    exact .unsent_error ..
  | ok u =>
    rw [ctrlRegisterChild_exchange halloc hinit]
    cases hsends : client.sends with
    | false =>
      rw [ctrlExchange_eq, if_neg (by rw [hsends]; exact Bool.false_ne_true)]
      exact .unsent_error ..
    | true =>
      refine ⟨fun hsent => ?_, fun package hsent => ?_, fun package hsent hret => ?_,
        fun package h hsent hhandle hstale => ?_⟩
      · rw [ctrlExchange_eq, if_pos hsends] at hsent
        cases hsent
      · rw [ctrlExchange_eq, if_pos hsends] at hsent
        cases hsent
        rwa [hserver]
      · obtain ⟨h, hhandle, hok⟩ := ctrlExchange_ok hsends hret
        rw [ctrlExchange_eq, if_pos hsends] at hsent
        cases hsent
        refine ⟨h, hhandle, ?_⟩
        rw [hserver] at hhandle
        have hleft := hregistered h hhandle hok
        -- the strings of the package are those of the call, and so is the name if it is used
        have hsame := hleft.rename name fun hnil =>
          (childPackage_name_iff halloc).mpr (hintact.name (by rwa [hprefixes] at hnil))
        rwa [hcache, hprefixes] at hsame
      · have hsent' := hsent
        rw [ctrlExchange_eq, if_pos hsends] at hsent'
        cases hsent'
        obtain ⟨ret, hret⟩ := ctrlServer_replies _ client hhandle
        exact ⟨ret, ((ctrlExchange_exchanged hsends hhandle hret).mpr hstale).result _ h ret hsent
          hhandle hret⟩

/-- Every allocation succeeds, and the child records the keys it is asked for. -/
def recordTurn : CtrlTurn (List CString) where
  child := ⟨.ok 0, true, true, 0⟩
  dup _ := true
  update _ := ⟨0, .all, fun _ key w => .ok (w ++ [key], .ok (exampleValue, 0))⟩
  ctrlRegisterChild _ := .ok ()
  ctrlUnregisterChild _ := .ok ()

/-- The loop records all of the keys, in order. -/
theorem updateLoop_record {io : IoCtx} (hio : Eager io) (name : CString) (i : ℕ)
    (keys w : List CString) :
    ∃ io', Eager io' ∧ updateLoop (unixStorage name 0) recordTurn.update i keys io w =
      .ok (io', w ++ keys, .ok ()) := by
  induction keys generalizing i io w with
  | nil => exact ⟨io, hio, by rw [updateLoop, List.append_nil]⟩
  | cons key rest ih =>
    obtain ⟨c, hc⟩ := Option.isSome_iff_exists.mp hio.cache
    have hupdate : ioUpdate io key (unixStorage name 0) (recordTurn.update i).now
        (recordTurn.update i).alloc (fun priv => (recordTurn.update i).call priv key w) w =
          .ok ({ io with cache := some (c.put key (some (c.stored exampleValue 0 0))) },
            w ++ [key], .ok ()) :=
      ioUpdate_all hc name rfl (by decide)
    have hnext : Eager { io with cache := some (c.put key (some (c.stored exampleValue 0 0))) } :=
      ⟨rfl, hio.route⟩
    obtain ⟨io', hio', hloop⟩ := ih hnext (i + 1) (w ++ [key])
    refine ⟨io', hio', ?_⟩
    rw [updateLoop, hupdate]
    exact hloop.trans (by rw [List.append_assoc, List.singleton_append])

/-- A node that is eager registers every child that is not empty. -/
theorem registerChild_record {child : ChildPackage}
    (hchild : ¬ (child.cacheNow = [] ∧ child.prefixes = [])) :
    ∃ io', registerChild eagerNode child recordTurn.child recordTurn.update [] =
        .ok (io', child.cacheNow, .ok ()) ∧
      io'.route = if child.prefixes = [] then []
        else [⟨unixStorage child.name 0, child.prefixes, 0, 0⟩] := by
  have heager : Eager eagerNode := ⟨rfl, rfl⟩
  obtain ⟨io₁, hio₁, hloop⟩ := updateLoop_record heager child.name 0 child.cacheNow []
  unfold registerChild
  have hinstance : recordTurn.child.instance' = .ok 0 := rfl
  simp only [if_neg hchild, hinstance, hloop, List.nil_append]
  by_cases hnil : child.prefixes = []
  · rw [if_pos hnil, if_pos hnil]
    exact ⟨io₁, rfl, hio₁.route⟩
  · rw [if_neg hnil, if_neg hnil, if_neg (by simp [recordTurn]), routeRegister, hio₁.route]
    exact ⟨_, rfl, rfl⟩

/-- An eager node that does not read too far has found an end of each string. -/
theorem childReadable_of_eager
    (halloc : (CtrlRequest.registerChild name cacheNow prefixes).Allocated)
    (h : handlePackage (receivedChild max name cacheNow prefixes).bytes eagerTurn.env
      (eagerNode, ()) ≠ .error .overread) :
    ChildReadable (receivedChild max name cacheNow prefixes).bytes := by
  have hsum : 255 * (cacheNow.length + prefixes.length) < 2 ^ 32 := halloc
  have hrun : Avoids .overread (fun _ => True) (registerChildPkg
      (receivedChild max name cacheNow prefixes).bytes eagerTurn.env (eagerNode, ())) := by
    refine ⟨fun he => h ?_, fun _ _ => trivial⟩
    rw [handlePackage_child, he]
    rfl
  obtain ⟨-, -, hcache, hprefixes, -⟩ := registerChildPkg_eager ⟨rfl, rfl⟩ hrun
  rw [packageCount_cacheNow halloc.counted] at hcache hprefixes
  rw [packageCount_prefixes halloc.counted] at hprefixes
  refine childReadable_of_slots halloc fun i hi => ?_
  rcases Nat.lt_or_ge i cacheNow.length with hlt | hge
  · exact hcache i hlt
  · have hslot := hprefixes (by omega) (i - cacheNow.length) (by omega)
    rwa [Nat.add_sub_cancel' hge, Nat.mod_eq_of_lt (by omega)] at hslot

/-- A node that records registers the child with the strings of the package. -/
theorem handlePackage_record
    (hreadable : ChildReadable (receivedChild max name cacheNow prefixes).bytes)
    (hchild : ¬ ((childPackage (receivedChild max name cacheNow prefixes).bytes).cacheNow = [] ∧
      (childPackage (receivedChild max name cacheNow prefixes).bytes).prefixes = [])) :
    ∃ h, handlePackage (receivedChild max name cacheNow prefixes).bytes recordTurn.env
        (eagerNode, []) = .ok h ∧ h.ret = some (.ok ()) ∧
      h.state.2 = (childPackage (receivedChild max name cacheNow prefixes).bytes).cacheNow ∧
      h.state.1.route =
        if (childPackage (receivedChild max name cacheNow prefixes).bytes).prefixes = [] then []
        else [⟨unixStorage (childPackage (receivedChild max name cacheNow prefixes).bytes).name 0,
          (childPackage (receivedChild max name cacheNow prefixes).bytes).prefixes, 0, 0⟩] := by
  obtain ⟨io', hrun, hroute⟩ := registerChild_record hchild
  have halloc : recordTurn.childAlloc (receivedChild max name cacheNow prefixes).bytes =
      recordTurn.child := by
    simp [CtrlTurn.childAlloc, recordTurn]
  have henv := registerChildPkg_env hreadable recordTurn eagerNode []
  rw [halloc, hrun] at henv
  obtain ⟨⟨used, ⟨io, w⟩, ret⟩, hpkg, hleft⟩ := exceptMap_ok henv
  have hio : io = io' := congrArg Prod.fst hleft
  have hw : w = _ := congrArg (fun r => r.2.1) hleft
  have hret : ret = .ok () := congrArg (fun r => r.2.2) hleft
  refine ⟨⟨used, (io, w), some ret⟩, ?_, congrArg some hret, hw, hio ▸ hroute⟩
  rw [handlePackage_child, hpkg]
  rfl

/-- A registration that is exact is sent: a call that sends nothing has to fail in `ctrl_init` or
`sendto`, and neither does. -/
theorem RegistersExactly.allocated (hexact : RegistersExactly max name cacheNow prefixes) :
    (CtrlRequest.registerChild name cacheNow prefixes).Allocated := by
  let request := CtrlRequest.registerChild name cacheNow prefixes
  let client := exampleClientTurn request
  have hunsent := (hexact Unit client eagerTurn eagerNode ()).unsent
  rcases request.call_cases client fun package =>
      workerReplies (ctrlServer max eagerTurn.env (eagerNode, ()) package) with
    ⟨-, hcall⟩ | ⟨-, e, he, -⟩ | ⟨-, -, -, hcall⟩ | ⟨-, -, halloc, -⟩
  · obtain ⟨e, he⟩ := hunsent (congrArg CtrlRun.sent hcall)
    exact absurd (he.symm.trans (congrArg CtrlRun.ret hcall)) nofun
  · cases he
  · obtain ⟨e, he⟩ := hunsent (congrArg CtrlRun.sent hcall)
    exact absurd (he.symm.trans (congrArg CtrlRun.ret hcall)) nofun
  · exact halloc

/-- **Only an intact registration is exact**: an eager node has to find the ends of its strings,
and a node that records has to find these strings. -/
theorem RegistersExactly.intact (hexact : RegistersExactly max name cacheNow prefixes) :
    RegistrationIntact max name cacheNow prefixes := by
  let request := CtrlRequest.registerChild name cacheNow prefixes
  let client := exampleClientTurn request
  have hsends : client.sends = true := rfl
  have halloc : request.Allocated := hexact.allocated
  have hserver : ∀ {σ : Type} (t : CtrlTurn σ) (io : IoCtx) (w : σ),
      ctrlServer max t.env (io, w) (request.package client) =
        handlePackage (receivedChild max name cacheNow prefixes).bytes t.env (io, w) := by
    intro σ t io w
    rw [ctrlServer, take_package]
  have hsent : ∀ server, (ctrlRegisterChild client name cacheNow prefixes server).sent =
      some (request.package client) := by
    intro server
    rw [ctrlRegisterChild_exchange halloc rfl, ctrlExchange_eq, if_pos hsends]
  have hreadable : ChildReadable (receivedChild max name cacheNow prefixes).bytes := by
    have hwithin := (hexact Unit client eagerTurn eagerNode ()).within _ (hsent _)
    rw [hserver] at hwithin
    exact childReadable_of_eager halloc hwithin
  have hcache : (childPackage (receivedChild max name cacheNow prefixes).bytes).cacheNow = [] ↔
      cacheNow = [] := by
    rw [childPackage, slotStrings_eq_nil, packageCount_cacheNow halloc.counted,
      List.length_eq_zero_iff]
  have hprefixes : (childPackage (receivedChild max name cacheNow prefixes).bytes).prefixes = [] ↔
      prefixes = [] := by
    rw [childPackage, slotStrings_eq_nil, packageCount_prefixes halloc.counted,
      List.length_eq_zero_iff]
  by_cases hempty : cacheNow = [] ∧ prefixes = []
  · obtain ⟨rfl, rfl⟩ := hempty
    exact ⟨halloc, fun h => absurd rfl h, .nil, by simp⟩
  obtain ⟨h, hhandle, hret, hkeys, hroute⟩ := handlePackage_record hreadable
    (by rwa [hcache, hprefixes])
  rw [← hserver] at hhandle
  have hreturns : (ctrlRegisterChild client name cacheNow prefixes fun package =>
      workerReplies (ctrlServer max recordTurn.env (eagerNode, []) package)).ret = .ok (.ok ()) := by
    rw [ctrlRegisterChild_exchange halloc rfl]
    refine ((ctrlExchange_exchanged hsends hhandle hret).mpr rfl).result _ h _ ?_ hhandle hret
    rw [ctrlExchange_eq, if_pos hsends]
  obtain ⟨h', hhandle', priv, io₁, hpriv, hloop, -, hitem⟩ :=
    (hexact (List CString) client recordTurn eagerNode []).registered _ (hsent _) hreturns
  cases hhandle.symm.trans hhandle'
  cases hpriv
  -- what the node has recorded is what it was to record
  have hsame : (childPackage (receivedChild max name cacheNow prefixes).bytes).cacheNow =
      cacheNow := by
    have heager : Eager eagerNode := ⟨rfl, rfl⟩
    obtain ⟨io₂, -, hrecord⟩ := updateLoop_record heager name 0 cacheNow []
    rw [hrecord] at hloop
    cases hloop
    rw [← hkeys]
  by_cases hnil : prefixes = []
  · exact ⟨halloc, fun h => absurd hnil h, (childPackage_slots_iff halloc).mp
      ⟨hreadable, hsame, (hprefixes.mpr hnil).trans hnil.symm⟩⟩
  · rw [hitem, if_neg (mt hprefixes.mp hnil)] at hroute
    rw [if_neg (show ¬ ChildPackage.prefixes ⟨name, cacheNow, prefixes⟩ = [] from hnil)] at hroute
    obtain ⟨hstorage, hlist, -⟩ := RouteItem.mk.inj (List.cons.inj hroute).1
    have hname : name = (childPackage (receivedChild max name cacheNow prefixes).bytes).name :=
      (StorageCtx.mk.inj hstorage).1
    exact ⟨halloc, fun _ => (childPackage_name_iff halloc).mp hname.symm,
      (childPackage_slots_iff halloc).mp ⟨hreadable, hsame, hlist.symm⟩⟩

/-- **A registration is exact if and only if it is intact.** -/
theorem registersExactly_iff (max : UInt32) (name : CString) (cacheNow prefixes : List CString) :
    RegistersExactly max name cacheNow prefixes ↔
      RegistrationIntact max name cacheNow prefixes :=
  ⟨RegistersExactly.intact, RegistrationIntact.exact⟩

/-- A prefix that fills its slot. -/
def longPrefix : CString := ⟨List.replicate NAME_MAX 97, by decide +kernel⟩

/-- What follows it. -/
def shortPrefix : CString := ⟨[98], by decide⟩

/-- The registration of a child for the two. -/
def longRegistration : CtrlRequest :=
  .registerChild exampleListener [] [longPrefix, shortPrefix]

/-- **The call returns 0, and the first prefix is registered with the second one behind it.** -/
theorem longRegistration_misread :
    (longRegistration.call (exampleClientTurn longRegistration) fun package =>
        workerReplies (ctrlServer 2 eagerTurn.env (eagerNode, ()) package)).ret = .ok (.ok ()) ∧
      ((ctrlServer 2 eagerTurn.env (eagerNode, ())
          (longRegistration.package (exampleClientTurn longRegistration))).map fun h =>
        h.state.1.route.map RouteItem.prefixes) =
          .ok [[longPrefix.append shortPrefix, shortPrefix]] ∧
      ¬ RegistersExactly 2 ⟨[99], by decide⟩ [] [longPrefix, shortPrefix] := by
  refine ⟨by decide +kernel, by decide +kernel, fun hexact => ?_⟩
  have hfollowed := hexact.intact.slots.followed
  have hfirst := (List.isChain_cons_cons.mp hfollowed).1
  revert hfirst
  unfold FollowedBy
  decide +kernel

end Propd
