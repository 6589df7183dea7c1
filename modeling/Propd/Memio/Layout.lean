import Propd.Lib.Numeral
import Propd.Memio.Position

/-!
# Layouts

A layout is a list of positions with names. `layout_parse` reads it from what cJSON has made of a
file, `layout_length` is the size of the memory it describes, and positions are searched for by
their names.

A layout ends with the key `LST_SEARCH_ID_END`; here it is a list, and the keys are left out.
-/

namespace Propd

open Lib

abbrev Layout := List Pos

/-! ## Search -/

def sizeofPos : ℕ := 32

/-- The entries that `__lst_search` gets to. It computes `itmsz * idx` in 32 bits, so behind the
last of them it finds the first again. -/
def lstReach : ℕ := 2 ^ 32 / sizeofPos

/-- `pos_search_by_name`. In a layout whose end it does not get to, a name that it does not find
keeps it counting until the index is out of its type. -/
def posSearchByName (layout : Layout) (name : CString) : Except Fault (Option Pos) :=
  match (layout.take lstReach).find? fun pos => pos.name = name with
  | some pos => .ok (some pos)
  | none => if layout.length < lstReach then .ok none else .error .outOfBounds

/-- The key names entry `i`, the first one of its name. -/
structure IsNamed (layout : Layout) (key : CString) (i : ℕ) (pos : Pos) : Prop where
  entry : layout[i]? = some pos
  name : pos.name = key
  first : ∀ j < i, ∀ p, layout[j]? = some p → p.name ≠ key

/-- An entry is found if the search gets to it. -/
theorem posSearchByName_eq {layout : Layout} {key : CString} {i : ℕ} {pos : Pos}
    (h : IsNamed layout key i pos) :
    posSearchByName layout key = if i < lstReach then .ok (some pos) else .error .outOfBounds := by
  obtain ⟨hlt, hpos⟩ := List.getElem?_eq_some_iff.mp h.entry
  -- no entry in front has the name
  have hfront : ∀ j, j < i → ∀ hj : j < layout.length, decide (layout[j].name = key) = false :=
    fun j hji hj => decide_eq_false (h.first j hji _ (List.getElem?_eq_getElem hj))
  unfold posSearchByName
  by_cases hreach : i < lstReach
  · -- entry `i` is among those that are looked at
    have hfind : (layout.take lstReach).find? (fun pos => pos.name = key) = some pos := by
      refine List.find?_eq_some_iff_getElem.mpr ⟨decide_eq_true h.name, i, ?_, ?_, ?_⟩
      · rw [List.length_take]
        exact lt_min hreach hlt
      · rw [List.getElem_take, hpos]
      · intro j hj
        rw [List.getElem_take, hfront j hj (hj.trans hlt)]
        rfl
    rw [hfind, if_pos hreach]
  · -- all that are looked at come before entry `i`
    have hge : lstReach ≤ i := Nat.le_of_not_lt hreach
    have hfind : (layout.take lstReach).find? (fun pos => pos.name = key) = none := by
      refine List.find?_eq_none.mpr fun p hp => ?_
      obtain ⟨j, hj, rfl⟩ := List.mem_iff_getElem.mp hp
      rw [List.length_take] at hj
      rw [List.getElem_take, hfront j ((lt_min_iff.mp hj).1.trans_le hge) (lt_min_iff.mp hj).2]
      exact Bool.false_ne_true
    rw [hfind, if_neg hreach]
    simp only
    rw [if_neg (Nat.not_lt.mpr (hge.trans hlt.le))]

/-- What is found is an entry. -/
theorem mem_of_posSearchByName {layout : Layout} {name : CString} {pos : Pos}
    (h : posSearchByName layout name = .ok (some pos)) : pos ∈ layout := by
  unfold posSearchByName at h
  split at h
  · rename_i p hfind
    cases h
    exact List.mem_of_mem_take (List.mem_of_find?_eq_some hfind)
  · split at h <;> cases h

/-- A search that gets to the end of the layout ends. -/
theorem posSearchByName_ends {layout : Layout} (h : layout.length < lstReach) (name : CString) :
    ∃ found, posSearchByName layout name = .ok found := by
  unfold posSearchByName
  split
  · exact ⟨_, rfl⟩
  · exact ⟨_, if_pos h⟩

/-- `layout_length` -/
def layoutLength (layout : Layout) : UInt32 :=
  layout.foldl (fun length pos =>
    if length < pos.offset + pos.length then pos.offset + pos.length else length) 0

/-! ## Parsing -/

/-- What `layout_parse` asks of cJSON: whether an item is an array and which items it has
(`cJSON_IsArray`, `cJSON_GetArrayItem`), the member of a name (`cJSON_GetObjectItem`), and the
string that an item is (`cJSON_GetStringValue`). -/
structure CJson (Item : Type) where
  arrayItems : Item → Option (List Item)
  getObjectItem : Item → CString → Option Item
  getStringValue : Item → Option CString

variable {Item : Type}

namespace CJson

variable (cjson : CJson Item)

/-- The string that a member is. -/
def text (item : Item) (name : CString) : Option CString :=
  (cjson.getObjectItem item name).bind cjson.getStringValue

/-- `strtoul` of an item's string, which is NULL where it has none. -/
def number (item : Item) : Except Fault UInt64 :=
  match cjson.getStringValue item with
  | some s => .ok (strtoul s.bytes).number
  | none => .error .nullDeref

/-- The number of a member, 0 where it is missing. -/
def numberOrZero (item : Item) (name : CString) : Except Fault UInt64 :=
  match cjson.getObjectItem item name with
  | some x => cjson.number x
  | none => .ok 0

end CJson

section Fields

/-- `name` -/
def nameField : CString := ⟨[110, 97, 109, 101], by decide⟩

/-- `offset` -/
def offsetField : CString := ⟨[111, 102, 102, 115, 101, 116], by decide⟩

/-- `length` -/
def lengthField : CString := ⟨[108, 101, 110, 103, 116, 104], by decide⟩

/-- `mask` -/
def maskField : CString := ⟨[109, 97, 115, 107], by decide⟩

end Fields

/-- `parse_pos`; `none` is a failure. The numbers are narrowed to 32 bits. -/
def parsePos (cjson : CJson Item) (item : Item) (strdup : Bool) : Except Fault (Option Pos) :=
  match cjson.getObjectItem item nameField, cjson.getObjectItem item offsetField,
    cjson.getObjectItem item lengthField with
  | some name, some offset, some length =>
    match cjson.getStringValue name with
    -- `strdup` of NULL
    | none => .error .nullDeref
    | some name =>
      if !strdup then .ok none
      else do
        -- the numbers are not checked
        let offset ← cjson.number offset
        let length ← cjson.number length
        let mask ← cjson.numberOrZero item maskField
        .ok (some ⟨name, offset.toUInt32, length.toUInt32, mask.toUInt32⟩)
  | _, _, _ => .ok none

/-- Which allocations of a `layout_parse` succeed: the layout, and the name of each entry. -/
structure LayoutAlloc where
  layout : Bool
  name : ℕ → Bool

/-- The allocations for `n` entries succeed. -/
def LayoutAlloc.Succeeds (a : LayoutAlloc) (n : ℕ) : Prop :=
  a.layout = true ∧ ∀ i < n, a.name i = true

/-- The loop of `layout_parse`, from entry `i` on. -/
def parseLoop (cjson : CJson Item) (strdup : ℕ → Bool) :
    ℕ → List Item → Except Fault (Option Layout)
  | _, [] => .ok (some [])
  | i, item :: items =>
    match parsePos cjson item (strdup i) with
    | .error f => .error f
    | .ok none => .ok none
    | .ok (some pos) => (Option.map (pos :: ·)) <$> parseLoop cjson strdup (i + 1) items

/-- `layout_parse`, of what `cJSON_Parse` returns. -/
def layoutParse (cjson : CJson Item) (json : Option Item) (a : LayoutAlloc) :
    Except Fault (Option Layout) :=
  match json.bind cjson.arrayItems with
  | some items => if a.layout then parseLoop cjson a.name 0 items else .ok none
  | none => .ok none

/-! ## Entries -/

/-- The texts of an entry. -/
structure Entry where
  name : CString
  offset : CString
  length : CString
  mask : Option CString

namespace Entry

variable (e : Entry)

def offsetNumber : UInt64 := (strtoul e.offset.bytes).number

def lengthNumber : UInt64 := (strtoul e.length.bytes).number

/-- A missing mask counts as 0. -/
def maskNumber : UInt64 :=
  match e.mask with
  | some mask => (strtoul mask.bytes).number
  | none => 0

/-- The position of an entry. -/
def pos : Pos :=
  ⟨e.name, e.offsetNumber.toUInt32, e.lengthNumber.toUInt32, e.maskNumber.toUInt32⟩

/-- Offset and length end below 2^32, and a position of at most four bytes has a mask that is neither
zero nor wider than it. -/
structure Sound : Prop where
  sum : e.offsetNumber.toNat + e.lengthNumber.toNat < 2 ^ 32
  mask : e.lengthNumber.toNat ≤ 4 →
    e.maskNumber ≠ 0 ∧ e.maskNumber.toNat < 256 ^ e.lengthNumber.toNat

/-- What an entry should be refused for. -/
inductive Faulty : Prop
  | missingMask (hshort : e.lengthNumber.toNat ≤ 4) (hmask : e.mask = none)
  | zeroMask (hshort : e.lengthNumber.toNat ≤ 4) (hmask : e.maskNumber = 0)
  | wideMask (hshort : e.lengthNumber.toNat ≤ 4)
      (hmask : 256 ^ e.lengthNumber.toNat ≤ e.maskNumber.toNat)
  | offset (h : 2 ^ 32 ≤ e.offsetNumber.toNat)
  | length (h : 2 ^ 32 ≤ e.lengthNumber.toNat)
  | sum (h : 2 ^ 32 ≤ e.offsetNumber.toNat + e.lengthNumber.toNat)

theorem sound_iff : e.Sound ↔ ¬ e.Faulty := by
  constructor
  · rintro ⟨hsum, hmask⟩ hfaulty
    cases hfaulty with
    | missingMask hshort hnone =>
      refine (hmask hshort).1 ?_
      rw [maskNumber, hnone]
    | zeroMask hshort hzero => exact (hmask hshort).1 hzero
    | wideMask hshort hwide => exact absurd (hmask hshort).2 (Nat.not_lt.mpr hwide)
    | offset h => omega
    | length h => omega
    | sum h => omega
  · intro h
    refine ⟨Nat.lt_of_not_le fun hsum => h (.sum hsum), fun hshort => ⟨fun hzero => ?_, ?_⟩⟩
    · exact h (.zeroMask hshort hzero)
    · exact Nat.lt_of_not_le fun hwide => h (.wideMask hshort hwide)

end Entry

/-- The item is an object with the strings of an entry. -/
structure CJson.IsEntry (cjson : CJson Item) (item : Item) (e : Entry) : Prop where
  name : cjson.text item nameField = some e.name
  offset : cjson.text item offsetField = some e.offset
  length : cjson.text item lengthField = some e.length
  mask : cjson.text item maskField = e.mask
  nomask : e.mask = none → cjson.getObjectItem item maskField = none

/-- The text is an array of such items. -/
def IsLayout (cjson : CJson Item) (json : Option Item) (entries : List Entry) : Prop :=
  ∃ items, json.bind cjson.arrayItems = some items ∧ List.Forall₂ cjson.IsEntry items entries

variable {cjson : CJson Item}

theorem IsLayout.length_eq {json : Option Item} {entries entries' : List Entry}
    (h : IsLayout cjson json entries) (h' : IsLayout cjson json entries') :
    entries.length = entries'.length := by
  obtain ⟨items, hsome, hitems⟩ := h
  obtain ⟨items', hsome', hitems'⟩ := h'
  cases hsome.symm.trans hsome'
  exact hitems.length_eq.symm.trans hitems'.length_eq

/-! ## What is accepted -/

section Accepted

variable {item : Item} {e : Entry} {pos : Pos}

theorem CJson.number_ok {n : UInt64} (h : cjson.number item = .ok n) :
    ∃ s, cjson.getStringValue item = some s ∧ n = (strtoul s.bytes).number := by
  unfold CJson.number at h
  split at h
  · rename_i s hs
    exact ⟨s, hs, (Except.ok.inj h).symm⟩
  · cases h

theorem CJson.number_eq {s : CString} (h : cjson.getStringValue item = some s) :
    cjson.number item = .ok (strtoul s.bytes).number := by
  rw [CJson.number, h]

theorem CJson.text_eq_some {name s : CString} :
    cjson.text item name = some s ↔
      ∃ x, cjson.getObjectItem item name = some x ∧ cjson.getStringValue x = some s :=
  Option.bind_eq_some_iff

/-- `parse_pos` accepts an entry if its name can be copied. -/
theorem parsePos_entry (h : cjson.IsEntry item e) : parsePos cjson item true = .ok (some e.pos) := by
  obtain ⟨name, hname, hnameText⟩ := CJson.text_eq_some.mp h.name
  obtain ⟨offset, hoffset, hoffsetText⟩ := CJson.text_eq_some.mp h.offset
  obtain ⟨length, hlength, hlengthText⟩ := CJson.text_eq_some.mp h.length
  unfold parsePos
  rw [hname, hoffset, hlength]
  simp only
  rw [hnameText, CJson.number_eq hoffsetText, CJson.number_eq hlengthText]
  have hmask : cjson.numberOrZero item maskField = .ok e.maskNumber := by
    have htext := h.mask
    unfold CJson.numberOrZero Entry.maskNumber
    cases hnone : e.mask with
    | none => rw [h.nomask hnone]
    | some s =>
      rw [hnone] at htext
      obtain ⟨mask, hitem, hmaskText⟩ := CJson.text_eq_some.mp htext
      rw [hitem]
      exact CJson.number_eq hmaskText
  rw [hmask]
  rfl

/-- What `parse_pos` accepts is an entry, and its position is made of it. -/
theorem parsePos_ok {strdup : Bool} (h : parsePos cjson item strdup = .ok (some pos)) :
    strdup = true ∧ ∃ e, cjson.IsEntry item e ∧ pos = e.pos := by
  unfold parsePos at h
  split at h
  · rename_i name offset length hname hoffset hlength
    split at h
    · cases h
    · rename_i s hnameText
      cases strdup with
      | false => cases h
      | true =>
        refine ⟨rfl, ?_⟩
        obtain ⟨o, ho, h⟩ := exceptBind_ok h
        obtain ⟨l, hl, h⟩ := exceptBind_ok h
        obtain ⟨m, hm, h⟩ := exceptBind_ok h
        obtain ⟨offsetText, hoffsetText, rfl⟩ := CJson.number_ok ho
        obtain ⟨lengthText, hlengthText, rfl⟩ := CJson.number_ok hl
        cases h
        have htexts : cjson.text item nameField = some s ∧
            cjson.text item offsetField = some offsetText ∧
            cjson.text item lengthField = some lengthText :=
          ⟨CJson.text_eq_some.mpr ⟨name, hname, hnameText⟩,
            CJson.text_eq_some.mpr ⟨offset, hoffset, hoffsetText⟩,
            CJson.text_eq_some.mpr ⟨length, hlength, hlengthText⟩⟩
        obtain ⟨hs, ho, hl⟩ := htexts
        -- the mask may be missing
        unfold CJson.numberOrZero at hm
        split at hm
        · rename_i mask hmask
          obtain ⟨maskText, hmaskText, rfl⟩ := CJson.number_ok hm
          exact ⟨⟨s, offsetText, lengthText, some maskText⟩,
            ⟨hs, ho, hl, CJson.text_eq_some.mpr ⟨mask, hmask, hmaskText⟩, nofun⟩, rfl⟩
        · rename_i hnone
          cases hm
          refine ⟨⟨s, offsetText, lengthText, none⟩, ⟨hs, ho, hl, ?_, fun _ => hnone⟩, rfl⟩
          rw [CJson.text, hnone]
          rfl
  · cases h

/-- The loop accepts entries, and makes positions of them one by one. -/
theorem parseLoop_ok_iff {strdup : ℕ → Bool} {items : List Item} {layout : Layout} {i : ℕ} :
    parseLoop cjson strdup i items = .ok (some layout) ↔
      (∀ j < items.length, strdup (i + j) = true) ∧
        ∃ entries, List.Forall₂ cjson.IsEntry items entries ∧ layout = entries.map Entry.pos := by
  -- over the entries, as the loop goes
  induction items generalizing i layout with
  | nil =>
    rw [parseLoop]
    constructor
    · intro h
      cases h
      exact ⟨nofun, [], .nil, rfl⟩
    · rintro ⟨-, entries, hentries, rfl⟩
      cases hentries
      rfl
  | cons item items ih =>
    rw [parseLoop]
    constructor
    · intro h
      split at h
      · cases h
      · cases h
      · rename_i pos hpos
        obtain ⟨hdup, e, he, rfl⟩ := parsePos_ok hpos
        obtain ⟨rest, hrest, hcons⟩ := exceptMap_ok h
        obtain ⟨layout', rfl, rfl⟩ := Option.map_eq_some_iff.mp hcons
        obtain ⟨hdups, entries, hentries, rfl⟩ := ih.mp hrest
        refine ⟨fun j hj => ?_, e :: entries, .cons he hentries, rfl⟩
        cases j with
        | zero => exact hdup
        | succ j =>
          rw [← Nat.add_assoc, Nat.add_right_comm]
          exact hdups j (Nat.lt_of_succ_lt_succ hj)
    · rintro ⟨hdups, entries, hentries, rfl⟩
      cases hentries with
      | cons he hentries =>
        rename_i e entries
        have hrest : parseLoop cjson strdup (i + 1) items = .ok (some (entries.map Entry.pos)) := by
          refine ih.mpr ⟨fun j hj => ?_, entries, hentries, rfl⟩
          rw [Nat.add_right_comm, Nat.add_assoc]
          exact hdups (j + 1) (Nat.succ_lt_succ hj)
        have hdup : strdup i = true := hdups 0 (Nat.succ_pos _)
        rw [hdup, parsePos_entry he]
        simp only
        rw [hrest]
        rfl

/-- **`layout_parse` accepts exactly the arrays of entries**, if nothing fails to be allocated. -/
theorem layoutParse_ok_iff {json : Option Item} {a : LayoutAlloc} {layout : Layout} :
    layoutParse cjson json a = .ok (some layout) ↔
      ∃ entries, IsLayout cjson json entries ∧ layout = entries.map Entry.pos ∧
        a.Succeeds entries.length := by
  constructor
  · intro h
    unfold layoutParse at h
    split at h
    · rename_i items hitems
      split at h
      · rename_i halloc
        obtain ⟨hdups, entries, hentries, rfl⟩ := parseLoop_ok_iff.mp h
        refine ⟨entries, ⟨items, hitems, hentries⟩, rfl, halloc, fun i hi => ?_⟩
        have hdup := hdups i (hentries.length_eq ▸ hi)
        rwa [Nat.zero_add] at hdup
      · cases h
    · cases h
  · rintro ⟨entries, ⟨items, hitems, hentries⟩, rfl, halloc, hdups⟩
    unfold layoutParse
    rw [hitems]
    simp only
    rw [if_pos halloc]
    refine parseLoop_ok_iff.mpr ⟨fun j hj => ?_, entries, hentries, rfl⟩
    rw [Nat.zero_add]
    exact hdups j (hentries.length_eq ▸ hj)

end Accepted

/-! ## The window of a layout -/

/-- No position ends behind the layout, as far as 32 bits tell. -/
theorem le_layoutLength {layout : Layout} {pos : Pos} (h : pos ∈ layout) :
    pos.offset + pos.length ≤ layoutLength layout := by
  -- the loop never lowers the length it has
  have hloop : ∀ (l : Layout) (n : UInt32),
      n ≤ l.foldl (fun length pos =>
        if length < pos.offset + pos.length then pos.offset + pos.length else length) n ∧
      ∀ p ∈ l, p.offset + p.length ≤ l.foldl (fun length pos =>
        if length < pos.offset + pos.length then pos.offset + pos.length else length) n := by
    intro l
    induction l with
    | nil => exact fun n => ⟨UInt32.le_refl n, nofun⟩
    | cons q l ih =>
      intro n
      rw [List.foldl_cons]
      split
      · rename_i hlt
        obtain ⟨hacc, hmem⟩ := ih (q.offset + q.length)
        refine ⟨UInt32.le_trans (UInt32.le_of_lt hlt) hacc, fun p hp => ?_⟩
        rcases List.mem_cons.mp hp with rfl | hp
        · exact hacc
        · exact hmem p hp
      · rename_i hge
        obtain ⟨hacc, hmem⟩ := ih n
        refine ⟨hacc, fun p hp => ?_⟩
        rcases List.mem_cons.mp hp with rfl | hp
        · exact UInt32.le_trans (UInt32.not_lt.mp hge) hacc
        · exact hmem p hp
  exact (hloop layout 0).2 pos h

/-- **The position of a sound entry lies in the window of its layout.** -/
theorem Entry.Sound.inside {e : Entry} (h : e.Sound) {layout : Layout} (hmem : e.pos ∈ layout) :
    e.pos.offset.toNat + e.pos.length.toNat ≤ (layoutLength layout).toNat := by
  have hsum := h.sum
  have hle : (e.pos.offset + e.pos.length).toNat ≤ (layoutLength layout).toNat :=
    UInt32.le_iff_toNat_le.mp (le_layoutLength hmem)
  have hoffset : e.pos.offset.toNat = e.offsetNumber.toNat % 2 ^ 32 := UInt64.toNat_toUInt32 _
  have hlength : e.pos.length.toNat = e.lengthNumber.toNat % 2 ^ 32 := UInt64.toNat_toUInt32 _
  rw [UInt32.toNat_add] at hle
  omega

/-- The mask of a sound entry is not wider than its position. -/
theorem Entry.Sound.fits {e : Entry} (h : e.Sound) (hshort : e.pos.length.toNat ≤ 4) :
    e.pos.mask ≠ 0 ∧ 1 ≤ e.pos.length.toNat ∧ e.pos.mask.toNat < 256 ^ e.pos.length.toNat := by
  have hsum := h.sum
  have hlength : e.pos.length.toNat = e.lengthNumber.toNat := by
    have hmod : e.pos.length.toNat = e.lengthNumber.toNat % 2 ^ 32 := UInt64.toNat_toUInt32 _
    omega
  rw [hlength] at hshort ⊢
  obtain ⟨hne, hwide⟩ := h.mask hshort
  have hnonzero : e.maskNumber.toNat ≠ 0 := fun hzero => hne (UInt64.toNat_inj.mp hzero)
  have hword : 256 ^ e.lengthNumber.toNat ≤ 256 ^ 4 := Nat.pow_le_pow_right (by decide) hshort
  -- such a mask is not narrowed
  have hmask : e.pos.mask.toNat = e.maskNumber.toNat := by
    have hmod : e.pos.mask.toNat = e.maskNumber.toNat % 2 ^ 32 := UInt64.toNat_toUInt32 _
    omega
  rw [hmask]
  refine ⟨fun hzero => hnonzero (by rw [← hmask, hzero]; rfl), ?_, hwide⟩
  by_contra hempty
  rw [Nat.lt_one_iff.mp (Nat.lt_of_not_le hempty)] at hwide
  omega

end Propd
