import Propd.Core.Buffer
import Mathlib.Data.List.Count

/-!
# Arrays of strings

`arrayparse_cstring` and `arraydup_cstring` of `misc.c`. The string is cut at its commas in a copy
of it, an array of pointers into the copy is filled, and the strings they point to are copied. The
array has no room for a `NULL` at its end, so that its length is given along with it; but a length
of 0 means that the end is to be looked for.

Counts are `int`s, whose overflow is a fault like an access outside of an object.
-/

namespace Propd

open Lib

/-- The string at a place of a buffer. -/
def strAt (buf : List UInt8) (p : ℕ) : Except Fault CString :=
  match CString.ofBuffer (buf.drop p) with
  | some t => .ok t
  | none => .error .outOfBounds

section Dup

variable {α : Type}

/-- The search for the `NULL` at the end of an array, from index `num` on. -/
def arrayEnd : List (Option α) → ℕ → Except Fault ℕ
  | [], _ => .error .outOfBounds
  | none :: _, num => .ok num
  | some _ :: rest, num => arrayEnd rest (num + 1)

/-- The loop of `arraydup_cstring` at index `i`, with `n` strings to go. `str` is the string at a
pointer, `strdup i` whether there is memory for the copy of the string at index `i`. -/
def arraydupLoop (array : List (Option α)) (str : α → Except Fault CString) (strdup : ℕ → Bool) :
    ℕ → ℕ → List (Option CString) → Except Fault (Option (List (Option CString)))
  | 0, _, dup => .ok (some dup)
  | n + 1, i, dup => do
    match ← loadAt array i with
    | none => .error .nullDeref
    | some p =>
      let t ← str p
      if !strdup i then
        -- `arrayfree_cstring` releases the copies that there are
        let dup ← storeAt dup i none
        let _ ← arrayEnd dup 0
        .ok none
      else
        let dup ← storeAt dup i (some t)
        arraydupLoop array str strdup n (i + 1) dup

/-- `arraydup_cstring` of `num` strings. -/
def arraydupCstring (array : Option (List (Option α))) (num : ℕ) (str : α → Except Fault CString)
    (calloc : Bool) (strdup : ℕ → Bool) : Except Fault (Option (List (Option CString))) := do
  let num ← match array with
    | none => .ok 0
    | some array => if num = 0 then arrayEnd array 0 else .ok num
  if 2 ^ 31 ≤ num + 1 then .error .outOfBounds
  else if !calloc then .ok none
  else arraydupLoop (array.getD []) str strdup num 0 (List.replicate (num + 1) none)

end Dup

/-- Which allocations of `arrayparse_cstring` succeed: of the copy, of the array, and those of
`arraydup_cstring`. -/
structure ArrayAlloc where
  copy : Bool
  array : Bool
  dup : Bool
  strdup : ℕ → Bool

/-- The first loop of `arrayparse_cstring`, with `n` bytes of the copy to go: the number of commas,
and where the string ends. -/
def countLoop (s : List UInt8) : ℕ → ℕ → ℕ → Except Fault (ℕ × ℕ)
  | 0, _, _ => .error .outOfBounds
  | n + 1, w2, num => do
    let c ← loadAt s w2
    if c = 0 then .ok (num, w2)
    else countLoop s n (w2 + 1) (if c = 44 then num + 1 else num)

/-- The copy and the array of pointers into it, the next index of the array, and `w1` and `w2`. -/
structure Cut where
  s : List UInt8
  array : List (Option ℕ)
  i : ℕ
  w1 : ℕ
  w2 : ℕ

/-- The second loop: every comma becomes a NUL, and the pointer behind the last one goes into the
array. -/
def cutLoop : ℕ → Cut → Except Fault Cut
  | 0, _ => .error .outOfBounds
  | n + 1, cut => do
    let c ← loadAt cut.s cut.w2
    if c = 0 then .ok cut
    else if c = 44 then
      let s ← storeAt cut.s cut.w2 0
      let array ← storeAt cut.array cut.i (some cut.w1)
      cutLoop n ⟨s, array, cut.i + 1, cut.w2 + 1, cut.w2 + 1⟩
    else cutLoop n { cut with w2 := cut.w2 + 1 }

/-- `arrayparse_cstring`: the array with its `NULL`, and the number it reports; or `NULL`. -/
def arrayparseCstring (s : CString) (alloc : ArrayAlloc) :
    Except Fault (Option (List (Option CString) × ℕ)) :=
  if !alloc.copy then .ok none
  else do
    let copy := s.bytes ++ [0]
    let (num, w2) ← countLoop copy copy.length 0 0
    let num := if w2 ≠ 0 then num + 1 else num
    if 2 ^ 31 ≤ num then .error .outOfBounds
    else if !alloc.array then .ok none
    else
      let cut ← cutLoop copy.length ⟨copy, List.replicate num none, 0, 0, 0⟩
      -- the last string is not followed by a comma
      let array ← if cut.w2 ≠ 0 then storeAt cut.array cut.i (some cut.w1) else .ok cut.array
      let dup ← arraydupCstring (some array) num (strAt cut.s) alloc.dup alloc.strdup
      .ok (dup.map fun dup => (dup, num))

/-! ## Counting and cutting -/

section Scan

variable {pre l rest : List UInt8}

/-- The byte behind a part of the copy. -/
theorem loadAt_middle (pre : List UInt8) (c : UInt8) (rest : List UInt8) :
    loadAt (pre ++ c :: rest) pre.length = .ok c :=
  loadAt_ok (by simp)

/-- The first loop counts the commas up to the NUL. -/
theorem countLoop_eq (pre : List UInt8) (num : ℕ) (h : 0 ∉ l) :
    countLoop (pre ++ (l ++ [0])) (l.length + 1) pre.length num =
      .ok (num + l.count 44, pre.length + l.length) := by
  induction l generalizing pre num with
  | nil =>
    rw [List.nil_append, List.length_nil, countLoop, loadAt_middle]
    rfl
  | cons c l ih =>
    have hc : c ≠ 0 := fun hzero => h (hzero ▸ List.mem_cons_self)
    have hrest := ih (pre ++ [c]) (if c = 44 then num + 1 else num)
      fun hmem => h (List.mem_cons_of_mem c hmem)
    rw [List.append_assoc, List.singleton_append, List.length_append,
      List.length_singleton] at hrest
    rw [List.cons_append, List.length_cons, countLoop, loadAt_middle]
    simp only [bind, Except.bind, if_neg hc, hrest]
    by_cases hcomma : c = 44
    · rw [if_pos hcomma, hcomma, List.count_cons_self]
      congr 2 <;> omega
    · rw [if_neg hcomma, List.count_cons_of_ne hcomma]
      congr 2
      omega

/-- The second loop runs over the characters of a field. -/
theorem cutLoop_field (pre : List UInt8) (array : List (Option ℕ)) (n i w1 : ℕ) (h : 0 ∉ l)
    (hcomma : 44 ∉ l) :
    cutLoop (l.length + n) ⟨pre ++ (l ++ rest), array, i, w1, pre.length⟩ =
      cutLoop n ⟨pre ++ (l ++ rest), array, i, w1, pre.length + l.length⟩ := by
  induction l generalizing pre with
  | nil => rw [List.length_nil, Nat.zero_add, Nat.add_zero]
  | cons c l ih =>
    have hc : c ≠ 0 := fun hzero => h (hzero ▸ List.mem_cons_self)
    have hc' : c ≠ 44 := fun hzero => hcomma (hzero ▸ List.mem_cons_self)
    have hrest := ih (pre ++ [c]) (fun hmem => h (List.mem_cons_of_mem c hmem))
      fun hmem => hcomma (List.mem_cons_of_mem c hmem)
    rw [List.append_assoc, List.singleton_append, List.length_append,
      List.length_singleton] at hrest
    rw [List.cons_append, List.length_cons, Nat.add_right_comm, cutLoop]
    simp only [loadAt_middle, bind, Except.bind, if_neg hc, if_neg hc', hrest]
    rw [Nat.add_assoc, Nat.add_comm 1]

end Scan

/-- The fields with their commas between them. -/
def joined (fields : List CString) : List UInt8 :=
  [44].intercalate (fields.map CString.bytes)

/-- The fields with a NUL behind each. -/
def cutText (fields : List CString) : List UInt8 :=
  fields.flatMap fun f => f.bytes ++ [0]

theorem cutText_cons (f : CString) (fields : List CString) :
    cutText (f :: fields) = f.bytes ++ [0] ++ cutText fields :=
  List.flatMap_cons

/-- Where the fields begin. -/
def starts : ℕ → List CString → List ℕ
  | _, [] => []
  | off, f :: fields => off :: starts (off + f.length + 1) fields

theorem length_starts (off : ℕ) (fields : List CString) :
    (starts off fields).length = fields.length := by
  induction fields generalizing off with
  | nil => rfl
  | cons f fields ih => rw [starts, List.length_cons, ih, List.length_cons]

theorem joined_cons (f g : CString) (fields : List CString) :
    joined (f :: g :: fields) = f.bytes ++ 44 :: joined (g :: fields) := by
  rw [joined, joined, List.map_cons, List.map_cons, List.intercalate_cons_cons]
  simp

theorem storeAt_middle (pre : List UInt8) (c d : UInt8) (rest : List UInt8) :
    storeAt (pre ++ c :: rest) pre.length d = .ok (pre ++ d :: rest) := by
  rw [storeAt_ok (by simp), List.set_append_right _ _ le_rfl, Nat.sub_self, List.set_cons_zero]

/-- **The second loop cuts the fields apart and keeps where they begin**, with the last of them
in `w1`. -/
theorem cutLoop_eq {f : CString} {fields : List CString} (hcomma : ∀ g ∈ f :: fields, 44 ∉ g.bytes)
    (pre : List UInt8) {array : List (Option ℕ)} {i : ℕ}
    (hroom : i + fields.length + 1 ≤ array.length) :
    ∃ cut, cutLoop ((joined (f :: fields)).length + 1)
        ⟨pre ++ (joined (f :: fields) ++ [0]), array, i, pre.length, pre.length⟩ = .ok cut ∧
      cut.s = pre ++ cutText (f :: fields) ∧
      cut.w2 = pre.length + (joined (f :: fields)).length ∧
      storeAt cut.array cut.i (some cut.w1) =
        .ok (overwrite array i ((starts pre.length (f :: fields)).map some)) := by
  induction fields generalizing f pre array i with
  | nil =>
    have hjoined : joined [f] = f.bytes := by
      rw [joined, List.map_singleton, List.intercalate_singleton]
    have hi : i < array.length := by
      rw [List.length_nil] at hroom
      omega
    have hnul := loadAt_middle (pre ++ f.bytes) 0 []
    rw [List.append_assoc, List.length_append] at hnul
    refine ⟨⟨pre ++ (f.bytes ++ [0]), array, i, pre.length, pre.length + f.bytes.length⟩, ?_, ?_,
      ?_, ?_⟩
    · rw [hjoined, cutLoop_field pre array 1 i pre.length f.nonul (hcomma f List.mem_cons_self),
        cutLoop]
      simp only [hnul, bind, Except.bind]
      rw [if_pos trivial]
    · simp [cutText]
    · rw [hjoined]
    · rw [storeAt_ok hi, starts, starts, List.map_singleton, overwrite_cons _ hi, overwrite_nil]
  | cons g fields ih =>
    have hi : i < array.length := by omega
    have hrest : i + 1 + fields.length + 1 ≤ (array.set i (some pre.length)).length := by
      rw [List.length_set]
      rw [List.length_cons] at hroom
      omega
    obtain ⟨cut, hcut, htext, hend, hstarts⟩ := ih (f := g)
      (fun g' hg' => hcomma g' (List.mem_cons_of_mem f hg')) (pre ++ f.bytes ++ [0]) hrest
    have hpre : (pre ++ f.bytes ++ [0]).length = pre.length + f.bytes.length + 1 := by
      rw [List.length_append, List.length_append, List.length_singleton]
    rw [hpre] at hcut hend hstarts
    -- the comma behind the field
    have hload := loadAt_middle (pre ++ f.bytes) 44 (joined (g :: fields) ++ [0])
    have hstore := storeAt_middle (pre ++ f.bytes) 44 0 (joined (g :: fields) ++ [0])
    rw [List.length_append] at hload hstore
    have hlen : (joined (f :: g :: fields)).length + 1 =
        f.bytes.length + ((joined (g :: fields)).length + 1 + 1) := by
      rw [joined_cons, List.length_append, List.length_cons]
      omega
    refine ⟨cut, ?_, ?_, ?_, ?_⟩
    · rw [hlen, joined_cons, List.append_assoc,
        cutLoop_field pre array _ i pre.length f.nonul (hcomma f List.mem_cons_self), cutLoop,
        List.cons_append, ← List.append_assoc pre]
      simp only [hload, hstore, storeAt_ok hi, bind, Except.bind]
      rw [List.append_assoc _ [0], List.singleton_append] at hcut
      simpa using hcut
    · rw [htext, cutText_cons f]
      simp only [List.append_assoc]
    · rw [hend, joined_cons, List.length_append, List.length_cons]
      omega
    · have hnext : starts pre.length (f :: g :: fields) =
          pre.length :: starts (pre.length + f.bytes.length + 1) (g :: fields) := rfl
      rw [hstarts, hnext, List.map_cons, overwrite_cons _ hi]

/-- **In the cut copy the fields are the strings at their places.** -/
theorem strAt_starts (pre : List UInt8) (fields : List CString) :
    List.Forall₂ (fun p f => strAt (pre ++ cutText fields) p = .ok f) (starts pre.length fields)
      fields := by
  induction fields generalizing pre with
  | nil => exact .nil
  | cons f fields ih =>
    have hrest := ih (pre ++ (f.bytes ++ [0]))
    have hcut : pre ++ (f.bytes ++ [0]) ++ cutText fields = pre ++ cutText (f :: fields) := by
      rw [cutText_cons, List.append_assoc]
    have hlen : (pre ++ (f.bytes ++ [0])).length = pre.length + f.length + 1 := by
      rw [List.length_append, List.length_append, ← Nat.add_assoc]
      rfl
    rw [hcut, hlen] at hrest
    refine .cons ?_ hrest
    have hstr := CString.ofBuffer_append f (cutText fields)
    rw [← hcut, strAt, List.append_assoc, List.drop_left, List.append_assoc, List.singleton_append,
      hstr]

/-! ## Copying -/

section Copy

variable {α : Type} {str : α → Except Fault CString} {strdup : ℕ → Bool}

/-- Behind the copies that there are the array is cleared. -/
theorem arrayEnd_eq (done : List CString) (rest : List (Option CString)) (num : ℕ) :
    arrayEnd (done.map some ++ none :: rest) num = .ok (num + done.length) := by
  induction done generalizing num with
  | nil => rfl
  | cons t done ih =>
    rw [List.map_cons, List.cons_append, arrayEnd, ih, List.length_cons, Nat.add_assoc,
      Nat.add_comm 1]

/-- **The loop copies the strings**, or releases the copies when it finds no memory. -/
theorem arraydupLoop_eq {ps : List α} {ts : List CString} (strdup : ℕ → Bool) (done : List CString)
    (array : List (Option α)) (hdrop : array.drop done.length = ps.map some)
    (hstr : List.Forall₂ (fun p t => str p = .ok t) ps ts) :
    arraydupLoop array str strdup ts.length done.length
        (done.map some ++ List.replicate (ts.length + 1) none) =
      .ok (if ∀ k < ts.length, strdup (done.length + k) = true then
        some ((done ++ ts).map some ++ [none]) else none) := by
  induction hstr generalizing done with
  | nil =>
    rw [List.length_nil, arraydupLoop, List.append_nil,
      if_pos fun k hk => absurd hk (Nat.not_lt_zero k)]
    rfl
  | @cons p t ps ts hp hps ih =>
    have hpointer : loadAt array done.length = .ok (some p) := by
      refine loadAt_ok ?_
      rw [← List.head?_drop, hdrop]
      rfl
    have hrest : array.drop (done ++ [t]).length = ps.map some := by
      rw [List.length_append, ← List.drop_drop, hdrop]
      rfl
    have hlen : (done.map some).length = done.length := List.length_map _
    rw [List.length_cons, arraydupLoop, List.replicate_succ]
    simp only [hpointer, hp, bind, Except.bind]
    cases hmem : strdup done.length with
    | false =>
      have hnone : storeAt (done.map some ++ none :: List.replicate (ts.length + 1) none)
          done.length none =
            .ok (done.map some ++ none :: List.replicate (ts.length + 1) none) := by
        rw [storeAt_ok (by simp), List.set_append_right _ _ hlen.le, hlen, Nat.sub_self,
          List.set_cons_zero]
      have hfail : ¬ ∀ k < ts.length + 1, strdup (done.length + k) = true := by
        intro hall
        have hzero := hall 0 (Nat.zero_lt_succ _)
        rw [Nat.add_zero, hmem] at hzero
        cases hzero
      rw [if_neg hfail, Bool.not_false, if_pos rfl]
      simp only [hnone, arrayEnd_eq]
    | true =>
      have hsome : storeAt (done.map some ++ none :: List.replicate (ts.length + 1) none)
          done.length (some t) =
            .ok ((done ++ [t]).map some ++ List.replicate (ts.length + 1) none) := by
        rw [storeAt_ok (by simp), List.set_append_right _ _ hlen.le, hlen, Nat.sub_self,
          List.set_cons_zero, List.map_append, List.append_assoc]
        rfl
      have hloop := ih (done ++ [t]) hrest
      have hall : (∀ k < ts.length, strdup ((done ++ [t]).length + k) = true) ↔
          ∀ k < ts.length + 1, strdup (done.length + k) = true := by
        rw [List.length_append, List.length_singleton]
        constructor
        · intro hall k hk
          cases k with
          | zero => exact hmem
          | succ k =>
            rw [Nat.add_comm k, ← Nat.add_assoc]
            exact hall k (Nat.lt_of_succ_lt_succ hk)
        · intro hall k hk
          rw [Nat.add_assoc, Nat.add_comm 1]
          exact hall (k + 1) (Nat.succ_lt_succ hk)
      rw [List.length_append, List.length_singleton] at hloop hall
      rw [Bool.not_true, if_neg (by decide)]
      simp only [hsome, hloop, hall, List.append_assoc, List.singleton_append]

/-- **`arraydup_cstring` of at least one string copies as many as it is told.** -/
theorem arraydupCstring_eq {ps : List α} {ts : List CString} (calloc : Bool) (strdup : ℕ → Bool)
    (hstr : List.Forall₂ (fun p t => str p = .ok t) ps ts) (hne : ts ≠ [])
    (hsize : ts.length + 1 < 2 ^ 31) :
    arraydupCstring (some (ps.map some)) ts.length str calloc strdup =
      .ok (if calloc = true ∧ ∀ k < ts.length, strdup k = true then some (ts.map some ++ [none])
        else none) := by
  have hnum : ts.length ≠ 0 := fun hzero => hne (List.length_eq_zero_iff.mp hzero)
  have hloop := arraydupLoop_eq strdup [] (ps.map some) rfl hstr
  simp only [List.length_nil, Nat.zero_add, List.map_nil, List.nil_append] at hloop
  rw [arraydupCstring]
  simp only [if_neg hnum, bind, Except.bind, if_neg (Nat.not_le.mpr hsize), Option.getD_some]
  cases calloc with
  | false => simp
  | true => simpa using hloop

end Copy

/-! ## Parsing -/

/-- All the allocations for `num` strings succeed. -/
def ArrayAlloc.Succeeds (alloc : ArrayAlloc) (num : ℕ) : Prop :=
  alloc.copy = true ∧ alloc.array = true ∧ alloc.dup = true ∧ ∀ k < num, alloc.strdup k = true

/-- The fields of a text are one more than its commas. -/
theorem exists_joined {l : List UInt8} (h : 0 ∉ l) :
    ∃ f fields, joined (f :: fields) = l ∧ (∀ g ∈ f :: fields, 44 ∉ g.bytes) ∧
      fields.length = l.count 44 := by
  induction l with
  | nil =>
    refine ⟨⟨[], by decide⟩, [], rfl, ?_, rfl⟩
    intro g hg
    rw [List.mem_singleton.mp hg]
    decide
  | cons c l ih =>
    obtain ⟨f, fields, hjoined, hcomma, hcount⟩ := ih fun hmem => h (List.mem_cons_of_mem c hmem)
    by_cases hc : c = 44
    · -- an empty field in front
      refine ⟨⟨[], by decide⟩, f :: fields, ?_, ?_, ?_⟩
      · rw [joined_cons, hjoined, hc]
        rfl
      · intro g hg
        rcases List.mem_cons.mp hg with rfl | hg
        · decide
        · exact hcomma g hg
      · rw [List.length_cons, hcount, hc, List.count_cons_self]
    · -- the first field is longer by a character
      have hnonul : 0 ∉ c :: f.bytes := by
        intro hmem
        rcases List.mem_cons.mp hmem with hzero | hmem
        · exact h (hzero ▸ List.mem_cons_self)
        · exact f.nonul hmem
      refine ⟨⟨c :: f.bytes, hnonul⟩, fields, ?_, ?_, ?_⟩
      · rw [← hjoined]
        cases fields with
        | nil => simp [joined]
        | cons g fields =>
          rw [joined_cons, joined_cons]
          rfl
      · intro g hg
        rcases List.mem_cons.mp hg with rfl | hg
        · intro hmem
          rcases List.mem_cons.mp hmem with hzero | hmem
          · exact hc hzero.symm
          · exact hcomma f List.mem_cons_self hmem
        · exact hcomma g (List.mem_cons_of_mem f hg)
      · rw [hcount, List.count_cons_of_ne hc]

section Parse

variable {s f : CString} {fields : List CString}

/-- The counting loop finds the number of the fields. -/
theorem countLoop_joined (hjoined : joined (f :: fields) = s.bytes)
    (hcount : fields.length = s.bytes.count 44) :
    countLoop (s.bytes ++ [0]) (s.bytes ++ [0]).length 0 0 =
      .ok (fields.length, (joined (f :: fields)).length) := by
  have hscan := countLoop_eq [] 0 s.nonul
  rw [List.nil_append, List.length_nil, Nat.zero_add, Nat.zero_add] at hscan
  rw [List.length_append, List.length_singleton, hcount, hjoined, hscan]

/-- **A string that is not empty is cut into its fields**, unless they are too many or there is no
memory for them. -/
theorem arrayparseCstring_eq (alloc : ArrayAlloc) (hne : s.bytes ≠ [])
    (hjoined : joined (f :: fields) = s.bytes) (hcomma : ∀ g ∈ f :: fields, 44 ∉ g.bytes)
    (hcount : fields.length = s.bytes.count 44) (hsize : fields.length + 2 < 2 ^ 31)
    [Decidable (alloc.Succeeds (fields.length + 1))] :
    arrayparseCstring s alloc =
      .ok (if alloc.Succeeds (fields.length + 1) then
        some ((f :: fields).map some ++ [none], fields.length + 1) else none) := by
  have hscan := countLoop_joined hjoined hcount
  have hend : (joined (f :: fields)).length ≠ 0 := by
    rw [hjoined]
    exact fun hzero => hne (List.length_eq_zero_iff.mp hzero)
  have hfew : ¬ 2 ^ 31 ≤ fields.length + 1 := by omega
  have hroom : 0 + fields.length + 1 ≤
      (List.replicate (fields.length + 1) (none : Option ℕ)).length := by
    rw [List.length_replicate]
    omega
  obtain ⟨cut, hcut, htext, hw2, hstarts⟩ := cutLoop_eq hcomma [] hroom
  rw [List.nil_append, List.length_nil] at hcut
  rw [List.nil_append] at htext
  rw [List.length_nil, Nat.zero_add] at hw2
  -- the array is filled
  have hfull : overwrite (List.replicate (fields.length + 1) none) 0
      ((starts 0 (f :: fields)).map some) = (starts 0 (f :: fields)).map some := by
    rw [overwrite_zero, List.length_map, length_starts, List.length_cons,
      List.drop_of_length_le (List.length_replicate ..).le, List.append_nil]
  rw [List.length_nil, hfull] at hstarts
  have hstr := strAt_starts [] (f :: fields)
  rw [List.nil_append, List.length_nil, ← htext] at hstr
  have hdup := arraydupCstring_eq alloc.dup alloc.strdup hstr (List.cons_ne_nil f fields)
    (by rw [List.length_cons]; omega)
  rw [List.length_cons] at hdup
  have hend' : cut.w2 ≠ 0 := hw2 ▸ hend
  rw [arrayparseCstring, ← hjoined]
  rw [← hjoined] at hscan
  have hlen : (joined (f :: fields) ++ [0]).length = (joined (f :: fields)).length + 1 := by
    rw [List.length_append, List.length_singleton]
  rw [hlen] at hscan
  cases hcopy : alloc.copy with
  | false =>
    have hfail : ¬ alloc.Succeeds (fields.length + 1) := fun hall => by
      rw [hall.1] at hcopy
      cases hcopy
    rw [if_neg hfail]
    rfl
  | true =>
    rw [Bool.not_true, if_neg (by decide)]
    simp only [hlen, hscan, bind, Except.bind, if_pos hend, if_neg hfew]
    cases harray : alloc.array with
    | false =>
      have hfail : ¬ alloc.Succeeds (fields.length + 1) := fun hall => by
        rw [hall.2.1] at harray
        cases harray
      rw [if_neg hfail]
      rfl
    | true =>
      rw [Bool.not_true, if_neg (by decide)]
      simp only [hcut, if_pos hend', hstarts, hdup]
      have hall : (alloc.dup = true ∧ ∀ k < fields.length + 1, alloc.strdup k = true) ↔
          alloc.Succeeds (fields.length + 1) :=
        ⟨fun h => ⟨hcopy, harray, h⟩, fun h => h.2.2⟩
      by_cases hok : alloc.Succeeds (fields.length + 1)
      · rw [if_pos hok, if_pos (hall.mpr hok)]
        rfl
      · rw [if_neg hok, if_neg fun h => hok (hall.mp h)]
        rfl

/-- The empty string is no fields for the array, but `arraydup_cstring` looks for its end. -/
theorem arrayparseCstring_empty (alloc : ArrayAlloc) (hempty : s.bytes = []) :
    arrayparseCstring s alloc =
      if alloc.copy = true ∧ alloc.array = true then .error .outOfBounds else .ok none := by
  rw [arrayparseCstring, hempty]
  cases alloc.copy with
  | false => rfl
  | true =>
    cases alloc.array with
    | false => rfl
    | true => rfl

/-- As many strings as there are `int`s are too many together with a `NULL`. -/
theorem arraydupCstring_overflow {α : Type} (array : List (Option α)) {num : ℕ}
    (str : α → Except Fault CString) (calloc : Bool) (strdup : ℕ → Bool) (hnum : num ≠ 0)
    (hsize : 2 ^ 31 ≤ num + 1) :
    arraydupCstring (some array) num str calloc strdup = .error .outOfBounds := by
  rw [arraydupCstring]
  simp only [if_neg hnum, bind, Except.bind, if_pos hsize]

/-- A string with too many commas is not parsed. -/
theorem arrayparseCstring_overflow (alloc : ArrayAlloc) (hne : s.bytes ≠ [])
    (hjoined : joined (f :: fields) = s.bytes) (hcount : fields.length = s.bytes.count 44)
    (hsize : 2 ^ 31 ≤ fields.length + 2) (r : List (Option CString) × ℕ) :
    arrayparseCstring s alloc ≠ .ok (some r) := by
  have hscan := countLoop_joined hjoined hcount
  have hend : (joined (f :: fields)).length ≠ 0 := by
    rw [hjoined]
    exact fun hzero => hne (List.length_eq_zero_iff.mp hzero)
  intro h
  rw [arrayparseCstring] at h
  simp only [hscan, bind, Except.bind, if_pos hend] at h
  split at h
  · cases h
  · split at h
    · cases h
    · split at h
      · cases h
      · -- whatever the array is, it is not copied
        split at h
        · cases h
        · split at h
          · split at h
            · cases h
            · rw [arraydupCstring_overflow _ _ _ _ (Nat.succ_ne_zero _) hsize] at h
              cases h
          · rw [arraydupCstring_overflow _ _ _ _ (Nat.succ_ne_zero _) hsize] at h
            cases h

end Parse

/-- `arrayparse_cstring` returns the fields of the string with a `NULL` behind them, and their
number; or `NULL` where there is no memory for them. -/
def ParsesFields (s : CString) : Prop :=
  ∃ fields : List CString,
    fields.map CString.bytes = (if s.bytes = [] then [] else s.bytes.splitOn 44) ∧
      fields.length = (if s.bytes = [] then 0 else s.bytes.count 44 + 1) ∧
      [44].intercalate (fields.map CString.bytes) = s.bytes ∧
      ∀ alloc : ArrayAlloc,
        (alloc.Succeeds fields.length →
          arrayparseCstring s alloc = .ok (some (fields.map some ++ [none], fields.length))) ∧
        (¬ alloc.Succeeds fields.length → arrayparseCstring s alloc = .ok none)

/-- There is memory for everything. -/
def allAlloc : ArrayAlloc := ⟨true, true, true, fun _ => true⟩

theorem allAlloc_succeeds (num : ℕ) : allAlloc.Succeeds num :=
  ⟨rfl, rfl, rfl, fun _ _ => rfl⟩

theorem not_parsesFields_of_empty {s : CString} (hempty : s.bytes = []) : ¬ ParsesFields s := by
  rintro ⟨fields, -, -, -, hparse⟩
  have hall := (hparse allAlloc).1 (allAlloc_succeeds _)
  rw [arrayparseCstring_empty allAlloc hempty, if_pos ⟨rfl, rfl⟩] at hall
  cases hall

/-- **`arrayparse_cstring` does what it is for on every string but the empty one**, as long as the
fields can be counted. -/
theorem parsesFields_iff (s : CString) :
    ParsesFields s ↔ s.bytes ≠ [] ∧ s.bytes.count 44 + 2 < 2 ^ 31 := by
  classical
  by_cases hne : s.bytes = []
  · exact iff_of_false (not_parsesFields_of_empty hne) fun h => h.1 hne
  · obtain ⟨f, fields, hjoined, hcomma, hcount⟩ := exists_joined s.nonul
    rw [← hcount]
    constructor
    · rintro ⟨fields', -, -, -, hparse⟩
      refine ⟨hne, ?_⟩
      by_contra hbig
      exact arrayparseCstring_overflow allAlloc hne hjoined hcount (Nat.le_of_not_lt hbig) _
        ((hparse allAlloc).1 (allAlloc_succeeds _))
    · rintro ⟨-, hsize⟩
      refine ⟨f :: fields, ?_, ?_, hjoined, fun alloc => ?_⟩
      · have hfields : ∀ l ∈ (f :: fields).map CString.bytes, 44 ∉ l := by simpa using hcomma
        have hsplit := List.splitOn_intercalate 44 hfields (by simp)
        rw [if_neg hne, ← hsplit, ← joined, hjoined]
      · rw [if_neg hne, List.length_cons, hcount]
      · rw [arrayparseCstring_eq alloc hne hjoined hcomma hcount hsize, List.length_cons]
        exact ⟨fun hall => by rw [if_pos hall], fun hfail => by rw [if_neg hfail]⟩

/-- For the empty string an array without a cell is read. -/
theorem not_parsesFields_empty :
    ¬ ParsesFields ⟨[], by decide⟩ ∧
      arrayparseCstring ⟨[], by decide⟩ allAlloc = .error .outOfBounds :=
  ⟨not_parsesFields_of_empty rfl, rfl⟩

end Propd
