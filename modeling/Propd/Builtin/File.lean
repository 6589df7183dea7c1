import Propd.Lib.LastWrite
import Propd.Core.Storage
import Propd.Wire.Package
import Mathlib.Logic.Function.Basic

/-!
# The file storage

`file.c`: a value is kept in a file of its own, under the root directory of the storage and by
the name of its key, as the bytes of its `value_t`. It is written with one `fwrite` and read
with two `fread`, the head and then the data.

What the operating system does is a parameter of each operation. Paths name files, several of
them perhaps the same one (`a` and `./a`), and which they name is fixed: the storage makes no
directories and no links.
-/

namespace Propd

open Lib

/-- The sizes of the path buffers: of `file_get`, and of `file_set` and `file_del`. -/
def PATH_MAX : ℕ := 4096

def setPathSize : ℕ := 256

/-- `sizeof(value_t)` -/
def sizeofValue : ℕ := valueHeadCode.width

/-- What the files hold. -/
abbrev Files (F : Type) := F → Option (List UInt8)

/-- How one operation is served: `denied` is the error of `fopen` or `unlink`, after `limit` bytes
a stream has an error, `alloc` tells whether the `malloc` succeeds. -/
structure FileIo where
  denied : Option Errno
  limit : Option ℕ
  alloc : Bool

/-- Everything is performed. -/
def FileIo.all : FileIo := ⟨none, none, true⟩

/-- The bytes that pass through a stream. -/
def FileIo.pass (io : FileIo) (bytes : List UInt8) : List UInt8 :=
  match io.limit with
  | none => bytes
  | some n => bytes.take n

/-- What `fread` and `fwrite` return: how many of the `nmemb` items of `size` bytes are among the
`avail` bytes that pass. For items of no bytes they return `0`. -/
def stdioItems (size nmemb avail : ℕ) : ℕ :=
  if size = 0 then 0 else min nmemb (avail / size)

theorem nonul_slash : (0 : UInt8) ∉ [47] := by decide

/-- `snprintf(path, size, "%s/%s", root, key)` -/
def filePath (size : ℕ) (root key : CString) : CString :=
  ((root.append ⟨[47], nonul_slash⟩).append key).take (size - 1)

section Operations

variable {F : Type} [DecidableEq F] (names : CString → F) (files : Files F) (root key : CString)

/-- `file_get` -/
def fileGet (io : FileIo) : GetResult :=
  match io.denied with
  | some e => .error e
  | none =>
    match files (names (filePath PATH_MAX root key)) with
    | none => .error ENOENT
    | some content =>
      let stream := io.pass content
      if stdioItems sizeofValue 1 stream.length ≠ 1 then .error EIO
      else if !io.alloc then .error ENOMEM
      else
        let head := valueHeadCode.decode (stream.take sizeofValue)
        let rest := stream.drop sizeofValue
        if stdioItems head.length.toNat 1 rest.length ≠ 1 then .error EIO
        else
          .ok (⟨head.type, rest.take head.length.toNat,
            (List.length_take_le _ _).trans_lt head.length.toNat_lt⟩, 0)

/-- `file_set`. The file is emptied before it is written. -/
def fileSet (value : Value) (io : FileIo) : Files F × SetResult :=
  match io.denied with
  | some e => (files, .error e)
  | none =>
    let written := io.pass value.encode
    (Function.update files (names (filePath setPathSize root key)) (some written),
      if stdioItems (sizeofValue + value.length) 1 written.length ≠ 1 then .error EIO else .ok ())

/-- `file_del` -/
def fileDel (io : FileIo) : Files F × SetResult :=
  match io.denied with
  | some e => (files, .error e)
  | none =>
    match files (names (filePath setPathSize root key)) with
    | none => (files, .error ENOENT)
    | some _ => (Function.update files (names (filePath setPathSize root key)) none, .ok ())

end Operations

/-! ## What is read is what was written -/

/-- One item is there where it has bytes and all of them pass. -/
theorem stdioItems_one {size avail : ℕ} : stdioItems size 1 avail = 1 ↔ size ≠ 0 ∧ size ≤ avail := by
  unfold stdioItems
  by_cases h : size = 0
  · simp [h]
  · rw [if_neg h, min_eq_left_iff, Nat.one_le_div_iff (Nat.pos_of_ne_zero h)]
    exact ⟨fun hle => ⟨h, hle⟩, fun hle => hle.2⟩

theorem Value.length_encode (v : Value) : v.encode.length = sizeofValue + v.length := by
  rw [encode, List.length_append, valueHeadCode.length_encode]
  rfl

/-- Different values have different bytes. -/
theorem Value.encode_injective : Function.Injective Value.encode := by
  intro u v h
  have hv : v.head = valueHeadCode.decode (valueHeadCode.encode v.head) :=
    (valueHeadCode.decode_encode _).symm
  have hbytes : valueHeadCode.encode v.head ++ (v.data ++ []) = u.encode ++ [] := by
    rw [List.append_nil, List.append_nil, h]
    rfl
  exact (Value.encode_inj (valueHeadCode.length_encode _) hv hbytes).1.symm

/-- A path that is short enough is the same one for all operations. -/
theorem filePath_of_lt {root key : CString} {size : ℕ} (h : root.length + 1 + key.length < size) :
    filePath size root key = (root.append ⟨[47], by decide⟩).append key := by
  refine CString.ext (List.take_of_length_le ?_)
  have hlen : ((root.append ⟨[47], by decide⟩).append key).bytes.length =
      root.length + 1 + key.length := by
    simp only [CString.append, CString.length, List.length_append, List.length_singleton]
  rw [hlen]
  exact Nat.le_sub_one_of_lt h

section Contents

variable {F : Type} [DecidableEq F] {names : CString → F} {files : Files F} {root key : CString}
  {v : Value}

omit [DecidableEq F] in
/-- **What `file_get` makes of a value's file**, with or without memory for the value: a value
without data is not read. -/
theorem fileGet_encode (h : files (names (filePath PATH_MAX root key)) = some v.encode)
    (alloc : Bool) :
    fileGet names files root key ⟨none, none, alloc⟩ =
      if !alloc then .error ENOMEM else if v.data = [] then .error EIO else .ok (v, 0) := by
  have htake : v.encode.take sizeofValue = valueHeadCode.encode v.head :=
    List.take_left' (valueHeadCode.length_encode _)
  have hdrop : v.encode.drop sizeofValue = v.data :=
    List.drop_left' (valueHeadCode.length_encode _)
  have hhead : stdioItems sizeofValue 1 v.encode.length = 1 :=
    stdioItems_one.mpr ⟨by decide, by rw [v.length_encode]; exact Nat.le_add_right _ _⟩
  unfold fileGet
  simp only [h, FileIo.pass, hhead, not_true_eq_false, if_false, htake, hdrop,
    valueHeadCode.decode_encode, v.head_length, ne_eq]
  cases alloc with
  | false => rfl
  | true =>
    simp only [Bool.not_true, Bool.false_eq_true, if_false]
    by_cases hdata : v.data = []
    · -- an item of no bytes
      have hzero : stdioItems v.data.length 1 v.data.length ≠ 1 := by simp [stdioItems, hdata]
      rw [if_pos hzero, if_pos hdata]
    · have hone : stdioItems v.data.length 1 v.data.length = 1 :=
        stdioItems_one.mpr ⟨fun hlen => hdata (List.length_eq_zero_iff.mp hlen), le_rfl⟩
      rw [if_neg (not_not.mpr hone), if_neg hdata]
      exact congrArg (fun v : Value => Except.ok (v, (0 : Timestamp)))
        (Value.ext rfl List.take_length)

/-- A set that is performed returns 0 and leaves the bytes of the value in the file. -/
theorem fileSet_all :
    fileSet names files root key v .all =
      (Function.update files (names (filePath setPathSize root key)) (some v.encode), .ok ()) := by
  have hone : stdioItems (sizeofValue + v.length) 1 v.encode.length = 1 := by
    refine stdioItems_one.mpr ⟨?_, v.length_encode.ge⟩
    have hpos : sizeofValue ≠ 0 := by decide
    omega
  unfold fileSet
  simp only [FileIo.all, FileIo.pass, hone, ne_eq, not_true_eq_false, if_false]

end Contents

/-! ## Runs -/

/-- An operation of a file storage; several storages may share the files. -/
inductive FileOp
  | get (root key : CString)
  | set (root key : CString) (value : Value)
  | del (root key : CString)
  deriving DecidableEq

section Runs

variable {F : Type} [DecidableEq F] (names : CString → F)

/-- What an operation that is performed does to the files. -/
def FileOp.run (files : Files F) : FileOp → Files F
  | get _ _ => files
  | set root key value => (fileSet names files root key value .all).1
  | del root key => (fileDel names files root key .all).1

/-- What an operation writes to a file: a value, or that there is none. -/
def FileOp.writes (file : F) : FileOp → Option (Option Value)
  | get _ _ => none
  | set root key value =>
    if names (filePath setPathSize root key) = file then some (some value) else none
  | del root key => if names (filePath setPathSize root key) = file then some none else none

/-- Nothing else has been written to the file of a key: the last operation that set or removed it,
if there was one, set the same value. -/
def FileOp.Keep (root key : CString) (v : Value) (ops : List FileOp) : Prop :=
  ∀ c, lastWrite (FileOp.writes names (names (filePath setPathSize root key))) ops = some c →
    c = some v

variable {names}

/-- A file holds the last value that was written to it. -/
theorem FileOp.run_file (file : F) (files : Files F) (op : FileOp) :
    op.run names files file =
      ((op.writes names file).map (Option.map Value.encode)).getD (files file) := by
  cases op with
  | get root key => rfl
  | set root key value =>
    rw [run, fileSet_all, writes]
    show Function.update files _ _ file = _
    by_cases h : names (filePath setPathSize root key) = file
    · rw [if_pos h, ← h, Function.update_self]
      rfl
    · rw [if_neg h, Function.update_of_ne (Ne.symm h)]
      rfl
  | del root key =>
    unfold run fileDel writes
    simp only [FileIo.all]
    by_cases h : names (filePath setPathSize root key) = file
    · subst h
      rw [if_pos rfl]
      cases hfile : files (names (filePath setPathSize root key)) with
      | none => exact hfile
      | some content => exact Function.update_self ..
    · rw [if_neg h]
      cases files (names (filePath setPathSize root key)) with
      | none => rfl
      | some content => exact Function.update_of_ne (Ne.symm h) ..

variable (names) in
/-- After a set and further operations, the file of the key holds the last value written to it. -/
theorem FileOp.file_after_set (files : Files F) {root key : CString} (v : Value)
    (ops : List FileOp) (hpath : root.length + 1 + key.length < setPathSize) :
    ops.foldl (run names) (fileSet names files root key v .all).1
        (names (filePath PATH_MAX root key)) =
      ((lastWrite (writes names (names (filePath setPathSize root key))) ops).map
        (Option.map Value.encode)).getD (some v.encode) := by
  -- set and get have buffers of their own for the path, and the path fits both
  have hsame : filePath PATH_MAX root key = filePath setPathSize root key := by
    rw [filePath_of_lt hpath, filePath_of_lt (hpath.trans (by decide))]
  have hset : (fileSet names files root key v .all).1 (names (filePath setPathSize root key)) =
      some v.encode := by
    rw [fileSet_all]
    exact Function.update_self ..
  rw [hsame, cell_foldl (fun files : Files F => files (names (filePath setPathSize root key)))
    (fun files op => run_file _ files op), hset]

omit [DecidableEq F] in
/-- A get of a value that a file holds: it needs data, and memory for it. -/
theorem fileGet_encode_iff {files : Files F} {root key : CString} {u v : Value} {alloc : Bool}
    (h : files (names (filePath PATH_MAX root key)) = some u.encode) :
    fileGet names files root key ⟨none, none, alloc⟩ = .ok (v, 0) ↔
      v.data ≠ [] ∧ alloc = true ∧ u = v := by
  rw [fileGet_encode h]
  cases alloc with
  | false => simp
  | true =>
    by_cases hdata : u.data = []
    · simp only [Bool.not_true, Bool.false_eq_true, if_false, hdata, if_true]
      refine iff_of_false nofun ?_
      rintro ⟨hne, -, rfl⟩
      exact hne hdata
    · simp only [Bool.not_true, Bool.false_eq_true, if_false, hdata]
      constructor
      · intro heq
        cases heq
        exact ⟨hdata, trivial, rfl⟩
      · rintro ⟨-, -, rfl⟩
        rfl

/-- **The file storage returns what was set**: a set that is performed returns 0, and after any
operations a get returns the value exactly where the value has data, there is memory for it
and nothing else has been written to its file. -/
theorem file_get_set_iff {files : Files F} {root key : CString} {v : Value} {ops : List FileOp}
    {alloc : Bool} (hpath : root.length + 1 + key.length < setPathSize) :
    (fileSet names files root key v .all).2 = .ok () ∧
      (fileGet names (ops.foldl (FileOp.run names) (fileSet names files root key v .all).1)
          root key ⟨none, none, alloc⟩ = .ok (v, 0) ↔
        v.data ≠ [] ∧ alloc = true ∧ FileOp.Keep names root key v ops) := by
  constructor
  · rw [fileSet_all]
  have hcell := FileOp.file_after_set names files v ops hpath
  unfold FileOp.Keep
  cases hlast : lastWrite (FileOp.writes names (names (filePath setPathSize root key))) ops with
  | none =>
    rw [hlast] at hcell
    rw [fileGet_encode_iff hcell]
    simp
  | some c =>
    rw [hlast] at hcell
    cases c with
    | none =>
      -- the file was removed
      refine iff_of_false ?_ ?_
      · intro hget
        unfold fileGet at hget
        rw [show _ = none from hcell] at hget
        cases hget
      · rintro ⟨-, -, hkeep⟩
        cases hkeep none rfl
    | some u =>
      rw [fileGet_encode_iff hcell]
      simp

/-- A value of four bytes, with a get, and a set of another key, in between. -/
theorem file_get_set_iff_u32 :
    fileGet id ([.get ⟨[100], by decide⟩ exampleKey,
          .set ⟨[100], by decide⟩ ⟨[108], by decide⟩ exampleValue].foldl (FileOp.run id)
        (fileSet id (fun _ => none) ⟨[100], by decide⟩ exampleKey exampleValue .all).1)
      ⟨[100], by decide⟩ exampleKey .all = .ok (exampleValue, 0) := by
  have hlast : lastWrite (FileOp.writes id (filePath setPathSize ⟨[100], by decide⟩ exampleKey))
      [.get ⟨[100], by decide⟩ exampleKey,
        .set ⟨[100], by decide⟩ ⟨[108], by decide⟩ exampleValue] = none := by decide
  refine (file_get_set_iff (by decide)).2.mpr ⟨by decide, rfl, ?_⟩
  intro c hc
  cases hlast.symm.trans hc

/-- `data:` is a value without data: it is set, and cannot be got. -/
theorem file_get_set_empty :
    (fileSet id (fun _ => none) ⟨[100], by decide⟩ exampleKey ⟨ValueType.data, [], by decide⟩
        .all).2 = .ok () ∧
      fileGet id (fileSet id (fun _ => none) ⟨[100], by decide⟩ exampleKey
          ⟨ValueType.data, [], by decide⟩ .all).1
        ⟨[100], by decide⟩ exampleKey .all = .error EIO :=
  ⟨rfl, rfl⟩

end Runs

end Propd
