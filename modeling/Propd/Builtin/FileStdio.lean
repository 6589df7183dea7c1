import Propd.Builtin.File
import Propd.Core.Io

/-!
# Sets that fail on the way

`file_set` opens the file, which empties it, writes the value into a buffer and closes the file,
which flushes the buffer. Each of the three can fail after the one before it has changed the file.
The status of `fclose` is not looked at.
-/

namespace Propd

/-- How the calls of one `file_set` come out: the error of `fopen`, how many bytes `fwrite`
accepts, and how many of these are in the file after `fclose`. -/
structure StdioSet where
  denied : Option Errno
  accepted : ℕ
  flushed : ℕ

/-- The size of the one item that `file_set` writes. -/
def itemSize (value : Value) : ℕ := sizeofValue + value.length

section Set

variable {F : Type} [DecidableEq F] (names : CString → F) (files : Files F) (root key : CString)

/-- `file_set`, with its stream. -/
def fileSetStdio (value : Value) (io : StdioSet) : Files F × SetResult :=
  match io.denied with
  | some e => (files, .error e)
  | none =>
    let file := names (filePath setPathSize root key)
    let emptied := Function.update files file (some [])
    let buffer := value.encode.take io.accepted
    let ret : SetResult :=
      if stdioItems (itemSize value) 1 buffer.length ≠ 1 then .error EIO else .ok ()
    (Function.update emptied file (some (buffer.take io.flushed)), ret)

/-- Every value the cache has is the one that the file of its key holds. -/
def CacheAgrees (cache : Option Cache) : Prop :=
  ∀ c, cache = some c → ∀ key item, c.tree key = some item →
    ∃ v, item.value = some v ∧ files (names (filePath PATH_MAX root key)) = some v.encode

/-- A set that returns 0 has written the value. One that does not has left the file, what gets
return, and, if it was called by `io_set`, the agreement of cache and files. -/
structure SetsOrKeeps (value : Value) (io : StdioSet) : Prop where
  done : (fileSetStdio names files root key value io).2 = .ok () →
    (fileSetStdio names files root key value io).1 (names (filePath setPathSize root key)) =
      some value.encode
  kept : ∀ e, (fileSetStdio names files root key value io).2 = .error e →
    (fileSetStdio names files root key value io).1 (names (filePath setPathSize root key)) =
      files (names (filePath setPathSize root key))
  gets : ∀ e, (fileSetStdio names files root key value io).2 = .error e →
    ∀ key' io', fileGet names (fileSetStdio names files root key value io).1 root key' io' =
      fileGet names files root key' io'
  agree : ∀ (ctx ctx' : IoCtx) (files' : Files F) (now : Timestamp) (a : IoAlloc) (e : Errno),
    CacheAgrees names files root ctx.cache →
      ioSet ctx key value now a (fun _ => .ok (fileSetStdio names files root key value io)) files =
          .ok (ctx', files', .error e) →
        CacheAgrees names files' root ctx'.cache

/-- The set is refused before the file is touched, or all of the value gets into the file, or what
`fwrite` accepts of it leaves in the file just what was there. -/
def LosesNothing (value : Value) (io : StdioSet) : Prop :=
  io.denied ≠ none ∨ (itemSize value ≤ io.accepted ∧ itemSize value ≤ io.flushed) ∨
    (io.accepted < itemSize value ∧ files (names (filePath setPathSize root key)) =
      some (value.encode.take (min io.accepted io.flushed)))

end Set

/-! ## What a set leaves -/

section Results

variable {F : Type} [DecidableEq F] {names : CString → F} {files : Files F} {root key : CString}
  {value : Value} {io : StdioSet}

/-- Past `fopen` the status tells what was accepted. -/
theorem fileSetStdio_ret (h : io.denied = none) :
    (fileSetStdio names files root key value io).2 =
      if itemSize value ≤ io.accepted then .ok () else .error EIO := by
  have hone : stdioItems (itemSize value) 1 (value.encode.take io.accepted).length = 1 ↔
      itemSize value ≤ io.accepted := by
    rw [stdioItems_one, List.length_take, value.length_encode, itemSize]
    have hpos : sizeofValue ≠ 0 := by decide
    omega
  unfold fileSetStdio
  simp only [h, ne_eq, hone, ite_not]

/-- Past `fopen` the file has what was accepted and flushed. -/
theorem fileSetStdio_files (h : io.denied = none) :
    (fileSetStdio names files root key value io).1 =
      Function.update files (names (filePath setPathSize root key))
        (some (value.encode.take (min io.accepted io.flushed))) := by
  unfold fileSetStdio
  simp only [h, Function.update_idem, List.take_take]
  rw [Nat.min_comm]

theorem fileSetStdio_file (h : io.denied = none) :
    (fileSetStdio names files root key value io).1 (names (filePath setPathSize root key)) =
      some (value.encode.take (min io.accepted io.flushed)) := by
  rw [fileSetStdio_files h]
  exact Function.update_self ..

/-- With a buffer that is flushed it is the set that the runs of the storage are made of. -/
theorem fileSetStdio_flushed (h : io.accepted ≤ io.flushed) (alloc : Bool) :
    fileSetStdio names files root key value io =
      fileSet names files root key value ⟨io.denied, some io.accepted, alloc⟩ := by
  unfold fileSet
  cases hdenied : io.denied with
  | some e =>
    unfold fileSetStdio
    rw [hdenied]
  | none =>
    unfold fileSetStdio
    simp only [hdenied, FileIo.pass, Function.update_idem, List.take_take, Nat.min_eq_right h]
    rfl

/-- A set that fails and keeps its file keeps all files. -/
theorem fileSetStdio_kept {e : Errno}
    (h : (fileSetStdio names files root key value io).2 = .error e →
      (fileSetStdio names files root key value io).1 (names (filePath setPathSize root key)) =
        files (names (filePath setPathSize root key)))
    (hret : (fileSetStdio names files root key value io).2 = .error e) :
    (fileSetStdio names files root key value io).1 = files := by
  have hkept := h hret
  cases hdenied : io.denied with
  | some e' =>
    unfold fileSetStdio
    rw [hdenied]
  | none =>
    rw [fileSetStdio_file hdenied] at hkept
    rw [fileSetStdio_files hdenied, hkept, Function.update_eq_self]

/-- A failed `io_set` has the cache it had, and the files it had or those of the failed set. -/
theorem ioSet_failed {ctx ctx' : IoCtx} {files' : Files F} {now : Timestamp} {a : IoAlloc}
    {e : Errno}
    (h : ioSet ctx key value now a (fun _ => .ok (fileSetStdio names files root key value io))
        files = .ok (ctx', files', .error e)) :
    ctx'.cache = ctx.cache ∧
      (files' = files ∨ fileSetStdio names files root key value io = (files', .error e)) := by
  rcases ioSet_ok h with ⟨rfl, rfl, -⟩ | ⟨item, -, -, hcall, hfill⟩
  · exact ⟨rfl, .inl rfl⟩
  · rcases hfill with ⟨hcache, -⟩ | ⟨x, hx, -⟩
    · exact ⟨hcache, .inr (Except.ok.inj hcall)⟩
    · cases hx

/-- A set that keeps its promise loses nothing. -/
theorem SetsOrKeeps.losesNothing (h : SetsOrKeeps names files root key value io) :
    LosesNothing names files root key value io := by
  unfold LosesNothing
  rw [or_iff_not_imp_left, not_not]
  intro hopened
  by_cases hall : itemSize value ≤ io.accepted
  · -- it returns 0, so the file must have the whole value
    have hdone := h.done (by rw [fileSetStdio_ret hopened, if_pos hall])
    rw [fileSetStdio_file hopened, Option.some.injEq] at hdone
    have hcount := congrArg List.length hdone
    rw [List.length_take, value.length_encode] at hcount
    refine .inl ⟨hall, ?_⟩
    unfold itemSize at *
    omega
  · -- it returns an error, so the file must be the one it was
    have hkept := h.kept EIO (by rw [fileSetStdio_ret hopened, if_neg hall])
    rw [fileSetStdio_file hopened] at hkept
    exact .inr ⟨Nat.lt_of_not_le hall, hkept.symm⟩

/-- With nothing lost a 0 means that the value is written. -/
theorem LosesNothing.done (h : LosesNothing names files root key value io)
    (hret : (fileSetStdio names files root key value io).2 = .ok ()) :
    (fileSetStdio names files root key value io).1 (names (filePath setPathSize root key)) =
      some value.encode := by
  cases hdenied : io.denied with
  | some e =>
    unfold fileSetStdio at hret
    rw [hdenied] at hret
    cases hret
  | none =>
    rw [fileSetStdio_ret hdenied] at hret
    rcases h with hne | ⟨hall, hflushed⟩ | ⟨hshort, -⟩
    · exact absurd hdenied hne
    · rw [fileSetStdio_file hdenied, List.take_of_length_le]
      rw [value.length_encode]
      exact Nat.le_min.mpr ⟨hall, hflushed⟩
    · rw [if_neg (Nat.not_le.mpr hshort)] at hret
      cases hret

/-- An error of a set that loses nothing means that the file is as it was. -/
theorem LosesNothing.kept (h : LosesNothing names files root key value io) {e : Errno}
    (hret : (fileSetStdio names files root key value io).2 = .error e) :
    (fileSetStdio names files root key value io).1 (names (filePath setPathSize root key)) =
      files (names (filePath setPathSize root key)) := by
  cases hdenied : io.denied with
  | some e' =>
    unfold fileSetStdio
    rw [hdenied]
  | none =>
    rw [fileSetStdio_ret hdenied] at hret
    rcases h with hne | ⟨hall, -⟩ | ⟨-, hold⟩
    · exact absurd hdenied hne
    · rw [if_pos hall] at hret
      cases hret
    · rw [fileSetStdio_file hdenied, hold]

/-- **A set writes the value or leaves the file exactly where nothing is lost on the way.** -/
theorem fileSet_setsOrKeeps_iff :
    SetsOrKeeps names files root key value io ↔ LosesNothing names files root key value io := by
  constructor
  · exact SetsOrKeeps.losesNothing
  · intro h
    -- the file that is kept is the only one that could change
    have hsame : ∀ e, (fileSetStdio names files root key value io).2 = .error e →
        (fileSetStdio names files root key value io).1 = files :=
      fun e hret => fileSetStdio_kept h.kept hret
    refine ⟨h.done, fun e => h.kept, ?_, ?_⟩
    · intro e hret key' io'
      rw [hsame e hret]
    · intro ctx ctx' files' now a e hagrees hio
      obtain ⟨hcache, rfl | hset⟩ := ioSet_failed hio
      · rw [hcache]
        exact hagrees
      · have hfiles := hsame e (by rw [hset])
        rw [hset] at hfiles
        rw [hcache, show files' = files from hfiles]
        exact hagrees

end Results

section Example

/-- The file `d/k` holds the example value, and a value of four bytes is set. -/
def exampleFiles : Files CString :=
  (fileSet id (fun _ => none) ⟨[100], by decide⟩ exampleKey exampleValue .all).1

def otherValue : Value := ⟨ValueType.u32, [2, 0, 0, 0], by decide⟩

/-- The buffer cannot be flushed, and the set returns 0. -/
theorem fileSet_loses_flush :
    ∃ files, fileSetStdio id exampleFiles ⟨[100], by decide⟩ exampleKey otherValue ⟨none, 9, 0⟩ =
        (files, .ok ()) ∧
      fileGet id files ⟨[100], by decide⟩ exampleKey .all = .error EIO ∧
      ¬SetsOrKeeps id exampleFiles ⟨[100], by decide⟩ exampleKey otherValue ⟨none, 9, 0⟩ := by
  refine ⟨_, rfl, rfl, fun h => ?_⟩
  exact absurd (h.done rfl) (by decide)

/-- Two bytes are accepted: the set fails, and leaves neither value. -/
theorem fileSet_loses_write :
    fileGet id exampleFiles ⟨[100], by decide⟩ exampleKey .all = .ok (exampleValue, 0) ∧
      ∃ files, fileSetStdio id exampleFiles ⟨[100], by decide⟩ exampleKey otherValue ⟨none, 2, 2⟩ =
          (files, .error EIO) ∧
        fileGet id files ⟨[100], by decide⟩ exampleKey .all = .error EIO ∧
        ¬SetsOrKeeps id exampleFiles ⟨[100], by decide⟩ exampleKey otherValue ⟨none, 2, 2⟩ := by
  refine ⟨rfl, _, rfl, rfl, fun h => ?_⟩
  exact absurd (h.kept EIO rfl) (by decide)

end Example

end Propd
