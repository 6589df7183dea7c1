import Propd.Builtin.File

/-!
# A file for every key

Each operation of the file storage builds its own path into its own buffer. All keys have files of
their own where the three buffers hold the whole path.

The directory is any one in which different names are different files. `file_set` and `file_del`
have the shorter buffer.
-/

namespace Propd

/-- A name a file of a directory can have. -/
structure IsEntryName (key : CString) : Prop where
  slash : (47 : UInt8) ∉ key.bytes
  nonempty : key.bytes ≠ []
  dot : key.bytes ≠ [46]
  dotdot : key.bytes ≠ [46, 46]

instance (key : CString) : Decidable (IsEntryName key) :=
  decidable_of_iff ((47 : UInt8) ∉ key.bytes ∧ key.bytes ≠ [] ∧ key.bytes ≠ [46] ∧
      key.bytes ≠ [46, 46])
    ⟨fun h => ⟨h.1, h.2.1, h.2.2.1, h.2.2.2⟩, fun h => ⟨h.slash, h.nonempty, h.dot, h.dotdot⟩⟩

/-- The path of a key, whole. -/
def entryPath (root key : CString) : CString :=
  (root.append ⟨[47], nonul_slash⟩).append key

/-- The file system takes the key for a name in the directory: it is one, and neither it nor its
path is too long. -/
structure Accepts (root key : CString) : Prop where
  name : IsEntryName key
  short : key.length ≤ NAME_MAX
  path : (entryPath root key).length < PATH_MAX

/-- Different names of the directory are different files. -/
def OneFilePerName {F : Type} (names : CString → F) (root : CString) : Prop :=
  ∀ key₁ key₂, IsEntryName key₁ → IsEntryName key₂ → key₁ ≠ key₂ →
    names (entryPath root key₁) ≠ names (entryPath root key₂)

/-- A set or del of one key that succeeds leaves what a get of the other returns. -/
def LeavesOther {F : Type} [DecidableEq F] (names : CString → F) (root key other : CString) :
    Prop :=
  (∀ files files' value io, fileSet names files root key value io = (files', .ok ()) →
      ∀ io', fileGet names files' root other io' = fileGet names files root other io') ∧
    ∀ files files' io, fileDel names files root key io = (files', .ok ()) →
      ∀ io', fileGet names files' root other io' = fileGet names files root other io'

/-- Whatever the files are: the operations on one key have one file, those on different keys have
different ones and leave each other alone. -/
structure KeysHaveFiles (root key₁ key₂ : CString) : Prop where
  same : ∀ {F : Type} (names : CString → F), OneFilePerName names root → ∀ key ∈ [key₁, key₂],
    names (filePath PATH_MAX root key) = names (filePath setPathSize root key)
  distinct : key₁ ≠ key₂ → ∀ {F : Type} (names : CString → F), OneFilePerName names root →
    ∀ size₁ ∈ [PATH_MAX, setPathSize], ∀ size₂ ∈ [PATH_MAX, setPathSize],
      names (filePath size₁ root key₁) ≠ names (filePath size₂ root key₂)
  frame : key₁ ≠ key₂ → ∀ {F : Type} [DecidableEq F] (names : CString → F),
    OneFilePerName names root → LeavesOther names root key₁ key₂ ∧ LeavesOther names root key₂ key₁

/-! ## Paths -/

theorem length_entryPath (root key : CString) :
    (entryPath root key).length = root.length + 1 + key.length := by
  simp only [entryPath, CString.append, CString.length, List.length_append, List.length_singleton]

theorem length_filePath (size : ℕ) (root key : CString) :
    (filePath size root key).length = min (size - 1) (entryPath root key).length :=
  List.length_take

/-- A path that fits is the whole path. -/
theorem filePath_eq {root key : CString} {size : ℕ} (h : (entryPath root key).length < size) :
    filePath size root key = entryPath root key := by
  rw [length_entryPath] at h
  exact filePath_of_lt h

/-- A path that does not fit is the path of a shorter key, if the root fits. -/
theorem filePath_cut {root key : CString} {size : ℕ} (h : root.length + 1 ≤ size - 1) :
    filePath size root key = entryPath root (key.take (size - 1 - (root.length + 1))) := by
  have hroot : (root.bytes ++ [47]).length = root.length + 1 := by
    rw [List.length_append, CString.length, List.length_singleton]
  refine CString.ext ?_
  show (root.bytes ++ [47] ++ key.bytes).take (size - 1) =
    root.bytes ++ [47] ++ key.bytes.take (size - 1 - (root.length + 1))
  rw [List.take_append, List.take_of_length_le (hroot.trans_le h), hroot]

/-! ## Files -/

section Files

variable {F : Type} [DecidableEq F] {names : CString → F} {root key other : CString}

omit [DecidableEq F] in
/-- A get reads one file. -/
theorem fileGet_congr {files files' : Files F} (io : FileIo)
    (h : files' (names (filePath PATH_MAX root key)) = files (names (filePath PATH_MAX root key))) :
    fileGet names files' root key io = fileGet names files root key io := by
  unfold fileGet
  rw [h]

/-- A set writes one file at most. -/
theorem fileSet_of_ne {files : Files F} {value : Value} {io : FileIo} {file : F}
    (h : file ≠ names (filePath setPathSize root key)) :
    (fileSet names files root key value io).1 file = files file := by
  unfold fileSet
  cases io.denied with
  | some e => rfl
  | none => exact Function.update_of_ne h ..

/-- A del removes one file at most. -/
theorem fileDel_of_ne {files : Files F} {io : FileIo} {file : F}
    (h : file ≠ names (filePath setPathSize root key)) :
    (fileDel names files root key io).1 file = files file := by
  unfold fileDel
  cases io.denied with
  | some e => rfl
  | none =>
    cases files (names (filePath setPathSize root key)) with
    | none => rfl
    | some content => exact Function.update_of_ne h ..

/-- What writes another file than a get reads leaves the get alone. -/
theorem leavesOther_of_ne
    (h : names (filePath PATH_MAX root other) ≠ names (filePath setPathSize root key)) :
    LeavesOther names root key other := by
  constructor
  · intro files files' value io hset io'
    have hfiles : (fileSet names files root key value io).1 = files' := by rw [hset]
    refine fileGet_congr io' ?_
    rw [← hfiles]
    exact fileSet_of_ne h
  · intro files files' io hdel io'
    have hfiles : (fileDel names files root key io).1 = files' := by rw [hdel]
    refine fileGet_congr io' ?_
    rw [← hfiles]
    exact fileDel_of_ne h

end Files

/-- A path that all operations agree on fits the shorter buffer. -/
theorem KeysHaveFiles.fits {root key₁ key₂ key : CString} (h : KeysHaveFiles root key₁ key₂)
    (hmem : key ∈ [key₁, key₂]) (hacc : Accepts root key) :
    root.length + 1 + key.length < setPathSize := by
  -- in a file system without links the path itself is the file
  have hnames : OneFilePerName id root := by
    intro key₁ key₂ _ _ hne heq
    exact hne (CString.ext (List.append_cancel_left (congrArg CString.bytes heq)))
  have hlen := congrArg CString.length (h.same id hnames key hmem)
  simp only [id, length_filePath, length_entryPath] at hlen
  have hpath := hacc.path
  rw [length_entryPath] at hpath
  unfold PATH_MAX setPathSize at *
  omega

/-- **Keys have files of their own exactly where their paths fit the shorter buffer.** -/
theorem keysHaveFiles_iff {root key₁ key₂ : CString} (h₁ : Accepts root key₁)
    (h₂ : Accepts root key₂) :
    KeysHaveFiles root key₁ key₂ ↔
      root.length + 1 + key₁.length < setPathSize ∧
        root.length + 1 + key₂.length < setPathSize := by
  constructor
  · intro h
    exact ⟨h.fits (by simp) h₁, h.fits (by simp) h₂⟩
  · rintro ⟨hfit₁, hfit₂⟩
    have hpath : ∀ key ∈ [key₁, key₂], ∀ size ∈ [PATH_MAX, setPathSize],
        filePath size root key = entryPath root key := by
      intro key hkey size hsize
      refine filePath_eq ?_
      rw [length_entryPath]
      have hfit : root.length + 1 + key.length < setPathSize := by
        rcases List.mem_pair.mp hkey with rfl | rfl
        · exact hfit₁
        · exact hfit₂
      rcases List.mem_pair.mp hsize with rfl | rfl
      · exact hfit.trans (by decide)
      · exact hfit
    have hdistinct : key₁ ≠ key₂ → ∀ {F : Type} (names : CString → F), OneFilePerName names root →
        ∀ size₁ ∈ [PATH_MAX, setPathSize], ∀ size₂ ∈ [PATH_MAX, setPathSize],
          names (filePath size₁ root key₁) ≠ names (filePath size₂ root key₂) := by
      intro hne F names hnames size₁ hsize₁ size₂ hsize₂
      rw [hpath key₁ (by simp) size₁ hsize₁, hpath key₂ (by simp) size₂ hsize₂]
      exact hnames key₁ key₂ h₁.name h₂.name hne
    refine ⟨?_, hdistinct, ?_⟩
    · intro F names _ key hkey
      rw [hpath key hkey _ (by simp), hpath key hkey _ (by simp)]
    · intro hne F _ names hnames
      exact ⟨leavesOther_of_ne (hdistinct hne names hnames _ (by simp) _ (by simp)).symm,
        leavesOther_of_ne (hdistinct hne names hnames _ (by simp) _ (by simp))⟩

section Example

/-- The keys `k` and `l` under the root `d`. -/
theorem keysHaveFiles_short :
    KeysHaveFiles ⟨[100], by decide⟩ ⟨[107], by decide⟩ ⟨[108], by decide⟩ :=
  (keysHaveFiles_iff ⟨by decide, by decide, by decide⟩ ⟨by decide, by decide, by decide⟩).mpr
    (by decide)

/-- A key of `n` letters `k`. -/
def exampleLongKey (n : ℕ) : CString :=
  ⟨List.replicate n 107, fun h => absurd (List.eq_of_mem_replicate h) (by decide)⟩

theorem length_exampleLongKey (n : ℕ) : (exampleLongKey n).length = n :=
  List.length_replicate

theorem accepts_exampleLongKey {n : ℕ} (hlong : 3 ≤ n) (hshort : n ≤ NAME_MAX) :
    Accepts ⟨[100], by decide⟩ (exampleLongKey n) := by
  have hlen : (exampleLongKey n).bytes.length = n := length_exampleLongKey n
  refine ⟨⟨?_, ?_, ?_, ?_⟩, hlen.trans_le hshort, ?_⟩
  · intro h
    exact absurd (List.eq_of_mem_replicate h) (by decide)
  · intro h
    rw [h] at hlen
    exact absurd hlong (hlen ▸ by decide)
  · intro h
    rw [h] at hlen
    exact absurd hlong (hlen ▸ by decide)
  · intro h
    rw [h] at hlen
    exact absurd hlong (hlen ▸ by decide)
  · rw [length_entryPath]
    show 1 + 1 + (exampleLongKey n).bytes.length < PATH_MAX
    unfold NAME_MAX at hshort
    unfold PATH_MAX
    omega

/-- A key of 254 letters: it is set, and what has its value is the key of 253 letters. -/
theorem keysHaveFiles_long :
    Accepts ⟨[100], by decide⟩ (exampleLongKey 254) ∧
      Accepts ⟨[100], by decide⟩ (exampleLongKey 253) ∧
      ¬KeysHaveFiles ⟨[100], by decide⟩ (exampleLongKey 254) (exampleLongKey 253) ∧
      ∃ files, fileSet id (fun _ => none) ⟨[100], by decide⟩ (exampleLongKey 254) exampleValue
          .all = (files, .ok ()) ∧
        fileGet id files ⟨[100], by decide⟩ (exampleLongKey 254) .all = .error ENOENT ∧
        fileGet id files ⟨[100], by decide⟩ (exampleLongKey 253) .all = .ok (exampleValue, 0) := by
  have h₁ : Accepts ⟨[100], by decide⟩ (exampleLongKey 254) :=
    accepts_exampleLongKey (by decide) (by decide)
  have h₂ : Accepts ⟨[100], by decide⟩ (exampleLongKey 253) :=
    accepts_exampleLongKey (by decide) (by decide)
  -- the set cuts the path to that of the shorter key
  have hcut : (exampleLongKey 254).take 253 = exampleLongKey 253 := by
    refine CString.ext ?_
    show (List.replicate 254 (107 : UInt8)).take 253 = _
    rw [List.take_replicate]
    rfl
  have hset : filePath setPathSize ⟨[100], by decide⟩ (exampleLongKey 254) =
      filePath PATH_MAX ⟨[100], by decide⟩ (exampleLongKey 253) := by
    rw [filePath_eq h₂.path, filePath_cut (by decide)]
    exact congrArg _ hcut
  have hget : filePath PATH_MAX ⟨[100], by decide⟩ (exampleLongKey 254) ≠
      filePath PATH_MAX ⟨[100], by decide⟩ (exampleLongKey 253) := by
    rw [filePath_eq h₁.path, filePath_eq h₂.path]
    intro heq
    have hlen := congrArg CString.length heq
    rw [length_entryPath, length_entryPath, length_exampleLongKey, length_exampleLongKey] at hlen
    exact absurd hlen (by decide)
  refine ⟨h₁, h₂, ?_, _, fileSet_all, ?_, ?_⟩
  · intro h
    have hfits := h.fits (by simp) h₁
    rw [length_exampleLongKey] at hfits
    exact absurd hfits (by decide)
  · unfold fileGet
    simp only [FileIo.all, id, hset, Function.update_of_ne hget]
  · have hfile : Function.update (fun _ : CString => (none : Option (List UInt8)))
        (id (filePath setPathSize ⟨[100], by decide⟩ (exampleLongKey 254)))
        (some exampleValue.encode)
        (id (filePath PATH_MAX ⟨[100], by decide⟩ (exampleLongKey 253))) =
          some exampleValue.encode := by
      rw [hset]
      exact Function.update_self ..
    exact fileGet_encode hfile true

end Example

end Propd
