import Propd.Core.Types
import Propd.Lib.Cells
import Propd.Lib.Counting
import Propd.Lib.Transition

/-!
# Named mutexes

`named_mutex.c`: a namespace is a tree of entries, one a name, each with a mutex and a
counter. Locking a name finds its entry or makes one, takes a reference, and then waits
for the mutex of the entry; the mutex of the namespace is not held while it waits.
Unlocking finds the entry, releases its mutex, and then drops the reference; the entry
is destroyed with the last one. Other threads run between these steps.

The counter is an `int`; it counts threads, of which a process has far less than `2^31`.
An entry gets an address no other entry ever had, so that a stale pointer never leads to
a new entry: what would go unnoticed in memory that is reused is a fault here.
-/

namespace Propd

open Lib

/-- `nmtx_t`, with the address it is allocated at; `owner` is who has locked `mutex`. -/
structure Nmtx (ι : Type) where
  name : CString
  owner : Option ι
  nref : ℤ
  addr : ℕ
  deriving DecidableEq

/-- Where a thread is: outside, between the two steps of `named_mutex_lock`, after the
first step of `named_mutex_unlock`, or after its second. It keeps the pointer `nmtx`. -/
inductive LockerPc
  | out
  | waiting (name : CString) (addr : ℕ)
  | found (name : CString) (addr : ℕ)
  | released (name : CString) (addr : ℕ)
  deriving DecidableEq

/-- A thread: the names whose mutex it has, where it is, and what its last call returned. -/
structure Locker where
  held : List CString
  pc : LockerPc
  ret : Except Errno Unit

/-- A namespace and the threads that use it. -/
structure NmtxState (ι : Type) where
  tree : List (Nmtx ι)
  nextAddr : ℕ
  lockers : ι → Locker

/-- A thread begins a call, or goes on with it. `alloc` tells whether the allocations of
`named_mutex_create` succeed. -/
inductive NmtxAction (ι : Type)
  | lockInsert (t : ι) (name : CString) (alloc : Bool)
  | lockAcquire (t : ι)
  | unlockFind (t : ι) (name : CString)
  | unlockRelease (t : ι)
  | unlockDrop (t : ι)

variable {ι : Type} [DecidableEq ι]

/-! ## The source -/

/-- `named_mutex_create` -/
def namedMutexCreate (name : CString) (addr : ℕ) : Nmtx ι :=
  ⟨name, none, 0, addr⟩

/-- `named_mutex_destroy` -/
def namedMutexDestroy (nmtx : Nmtx ι) : Except Fault Unit :=
  if nmtx.nref ≠ 0 then .error .assertion
  else if nmtx.owner.isSome then .error .lockedDestroy
  else .ok ()

/-- `named_mutex_destroy_namespace` -/
def namedMutexDestroyNamespace (tree : List (Nmtx ι)) : Except Fault Unit :=
  if tree = [] then .ok () else .error .assertion

/-- `RB_FIND` -/
def nmtxFind (tree : List (Nmtx ι)) (name : CString) : Option (Nmtx ι) :=
  cellAt Nmtx.name name tree

namespace NmtxState

/-- A thread takes its step, and the entry its pointer leads to changes with it. -/
def moved (s : NmtxState ι) (t : ι) (l : Locker) (addr : ℕ) (f : Nmtx ι → Nmtx ι) :
    NmtxState ι :=
  { s with
    tree := modifyAt Nmtx.addr addr f s.tree
    lockers := Function.update s.lockers t l }

/-- `named_mutex_lock` until it gives the mutex of the namespace back: `RB_INSERT` of a new
entry, and `nref++` of this one or of the one that was there. -/
def lockInsert (s : NmtxState ι) (t : ι) (name : CString) : Except Fault (NmtxState ι) :=
  let nmtx := namedMutexCreate name s.nextAddr
  match nmtxFind s.tree name with
  | some old => do
    namedMutexDestroy nmtx
    .ok { s.moved t { s.lockers t with pc := .waiting name old.addr } old.addr
            fun e => { e with nref := e.nref + 1 } with
          nextAddr := s.nextAddr + 1 }
  | none =>
    .ok { tree := { nmtx with nref := nmtx.nref + 1 } :: s.tree
          nextAddr := s.nextAddr + 1
          lockers := Function.update s.lockers t
            { s.lockers t with pc := .waiting name nmtx.addr } }

/-- `pthread_mutex_lock(&nmtx->mutex)`; `none` while the mutex is taken. -/
def lockAcquire (s : NmtxState ι) (t : ι) (name : CString) (addr : ℕ) :
    Option (Except Fault (NmtxState ι)) :=
  match cellAt Nmtx.addr addr s.tree with
  | none => some (.error .useAfterFree)
  | some nmtx =>
    if nmtx.owner.isSome then none
    else
      some (.ok (s.moved t { held := name :: (s.lockers t).held, pc := .out, ret := .ok () } addr
        fun e => { e with owner := some t }))

/-- The `RB_FIND` of `named_mutex_unlock`. -/
def unlockFind (s : NmtxState ι) (t : ι) (name : CString) : NmtxState ι :=
  { s with
    lockers := Function.update s.lockers t
      (match nmtxFind s.tree name with
        | none => { s.lockers t with ret := .error ENOENT }
        | some nmtx => { s.lockers t with pc := .found name nmtx.addr }) }

/-- `pthread_mutex_unlock(&nmtx->mutex)` -/
def unlockRelease (s : NmtxState ι) (t : ι) (name : CString) (addr : ℕ) :
    Except Fault (NmtxState ι) :=
  match cellAt Nmtx.addr addr s.tree with
  | none => .error .useAfterFree
  | some _ =>
    .ok (s.moved t
      { s.lockers t with held := (s.lockers t).held.erase name, pc := .released name addr } addr
      fun e => { e with owner := none })

/-- `--nmtx->nref`, and `RB_REMOVE` and `named_mutex_destroy` where it is zero. -/
def unlockDrop (s : NmtxState ι) (t : ι) (addr : ℕ) : Except Fault (NmtxState ι) :=
  let l : Locker := { s.lockers t with pc := .out, ret := .ok () }
  match cellAt Nmtx.addr addr s.tree with
  | none => .error .useAfterFree
  | some nmtx =>
    if nmtx.nref - 1 = 0 then do
      namedMutexDestroy { nmtx with nref := nmtx.nref - 1 }
      .ok { s with
            tree := s.tree.filter fun e => e.addr ≠ addr
            lockers := Function.update s.lockers t l }
    else .ok (s.moved t l addr fun e => { e with nref := e.nref - 1 })

end NmtxState

/-- One step of the threads; `none` where the action is not enabled. A thread unlocks
only names it has locked. -/
def nmtxStep (s : NmtxState ι) : NmtxAction ι → Option (Except Fault (NmtxState ι))
  | .lockInsert t name alloc =>
    if (s.lockers t).pc = .out then
      if alloc then some (s.lockInsert t name)
      else
        some (.ok { s with
          lockers := Function.update s.lockers t { s.lockers t with ret := .error ENOMEM } })
    else none
  | .lockAcquire t =>
    match (s.lockers t).pc with
    | .waiting name addr => s.lockAcquire t name addr
    | _ => none
  | .unlockFind t name =>
    if (s.lockers t).pc = .out ∧ name ∈ (s.lockers t).held then some (.ok (s.unlockFind t name))
    else none
  | .unlockRelease t =>
    match (s.lockers t).pc with
    | .found name addr => some (s.unlockRelease t name addr)
    | _ => none
  | .unlockDrop t =>
    match (s.lockers t).pc with
    | .released _ addr => some (s.unlockDrop t addr)
    | _ => none

/-- `named_mutex_create_namespace`: an empty tree, and nobody has locked anything. -/
def NmtxState.Starts (s : NmtxState ι) : Prop :=
  s.tree = [] ∧ ∀ t, (s.lockers t).held = [] ∧ (s.lockers t).pc = .out

/-- The threads of a process on one namespace. -/
def nmtxSystem (ι : Type) [DecidableEq ι] : LTS (NmtxState ι) (NmtxAction ι) :=
  LTS.ofSteps NmtxState.Starts nmtxStep

/-! ## What a step does -/

/-- A step that does not fault, with what it needs and what it changes. -/
inductive NmtxStep (s : NmtxState ι) : NmtxAction ι → NmtxState ι → Prop
  | lockFailed {t : ι} {name : CString} (hpc : (s.lockers t).pc = .out) :
      NmtxStep s (.lockInsert t name false)
        { s with lockers := Function.update s.lockers t { s.lockers t with ret := .error ENOMEM } }
  | created {t : ι} {name : CString} (hpc : (s.lockers t).pc = .out)
      (hfree : ∀ e ∈ s.tree, e.name ≠ name) :
      NmtxStep s (.lockInsert t name true)
        { tree := ⟨name, none, 1, s.nextAddr⟩ :: s.tree
          nextAddr := s.nextAddr + 1
          lockers := Function.update s.lockers t
            { s.lockers t with pc := .waiting name s.nextAddr } }
  | joined {t : ι} {e : Nmtx ι} (hpc : (s.lockers t).pc = .out) (hmem : e ∈ s.tree) :
      NmtxStep s (.lockInsert t e.name true)
        { s.moved t { s.lockers t with pc := .waiting e.name e.addr } e.addr
            fun e => { e with nref := e.nref + 1 } with
          nextAddr := s.nextAddr + 1 }
  | acquired {t : ι} {name : CString} {e : Nmtx ι} (hpc : (s.lockers t).pc = .waiting name e.addr)
      (hmem : e ∈ s.tree) (hfree : e.owner = none) :
      NmtxStep s (.lockAcquire t)
        (s.moved t { held := name :: (s.lockers t).held, pc := .out, ret := .ok () } e.addr
          fun e => { e with owner := some t })
  | notFound {t : ι} {name : CString} (hpc : (s.lockers t).pc = .out)
      (hheld : name ∈ (s.lockers t).held) (hfree : ∀ e ∈ s.tree, e.name ≠ name) :
      NmtxStep s (.unlockFind t name)
        { s with lockers := Function.update s.lockers t { s.lockers t with ret := .error ENOENT } }
  | found {t : ι} {e : Nmtx ι} (hpc : (s.lockers t).pc = .out)
      (hheld : e.name ∈ (s.lockers t).held) (hmem : e ∈ s.tree) :
      NmtxStep s (.unlockFind t e.name)
        { s with
          lockers := Function.update s.lockers t { s.lockers t with pc := .found e.name e.addr } }
  | released {t : ι} {name : CString} {e : Nmtx ι} (hpc : (s.lockers t).pc = .found name e.addr)
      (hmem : e ∈ s.tree) :
      NmtxStep s (.unlockRelease t)
        (s.moved t
          { s.lockers t with held := (s.lockers t).held.erase name, pc := .released name e.addr }
          e.addr fun e => { e with owner := none })
  | dropped {t : ι} {name : CString} {e : Nmtx ι} (hpc : (s.lockers t).pc = .released name e.addr)
      (hmem : e ∈ s.tree) (hlast : e.nref ≠ 1) :
      NmtxStep s (.unlockDrop t)
        (s.moved t { s.lockers t with pc := .out, ret := .ok () } e.addr
          fun e => { e with nref := e.nref - 1 })
  | destroyed {t : ι} {name : CString} {e : Nmtx ι} (hpc : (s.lockers t).pc = .released name e.addr)
      (hmem : e ∈ s.tree) (hlast : e.nref = 1) (hfree : e.owner = none) :
      NmtxStep s (.unlockDrop t)
        { s with
          tree := s.tree.filter fun e' => e'.addr ≠ e.addr
          lockers := Function.update s.lockers t { s.lockers t with pc := .out, ret := .ok () } }

/-- How a step can fault: a pointer leads nowhere, or an entry is destroyed while somebody
has its mutex. -/
inductive NmtxFaults (s : NmtxState ι) : NmtxAction ι → Prop
  | acquire {t : ι} {name : CString} {addr : ℕ} (hpc : (s.lockers t).pc = .waiting name addr)
      (hgone : ∀ e ∈ s.tree, e.addr ≠ addr) : NmtxFaults s (.lockAcquire t)
  | release {t : ι} {name : CString} {addr : ℕ} (hpc : (s.lockers t).pc = .found name addr)
      (hgone : ∀ e ∈ s.tree, e.addr ≠ addr) : NmtxFaults s (.unlockRelease t)
  | drop {t : ι} {name : CString} {addr : ℕ} (hpc : (s.lockers t).pc = .released name addr)
      (hgone : ∀ e ∈ s.tree, e.addr ≠ addr) : NmtxFaults s (.unlockDrop t)
  | locked {t : ι} {name : CString} {e : Nmtx ι} (hpc : (s.lockers t).pc = .released name e.addr)
      (hmem : e ∈ s.tree) (hlast : e.nref = 1) (howner : e.owner ≠ none) :
      NmtxFaults s (.unlockDrop t)

/-- A step does not fault and is one of `NmtxStep`, or it faults in one of the ways of
`NmtxFaults`. -/
def NmtxOutcome (s : NmtxState ι) (a : NmtxAction ι) (r : Except Fault (NmtxState ι)) : Prop :=
  (∃ s', r = .ok s' ∧ NmtxStep s a s') ∨ (∃ f, r = .error f ∧ NmtxFaults s a)

namespace NmtxState

variable {s : NmtxState ι} {t : ι} {name : CString} {addr : ℕ}

theorem lockInsert_cases (hpc : (s.lockers t).pc = .out) :
    NmtxOutcome s (.lockInsert t name true) (s.lockInsert t name) := by
  unfold lockInsert nmtxFind
  cases hfind : cellAt Nmtx.name name s.tree with
  | none => exact .inl ⟨_, rfl, .created hpc (cellAt_eq_none.mp hfind)⟩
  | some old =>
    -- the entry that was made for nothing is destroyed: nobody has seen it
    obtain ⟨hmem, rfl⟩ := cellAt_eq_some hfind
    exact .inl ⟨_, rfl, .joined hpc hmem⟩

theorem lockAcquire_cases {r : Except Fault (NmtxState ι)}
    (hpc : (s.lockers t).pc = .waiting name addr) (h : s.lockAcquire t name addr = some r) :
    NmtxOutcome s (.lockAcquire t) r := by
  unfold lockAcquire at h
  cases hat : cellAt Nmtx.addr addr s.tree with
  | none =>
    rw [hat] at h
    cases h
    exact .inr ⟨_, rfl, .acquire hpc (cellAt_eq_none.mp hat)⟩
  | some e =>
    obtain ⟨hmem, rfl⟩ := cellAt_eq_some hat
    simp only [hat] at h
    split at h
    · -- the mutex is taken: the thread waits
      cases h
    · rename_i hfree
      cases h
      exact .inl ⟨_, rfl, .acquired hpc hmem (by simpa using hfree)⟩

theorem unlockFind_cases (hpc : (s.lockers t).pc = .out) (hheld : name ∈ (s.lockers t).held) :
    NmtxOutcome s (.unlockFind t name) (.ok (s.unlockFind t name)) := by
  unfold unlockFind nmtxFind
  cases hfind : cellAt Nmtx.name name s.tree with
  | none => exact .inl ⟨_, rfl, .notFound hpc hheld (cellAt_eq_none.mp hfind)⟩
  | some e =>
    obtain ⟨hmem, rfl⟩ := cellAt_eq_some hfind
    exact .inl ⟨_, rfl, .found hpc hheld hmem⟩

theorem unlockRelease_cases (hpc : (s.lockers t).pc = .found name addr) :
    NmtxOutcome s (.unlockRelease t) (s.unlockRelease t name addr) := by
  unfold unlockRelease
  cases hat : cellAt Nmtx.addr addr s.tree with
  | none => exact .inr ⟨_, rfl, .release hpc (cellAt_eq_none.mp hat)⟩
  | some e =>
    obtain ⟨hmem, rfl⟩ := cellAt_eq_some hat
    exact .inl ⟨_, rfl, .released hpc hmem⟩

theorem unlockDrop_cases (hpc : (s.lockers t).pc = .released name addr) :
    NmtxOutcome s (.unlockDrop t) (s.unlockDrop t addr) := by
  unfold unlockDrop
  cases hat : cellAt Nmtx.addr addr s.tree with
  | none => exact .inr ⟨_, rfl, .drop hpc (cellAt_eq_none.mp hat)⟩
  | some e =>
    obtain ⟨hmem, rfl⟩ := cellAt_eq_some hat
    by_cases hlast : e.nref - 1 = 0
    · -- the last reference: the entry is destroyed, which asserts that its mutex is free
      have hone : e.nref = 1 := by omega
      cases howner : e.owner with
      | none =>
        refine .inl ⟨_, ?_, .destroyed hpc hmem hone howner⟩
        simp [namedMutexDestroy, hlast, howner]
        rfl
      | some t' =>
        refine .inr ⟨.lockedDestroy, ?_, .locked hpc hmem hone (by rw [howner]; nofun)⟩
        simp [namedMutexDestroy, hlast, howner]
        rfl
    · refine .inl ⟨_, ?_, .dropped hpc hmem (by omega)⟩
      simp [hlast]

end NmtxState

/-- **What a step does**: it does not fault and is one of `NmtxStep`, or it faults in one of
the ways of `NmtxFaults`. -/
theorem nmtxStep_cases {s : NmtxState ι} {a : NmtxAction ι} {r : Except Fault (NmtxState ι)}
    (h : nmtxStep s a = some r) : NmtxOutcome s a r := by
  cases a with
  | lockInsert t name alloc =>
    simp only [nmtxStep] at h
    split at h
    · rename_i hpc
      cases alloc with
      | false =>
        cases h
        exact .inl ⟨_, rfl, .lockFailed hpc⟩
      | true =>
        cases h
        exact NmtxState.lockInsert_cases hpc
    · cases h
  | lockAcquire t =>
    simp only [nmtxStep] at h
    split at h
    · rename_i name addr hpc
      exact NmtxState.lockAcquire_cases hpc h
    · cases h
  | unlockFind t name =>
    simp only [nmtxStep] at h
    split at h
    · rename_i hpc
      cases h
      exact NmtxState.unlockFind_cases hpc.1 hpc.2
    · cases h
  | unlockRelease t =>
    simp only [nmtxStep] at h
    split at h
    · rename_i name addr hpc
      cases h
      exact NmtxState.unlockRelease_cases hpc
    · cases h
  | unlockDrop t =>
    simp only [nmtxStep] at h
    split at h
    · rename_i name addr hpc
      cases h
      exact NmtxState.unlockDrop_cases hpc
    · cases h

theorem nmtxStep_ok {s s' : NmtxState ι} {a : NmtxAction ι} (h : nmtxStep s a = some (.ok s')) :
    NmtxStep s a s' := by
  rcases nmtxStep_cases h with ⟨s'', heq, hs⟩ | ⟨f, heq, -⟩
  · cases heq
    exact hs
  · cases heq

end Propd
