import Propd.Ctrl.RegisterChild
import Propd.Lib.Bytes

/-!
# Datagrams of the ctrl server

`server` and `worker` of `ctrl_server.c` on a datagram of any content and any length. The
buffer a datagram is received into is not cleared, and its length is not kept with the
package: what a function reads of a package it reads at fixed offsets, at the offset of a
string up to its NUL, and in the slots its counts lead it to. A read past the bytes that
were received ends the handling here with `overread`.

What the server does with a package besides reading it is given by an environment; with the
functions of `Core` for it, `register_child` on a valid package is `registerChild` on the
strings in its slots.
-/

namespace Propd

open Lib

/-! ## The layout -/

/-- `offsetof(ctrl_package_t, child.name)`, also that of `name`. -/
def ctrlNameOffset : ℕ := 1

/-- `offsetof(ctrl_package_t, child.num_cache_now)` -/
def numCacheNowOffset : ℕ := ctrlNameOffset + NAME_MAX

/-- `offsetof(ctrl_package_t, child.num_prefix)` -/
def numPrefixOffset : ℕ := numCacheNowOffset + 4

/-- `sizeof(ctrl_package_t)`, where the slots begin. -/
def sizeofCtrlPackage : ℕ := numPrefixOffset + 4

/-- The offset of `cache_now_then_prefix[i]`. -/
def slotOffset (i : ℕ) : ℕ := sizeofCtrlPackage + NAME_MAX * i

/-- `pkg_length` of `server`: the product is one of 32-bit numbers. -/
def pkgLength (numPrefixMax : UInt32) : ℕ :=
  sizeofCtrlPackage + (numPrefixMax.toNat * NAME_MAX) % 2 ^ 32

/-- The bytes `recvfrom` returned, cut off at the end of the buffer. -/
structure Datagram (numPrefixMax : UInt32) where
  bytes : List UInt8
  fits : bytes.length ≤ pkgLength numPrefixMax

/-! `ctrl_type_t` -/

namespace CtrlType

def registerChild : UInt8 := 0
def registerParent : UInt8 := 1
def unregisterChild : UInt8 := 2
def unregisterParent : UInt8 := 3
def dumpDbRoute : UInt8 := 4
def dumpDbCache : UInt8 := 5

end CtrlType

/-! ## Reading a package -/

/-- The handling goes wrong: it reads what was not received, or the io functions fault. -/
inductive PkgFault
  | overread
  | io (fault : Fault)
  deriving DecidableEq

/-- A byte of the package. -/
def byteAt (pkg : List UInt8) (off : ℕ) : Except PkgFault UInt8 :=
  match pkg[off]? with
  | some b => .ok b
  | none => .error .overread

/-- A `uint32_t` of the package. -/
def u32At (pkg : List UInt8) (off : ℕ) : Except PkgFault UInt32 :=
  if off + uint32Code.width ≤ pkg.length then
    .ok (uint32Code.decode ((pkg.drop off).take uint32Code.width))
  else .error .overread

/-- A string in the package, read up to its NUL, which may be in another field. -/
def stringAt (pkg : List UInt8) (off : ℕ) : Except PkgFault CString :=
  match CString.ofBuffer (pkg.drop off) with
  | some s => .ok s
  | none => .error .overread

/-! ## Handling a package -/

/-- What the server does besides reading the package, over the states `S` of the rest of it:
whether there is a cache, `constructor_unix`, `io_update`, the allocations of the prefix
array, of the item and of the copy of a prefix, whether a name is taken, the rest of
`route_register`, `route_unregister`, and the requests to another server. -/
structure CtrlEnv (S : Type) where
  hasCache : S → Bool
  construct : Except Errno ℕ
  update : ℕ → CString → StorageCtx → S → Except Fault (S × SetResult)
  table : Bool
  taken : CString → S → Bool
  item : Bool
  dup : ℕ → Bool
  register : StorageCtx → List CString → S → S × SetResult
  unregister : Option CString → S → S × SetResult
  ctrlRegisterChild : CString → SetResult
  ctrlUnregisterChild : CString → SetResult

/-- How a package was handled: the slots `register_child` used, the state that is left and
the result, `none` where none is sent back. -/
structure Handling (S : Type) where
  used : List ℕ
  state : S
  ret : Option SetResult
  deriving DecidableEq

variable {S : Type}

/-- `io_update` of `cache_now_then_prefix[i]`, which looks at the key only where there is a
cache. -/
def updateSlot (pkg : List UInt8) (env : CtrlEnv S) (storage : StorageCtx) (i : ℕ) (s : S) :
    Except PkgFault (S × SetResult) :=
  if !env.hasCache s then .ok (s, .ok ())
  else do
    let key ← stringAt pkg (slotOffset i)
    (env.update i key storage s).mapError .io

/-- The loop over `cache_now_then_prefix[i]` from `i` on, `k` turns at most. -/
def updateSlots (pkg : List UInt8) (env : CtrlEnv S) (storage : StorageCtx) :
    ℕ → ℕ → S → Except PkgFault (List ℕ × S × SetResult)
  | 0, _, s => .ok ([], s, .ok ())
  | k + 1, i, s => do
    match ← updateSlot pkg env storage i s with
    | (s', .error e) => .ok ([i], s', .error e)
    | (s', .ok ()) => do
      let (used, s'', ret) ← updateSlots pkg env storage k (i + 1) s'
      .ok (i :: used, s'', ret)

/-- `arraydup_cstring` on the pointers in `prefix`: the copies are made one after the other. -/
def dupSlots (pkg : List UInt8) (dup : ℕ → Bool) :
    List ℕ → Except PkgFault (Except Errno (List CString))
  | [] => .ok (.ok [])
  | i :: rest => do
    let p ← stringAt pkg (slotOffset i)
    if !dup i then .ok (.error ENOMEM)
    else do
      let ps ← dupSlots pkg dup rest
      .ok (ps.map (p :: ·))

/-- The slots the pointers in `prefix` lead to; the sum is one of 32-bit numbers. -/
def prefixSlots (numCacheNow numPrefix : UInt32) : List ℕ :=
  (List.range numPrefix.toNat).map fun i => (numCacheNow.toNat + i) % 2 ^ 32

/-- `route_register` with `route_item_create`. The length of the array is passed on as an `int`:
of a negative one, `arraydup_cstring` fails to allocate, except for -1, which makes an
empty array. -/
def registerSlots (pkg : List UInt8) (env : CtrlEnv S) (storage : StorageCtx) (slots : List ℕ)
    (s : S) : Except PkgFault (S × SetResult) :=
  if env.taken storage.name s then .ok (s, .error EEXIST)
  else if !env.item then .ok (s, .error ENOMEM)
  else if slots.length = 2 ^ 32 - 1 then .ok (env.register storage [] s)
  else if 2 ^ 31 ≤ slots.length then .ok (s, .error ENOMEM)
  else do
    match ← dupSlots pkg env.dup slots with
    | .error e => .ok (s, .error e)
    | .ok prefixes => .ok (env.register storage prefixes s)

/-- `!child->num_cache_now && !child->num_prefix` -/
def emptyChild (pkg : List UInt8) (numCacheNow : UInt32) : Except PkgFault Bool :=
  if numCacheNow ≠ 0 then .ok false
  else do
    let numPrefix ← u32At pkg numPrefixOffset
    .ok (numPrefix == 0)

/-- `register_child` past its loop. -/
def registerPrefixes (pkg : List UInt8) (env : CtrlEnv S) (storage : StorageCtx)
    (numCacheNow : UInt32) (s : S) : Except PkgFault (List ℕ × S × SetResult) := do
  let numPrefix ← u32At pkg numPrefixOffset
  if numPrefix = 0 then .ok ([], s, .ok ())
  else if !env.table then .ok ([], s, .error ENOMEM)
  else do
    let (s', ret) ← registerSlots pkg env storage (prefixSlots numCacheNow numPrefix) s
    .ok (prefixSlots numCacheNow numPrefix, s', ret)

/-- `register_child` -/
def registerChildPkg (pkg : List UInt8) (env : CtrlEnv S) (s : S) :
    Except PkgFault (List ℕ × S × SetResult) := do
  let numCacheNow ← u32At pkg numCacheNowOffset
  let empty ← emptyChild pkg numCacheNow
  -- the name is logged, or copied by `constructor_unix`
  let name ← stringAt pkg ctrlNameOffset
  if empty then .ok ([], s, .error EINVAL)
  else
    match env.construct with
    | .error e => .ok ([], s, .error e)
    | .ok priv => do
      match ← updateSlots pkg env (unixStorage name priv) numCacheNow.toNat 0 s with
      | (used, s', .error e) => .ok (used, s', .error e)
      | (used, s', .ok ()) => do
        let (slots, s'', ret) ← registerPrefixes pkg env (unixStorage name priv) numCacheNow s'
        .ok (used ++ slots, s'', ret)

/-- `unregister_child` -/
def unregisterChildPkg (pkg : List UInt8) (env : CtrlEnv S) (s : S) :
    Except PkgFault (S × SetResult) := do
  let first ← byteAt pkg ctrlNameOffset
  if first = 0 then .ok (env.unregister none s)
  else do
    let name ← stringAt pkg ctrlNameOffset
    .ok (env.unregister (some name) s)

/-- `dump_db_route` and `dump_db_cache`, which are stubs. -/
def dumpDb : SetResult := statusOf (-1)

/-- `worker`, on the bytes that were received. -/
def handlePackage (pkg : List UInt8) (env : CtrlEnv S) (s : S) :
    Except PkgFault (Handling S) := do
  let type ← byteAt pkg 0
  if type = CtrlType.registerChild then do
    let (used, s', ret) ← registerChildPkg pkg env s
    .ok ⟨used, s', some ret⟩
  else if type = CtrlType.registerParent then do
    let name ← stringAt pkg ctrlNameOffset
    .ok ⟨[], s, some (env.ctrlRegisterChild name)⟩
  else if type = CtrlType.unregisterChild then do
    let (s', ret) ← unregisterChildPkg pkg env s
    .ok ⟨[], s', some ret⟩
  else if type = CtrlType.unregisterParent then do
    let name ← stringAt pkg ctrlNameOffset
    .ok ⟨[], s, some (env.ctrlUnregisterChild name)⟩
  else if type = CtrlType.dumpDbRoute ∨ type = CtrlType.dumpDbCache then
    .ok ⟨[], s, some dumpDb⟩
  else .ok ⟨[], s, none⟩

end Propd
