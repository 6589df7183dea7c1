import Propd.Ctrl.Datagram

/-!
# The ctrl client

`ctrl_client.c`: a call builds its package in memory of its own, sends it to the server and waits
for what the server replies. The package is released as soon as it has been sent. Which replies
are waited for depends on the type of the package all the same, and it is read from there: what
this byte is by then is not for the client to say, so it is a part of what a call meets.

A reply is one datagram, and the replies come in the order they were sent in.
-/

namespace Propd

open Lib

/-! ## Replies -/

/-- What a datagram is to its sender, or to its receiver. -/
inductive Meaning
  | length
  | data
  | result
  | discarded
  deriving DecidableEq

/-- A datagram of the server, and what it is taken for. -/
structure Reply where
  meaning : Meaning
  bytes : List UInt8
  deriving DecidableEq

variable {S : Type}

/-- What `worker` sends back: the result, for the types it knows. -/
def workerReplies : Except PkgFault (Handling S) → List Reply
  | .error _ => []
  | .ok h =>
    match h.ret with
    | none => []
    | some ret => [⟨.result, int32Code.encode (retOf ret)⟩]

/-! ## A call -/

/-- What a call of the client meets: whether there are a socket and the memory of the package,
what this memory holds, whether `sendto` sends all of it, the byte at its start once it is
released, and whether there is memory for dumped data. -/
structure CtrlClientTurn where
  init : SetResult
  junk : ℕ → UInt8
  sends : Bool
  stale : UInt8
  data : Bool

/-- Why a call does not return. -/
inductive CtrlStop
  | waits
  | assertion
  | outOfBounds
  deriving DecidableEq

/-- `ctrl_context_t`: the package, which is released at some point. -/
structure CtrlContext where
  package : List UInt8
  released : Bool

/-- How a call went: the package that was sent, the replies that were received, whether the
package was read after its release, and the result. -/
structure CtrlRun where
  sent : Option (List UInt8)
  received : List Reply
  readReleased : Bool
  ret : Except CtrlStop SetResult
  deriving DecidableEq

/-- Nothing was sent. -/
def CtrlRun.unsent (ret : Except CtrlStop SetResult) : CtrlRun := ⟨none, [], false, ret⟩

/-- `ctx->package->type`: of a package that is released, whatever is there now. -/
def CtrlContext.type (ctx : CtrlContext) (stale : UInt8) : UInt8 :=
  if ctx.released then stale else byteCode.decode ctx.package

/-- The types that are replied to with data. -/
def dumps (type : UInt8) : Bool := type = CtrlType.dumpDbRoute || type = CtrlType.dumpDbCache

/-- `recvfrom` into `n` bytes, `none` where nothing ever comes. A `recvfrom` that fails is like an
empty datagram: only the length is looked at. -/
def recvFrom (n : ℕ) : List (List UInt8) → Option (List UInt8 × List (List UInt8))
  | [] => none
  | d :: rest => some (d.take n, rest)

/-- The last part of `ctrl_final0`: the result. -/
def recvResult (received : List Reply) (replies : List (List UInt8)) :
    List Reply × Except CtrlStop SetResult :=
  match recvFrom int32Code.width replies with
  | none => (received, .error .waits)
  | some (bytes, _) =>
    (received ++ [⟨.result, bytes⟩],
      .ok (if bytes.length = int32Code.width then statusOf (int32Code.decode bytes)
        else .error EIO))

/-- Two datagrams are discarded where there is no memory for the data. -/
def discardReplies (received : List Reply) (replies : List (List UInt8)) :
    List Reply × Except CtrlStop SetResult :=
  match recvFrom int32Code.width replies with
  | none => (received, .error .waits)
  | some (data, rest) =>
    match recvFrom int32Code.width rest with
    | none => (received ++ [⟨.discarded, data⟩], .error .waits)
    | some (result, _) =>
      (received ++ [⟨.discarded, data⟩, ⟨.discarded, result⟩], .ok (.error ENOMEM))

/-- `malloc` of an `int`: a negative one is a size no memory has. -/
def allocData (length : Int32) (data : Bool) : Bool := 0 ≤ length && data

/-- The dump branch of `ctrl_final0`, on the length that was received. -/
def recvData (t : CtrlClientTurn) (length : Int32) (received : List Reply)
    (replies : List (List UInt8)) : List Reply × Except CtrlStop SetResult :=
  if length = 0 then recvResult received replies
  else if !allocData length t.data then discardReplies received replies
  else
    match recvFrom length.toNatClampNeg replies with
    | none => (received, .error .waits)
    | some (bytes, rest) =>
      if bytes.length = length.toNatClampNeg then recvResult (received ++ [⟨.data, bytes⟩]) rest
      else (received ++ [⟨.data, bytes⟩], .error .assertion)

/-- `ctrl_final0`; `out` says whether there are pointers for the data. -/
def ctrlFinal0 (ctx : CtrlContext) (t : CtrlClientTurn) (out : Bool)
    (replies : List (List UInt8)) : List Reply × Except CtrlStop SetResult :=
  if dumps (ctx.type t.stale) then
    if !out then ([], .error .assertion)
    else
      match recvFrom int32Code.width replies with
      | none => ([], .error .waits)
      | some (bytes, rest) =>
        if bytes.length = int32Code.width then
          recvData t (int32Code.decode bytes) [⟨.length, bytes⟩] rest
        else ([⟨.length, bytes⟩], .error .assertion)
  else recvResult [] replies

/-- `ctrl_update`: the package is sent, and released. -/
def ctrlUpdate (ctx : CtrlContext) (t : CtrlClientTurn) : CtrlContext × SetResult :=
  ({ ctx with released := true }, if t.sends then .ok () else .error EIO)

/-- `ctrl_update`, and `ctrl_final0` where it succeeds; `server` gives the replies. -/
def ctrlExchange (package : List UInt8) (t : CtrlClientTurn) (out : Bool)
    (server : List UInt8 → List Reply) : CtrlRun :=
  match ctrlUpdate ⟨package, false⟩ t with
  | (_, .error e) => .unsent (.ok (.error e))
  | (ctx, .ok ()) =>
    let (received, ret) := ctrlFinal0 ctx t out ((server package).map Reply.bytes)
    ⟨some package, received, ctx.released, ret⟩

/-! ## The functions of the client -/

/-- The loop that counts the strings of an array up to its `NULL`. Where there are more than 32
bits count, it goes round in the array. -/
def countStrings (strings : List CString) : Except CtrlStop UInt32 :=
  if strings.length < 2 ^ 32 then .ok (UInt32.ofNat strings.length) else .error .waits

/-- `(num_prefix + num_cache_now) * NAME_MAX`, in 32 bits. -/
def childDelta (numCacheNow numPrefix : UInt32) : ℕ :=
  ((numPrefix + numCacheNow) * UInt32.ofNat NAME_MAX).toNat

/-- The slots, one behind the other. -/
def slotBytes (strings : List CString) : List UInt8 :=
  strings.flatMap fun s => strncpy s NAME_MAX

/-- What `ctrl_register_child` writes, from the start of the package on. -/
def childBytes (name : CString) (cacheNow prefixes : List CString)
    (numCacheNow numPrefix : UInt32) : List UInt8 :=
  CtrlType.registerChild :: (strncpy name NAME_MAX ++ uint32Code.encode numCacheNow ++
    uint32Code.encode numPrefix ++ slotBytes (cacheNow ++ prefixes))

/-- `ctrl_register_child` -/
def ctrlRegisterChild (t : CtrlClientTurn) (name : CString) (cacheNow prefixes : List CString)
    (server : List UInt8 → List Reply) : CtrlRun :=
  match countStrings cacheNow, countStrings prefixes with
  | .error stop, _ => .unsent (.error stop)
  | _, .error stop => .unsent (.error stop)
  | .ok numCacheNow, .ok numPrefix =>
    match t.init with
    | .error e => .unsent (.ok (.error e))
    | .ok () =>
      let package := childBytes name cacheNow prefixes numCacheNow numPrefix
      -- the memory was allocated for the 32-bit product
      if sizeofCtrlPackage + childDelta numCacheNow numPrefix < package.length then
        .unsent (.error .outOfBounds)
      else ctrlExchange package t false server

/-- `ctrl_generic0` -/
def ctrlGeneric0 (t : CtrlClientTurn) (type : UInt8) (name : CString)
    (server : List UInt8 → List Reply) : CtrlRun :=
  match t.init with
  | .error e => .unsent (.ok (.error e))
  | .ok () =>
    -- the counts of a child are in the union with the name, and are sent as they are
    ctrlExchange (type :: (strncpy name NAME_MAX ++ (List.range' numCacheNowOffset 8).map t.junk))
      t false server

/-- `ctrl_generic1` -/
def ctrlGeneric1 (t : CtrlClientTurn) (type : UInt8) (out : Bool)
    (server : List UInt8 → List Reply) : CtrlRun :=
  match t.init with
  | .error e => .unsent (.ok (.error e))
  | .ok () =>
    ctrlExchange (type :: (List.range' ctrlNameOffset (sizeofCtrlPackage - 1)).map t.junk) t out
      server

/-- A call of the client, by the function and the arguments; `out` says whether the pointer for
the data is there. -/
inductive CtrlRequest
  | registerChild (name : CString) (cacheNow prefixes : List CString)
  | registerParent (name : CString)
  | unregisterChild (name : CString)
  | unregisterParent (name : CString)
  | dumpDbRoute (out : Bool)
  | dumpDbCache (out : Bool)

/-- The functions of the client. -/
def CtrlRequest.call (t : CtrlClientTurn) (server : List UInt8 → List Reply) :
    CtrlRequest → CtrlRun
  | .registerChild name cacheNow prefixes => ctrlRegisterChild t name cacheNow prefixes server
  | .registerParent name => ctrlGeneric0 t CtrlType.registerParent name server
  | .unregisterChild name => ctrlGeneric0 t CtrlType.unregisterChild name server
  | .unregisterParent name => ctrlGeneric0 t CtrlType.unregisterParent name server
  | .dumpDbRoute out => ctrlGeneric1 t CtrlType.dumpDbRoute out server
  | .dumpDbCache out => ctrlGeneric1 t CtrlType.dumpDbCache out server

/-- `server` of `ctrl_server.c` with its worker: the package is cut off at the end of the buffer,
and handled. -/
def ctrlServer (max : UInt32) (env : CtrlEnv S) (s : S) (package : List UInt8) :
    Except PkgFault (Handling S) :=
  handlePackage (package.take (pkgLength max)) env s

end Propd
