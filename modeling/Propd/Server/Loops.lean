import Propd.Core.Types
import Propd.Lib.Control
import Propd.Lib.Transition
import Mathlib.Data.List.Perm.Basic

/-!
# The loops of the servers

`server` of `io_server.c` and of `ctrl_server.c`, and the workers that they submit. What is followed
here is the memory of the workers' arguments, and of the packages that those of the ctrl server
have: who holds a block, and who releases it.

`pthread_cleanup_push` and `pthread_cleanup_pop` are the two ends of a block `do { … } while (0)`.
The handler is called when the thread is cancelled in between, and it is gone at the end of the
block.
-/

namespace Propd

open Lib

/-- A block of the heap. Blocks are numbered in the order in which they are allocated, so one that
is released does not come back. -/
abbrev Block := ℕ

/-- A submitted worker: its argument, and the package that the argument points to. -/
structure WorkerTask where
  arg : Block
  package : Option Block
  deriving DecidableEq

def WorkerTask.blocks (t : WorkerTask) : List Block := t.arg :: t.package.toList

/-- A server and its workers. -/
structure Serving where
  /-- The number of the next block. -/
  next : Block
  live : List Block
  released : List Block
  /-- The variables of the loop. -/
  arg : Option Block
  pkg : Option Block
  /-- What is freed if the thread is cancelled. -/
  handlers : List Block
  /-- All workers that were submitted, and those that have not come to their end. -/
  submitted : List WorkerTask
  pool : List WorkerTask
  running : Bool
  deriving DecidableEq

/-- How `accept` or `recvfrom` ends. -/
inductive Call
  | success
  | interrupted
  | failure
  | cancelled
  deriving DecidableEq

/-- What a turn of the loop meets: whether there is memory for the package, which only the ctrl
server has, and for the argument, and how the call ends. -/
structure Turn where
  package : Bool
  arg : Bool
  call : Call

def Call.failed : Call → Bool
  | .interrupted => true
  | .failure => true
  | _ => false

namespace Serving

/-- A server before its first turn. -/
def start : Serving := ⟨0, [], [], none, none, [], [], [], true⟩

/-- The block is read or written. -/
def touch (b : Option Block) (s : Serving) : Except Fault Serving :=
  match b with
  | none => .error .nullDeref
  | some b => if b ∈ s.live then .ok s else .error .useAfterFree

/-- Without a block that was there. -/
def without (s : Serving) (b : Block) : Serving :=
  { s with live := s.live.erase b, released := s.released ++ [b] }

/-- `free` -/
def free (b : Option Block) (s : Serving) : Except Fault Serving :=
  match b with
  | none => .ok s
  | some b => if b ∈ s.live then .ok (s.without b) else .error .useAfterFree

def freeAll : List Block → Serving → Except Fault Serving
  | [], s => .ok s
  | b :: bs, s => do freeAll bs (← s.free (some b))

/-- With another block. -/
def grown (s : Serving) : Serving := { s with next := s.next + 1, live := s.next :: s.live }

/-- `arg = malloc(sizeof(worker_arg_t))` -/
def mallocArg (ok : Bool) (s : Serving) : Except Fault Serving :=
  .ok (if ok then { s.grown with arg := some s.next } else { s with arg := none })

/-- `pkg = malloc(pkg_length)` -/
def mallocPkg (ok : Bool) (s : Serving) : Except Fault Serving :=
  .ok (if ok then { s.grown with pkg := some s.next } else { s with pkg := none })

def pushHandler (b : Option Block) (s : Serving) : Except Fault Serving :=
  .ok { s with handlers := b.toList ++ s.handlers }

def popHandler (s : Serving) : Except Fault Serving :=
  .ok { s with handlers := s.handlers.tail }

/-- The thread is cancelled: the handlers are called, the last one first. -/
def runHandlers (s : Serving) : Except Fault Serving :=
  (s.freeAll s.handlers).map fun s => { s with handlers := [] }

/-- `thread_pool_submit(ctx->thread_pool, worker, arg, false)` -/
def submit (package : Option Block) (s : Serving) : Except Fault Serving :=
  match s.arg with
  | none => .error .nullDeref
  | some b =>
    .ok { s with submitted := s.submitted ++ [⟨b, package⟩], pool := s.pool ++ [⟨b, package⟩] }

end Serving

/-- `pthread_cleanup_push(free, block); body; pthread_cleanup_pop(false);` -/
def cleanupScope (block : Serving → Option Block) (body : Stmt Fault Serving) :
    Stmt Fault Serving :=
  .once (.all [.act fun s => s.pushHandler (block s), .once body, .act Serving.popHandler])

/-- A call in which the thread can be cancelled. -/
def cancellable (call : Call) : Stmt Fault Serving :=
  .cond (fun _ => call = .cancelled) (.all [.act Serving.runHandlers, .jump .stop])

/-- `accept`, and what follows a call that fails. -/
def ioAccept (call : Call) : Stmt Fault Serving :=
  .all [
    cancellable call,
    -- the result goes to `connfd`
    .act fun s => s.touch s.arg,
    .cond (fun _ => call.failed) (.all [
      .act fun s => s.free s.arg,
      .cond (fun _ => call = .interrupted) (.jump .cont),
      .jump .brk])]

/-- The body of the loop in `server` of `io_server.c`. -/
def ioServerTurn (o : Turn) : Stmt Fault Serving :=
  .all [
    .act (Serving.mallocArg o.arg),
    .cond (fun s => s.arg.isNone) (.jump .brk),
    -- `credbook` and `io_ctx`
    .act fun s => s.touch s.arg,
    cleanupScope (fun s => s.arg) (ioAccept o.call),
    -- `getsockopt` reads `connfd` and writes `cred`
    .act fun s => s.touch s.arg,
    .act (Serving.submit none)]

/-- `recvfrom`, and what follows a call that fails. -/
def ctrlRecvfrom (call : Call) : Stmt Fault Serving :=
  .all [
    cancellable call,
    .act fun s => s.touch s.pkg,
    .cond (fun _ => call.failed) (.all [
      .act fun s => s.free s.arg,
      .act fun s => s.free s.pkg,
      .jump .brk])]

/-- The body of the loop in `server` of `ctrl_server.c`. -/
def ctrlServerTurn (o : Turn) : Stmt Fault Serving :=
  .all [
    .act (Serving.mallocPkg o.package),
    .cond (fun s => s.pkg.isNone) (.jump .brk),
    .act (Serving.mallocArg o.arg),
    .cond (fun s => s.arg.isNone) (.all [.act fun s => s.free s.pkg, .jump .brk]),
    cleanupScope (fun s => s.pkg) (cleanupScope (fun s => s.arg) (ctrlRecvfrom o.call)),
    -- the fields of the argument, `package` among them
    .act fun s => s.touch s.arg,
    .act fun s => s.submit s.pkg]

/-- A worker reads its argument and its package. -/
def WorkerTask.use (t : WorkerTask) (s : Serving) : Except Fault Serving := do
  let s ← s.touch (some t.arg)
  match t.package with
  | none => .ok s
  | some b => s.touch (some b)

/-- The end of a worker, which releases both. -/
def WorkerTask.finish (t : WorkerTask) (s : Serving) : Except Fault Serving := do
  let s ← s.touch (some t.arg)
  let s ← s.free t.package
  let s ← s.free (some t.arg)
  .ok { s with pool := s.pool.erase t }

/-- A step of the server or of one of its workers. -/
inductive ServingLabel
  | turn (o : Turn)
  | use (t : WorkerTask)
  | finish (t : WorkerTask)

/-- The two servers. -/
inductive ServerKind
  | io
  | ctrl
  deriving DecidableEq

def ServerKind.body : ServerKind → Turn → Stmt Fault Serving
  | .io => ioServerTurn
  | .ctrl => ctrlServerTurn

/-- A turn that is left by `break`, or in which the thread is cancelled, is the last one. -/
def servingStep (kind : ServerKind) (s : Serving) : ServingLabel → Option (Except Fault Serving)
  | .turn o =>
    if s.running then
      some (((kind.body o).turn s).map fun r => { r.1 with running := r.2 })
    else none
  | .use t => if t ∈ s.pool then some (t.use s) else none
  | .finish t => if t ∈ s.pool then some (t.finish s) else none

def servingSystem (kind : ServerKind) : LTS Serving ServingLabel :=
  .ofSteps (fun s => s = .start) (servingStep kind)

end Propd
