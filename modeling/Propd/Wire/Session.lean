import Propd.Wire.Worker

/-!
# A session of a unix storage

`unix.c` on one shared connection: the calls of a client, one after another as the mutex
of the storage has them, against the worker of the server. The client and the worker take
their steps in any order.

`io_begin` sends the package, and the data of a value behind it; `io_end` receives the
result of a set or del. `get` receives the duration, the head of the value, its data and
the result, and where one of these fails it discards what it can still read.
-/

namespace Propd

open Lib

/-- The next step of the client. -/
inductive ClientPc
  /-- between two calls -/
  | idle
  /-- at the second `send` of `io_begin` -/
  | sendData (value : Value)
  /-- at the `recv` of `io_end`, in `set` or `del` -/
  | result
  /-- at the four `recv` of `get` -/
  | getDuration
  | getHead (duration : Timestamp)
  | getData (duration : Timestamp) (head : ValueHead)
  | getResult (duration : Timestamp) (value : Value)
  /-- in `unix_stream_discard`; `get` will return `e` -/
  | discard (e : Errno)
  deriving DecidableEq

/-- What a call does once it has received what it asked for: it goes on, or returns. -/
inductive ClientNext
  | goOn (pc : ClientPc)
  | done (ret : IoResult)

/-- A client, its connection and the worker at the other end. `taken` is what the call in
progress has read, `sent` the calls so far and `returned` what they returned. -/
structure Session where
  client : ClientPc
  worker : Worker
  taken : List UInt8
  sent : List WireRequest
  returned : List IoResult
  deriving DecidableEq

/-- A call begins, sends its data or receives `n` bytes (`alloc` tells whether the `malloc` of
`get` succeeds), or the worker takes a step. -/
inductive SessionAction
  | call (r : WireRequest) (created : Timestamp)
  | sendData
  | recv (n : ℕ) (alloc : Bool)
  | worker (a : WorkerAction)

namespace ClientPc

/-- How many bytes the `recv` asks for. -/
def want : ClientPc → Option ℕ
  | idle | sendData _ => none
  | result | getResult _ _ => some int32Code.width
  | getDuration => some int64Code.width
  | getHead _ => some valueHeadCode.width
  | getData _ head => some head.length.toNat
  | discard _ => some discardSize

/-- The `recv` may return `n` bytes. -/
def mayRecv (pc : ClientPc) (n : ℕ) (queue : List UInt8) : Bool :=
  match pc with
  | discard _ => recvNonblockOk discardSize n queue
  | _ => pc.want.any fun want => recvOk want n queue

/-- What the call does with what it received. -/
def received (pc : ClientPc) (bytes : List UInt8) (alloc : Bool) : ClientNext :=
  match pc with
  | idle | sendData _ => .goOn pc
  | result =>
    if bytes.length ≠ int32Code.width then .done (.error EIO)
    else .done ((statusOf (int32Code.decode bytes)).map fun _ => none)
  | getDuration =>
    if bytes.length ≠ int64Code.width then .goOn (.discard EIO)
    else .goOn (.getHead (int64Code.decode bytes))
  | getHead duration =>
    if bytes.length ≠ valueHeadCode.width then .goOn (.discard EIO)
    else if !alloc then .goOn (.discard ENOMEM)
    else .goOn (.getData duration (valueHeadCode.decode bytes))
  | getData duration head =>
    if h : bytes.length = head.length.toNat then
      .goOn (.getResult duration ⟨head.type, bytes, h ▸ head.length.toNat_lt⟩)
    else .goOn (.discard EIO)
  | getResult duration value =>
    if bytes.length ≠ int32Code.width then .goOn (.discard EIO)
    else
      match statusOf (int32Code.decode bytes) with
      | .error e => .goOn (.discard e)
      | .ok () => .done (.ok (some (value, duration)))
  | discard e => if bytes.length = discardSize then .goOn (.discard e) else .done (.error e)

end ClientPc

/-- Where a call is once `io_begin` has sent the package, and where once it is over. -/
def IoRequest.begin : IoRequest → ClientPc
  | get => .getDuration
  | set value => .sendData value
  | del => .result

namespace Session

/-- The call goes on, or returns. -/
def proceed (s : Session) : ClientNext → Session
  | .goOn pc => { s with client := pc }
  | .done ret => { s with client := .idle, returned := s.returned ++ [ret] }

/-- The data a call has still to send. -/
def unsent (s : Session) : List UInt8 :=
  match s.client with
  | .sendData value => value.data
  | _ => []

/-- Before the first call. -/
def start : Session := ⟨.idle, .start, [], [], []⟩

end Session

/-- One step of a session; `none` where the action is not enabled. -/
def sessionStep (s : Session) : SessionAction → Option (Except Fault Session)
  | .call r created =>
    match s.client with
    | .idle =>
      some (.ok { s with
        client := r.req.begin
        worker.inbox := s.worker.inbox ++ ioPackage r created
        taken := []
        sent := s.sent ++ [r] })
    | _ => none
  | .sendData =>
    match s.client with
    | .sendData value =>
      some (.ok { s with client := .result, worker.inbox := s.worker.inbox ++ value.data })
    | _ => none
  | .recv n alloc =>
    if s.client.mayRecv n s.worker.outbox then
      let bytes := s.worker.outbox.take n
      let s' : Session := { s with
        worker.outbox := s.worker.outbox.drop n
        taken := s.taken ++ bytes }
      some (.ok (s'.proceed (s.client.received bytes alloc)))
    else none
  | .worker a => (workerStep s.worker a).map fun r => r.map fun w => { s with worker := w }

/-- The sessions of a shared connection. -/
def sessionSystem : LTS Session SessionAction :=
  LTS.ofSteps (· = Session.start) sessionStep

/-! ## What a step does -/

/-- A step that does not fault, with what it needs and what it changes. -/
inductive SessionStep (s : Session) : SessionAction → Session → Prop
  | call {r : WireRequest} {created : Timestamp} (hpc : s.client = .idle) :
      SessionStep s (.call r created)
        { s with
          client := r.req.begin
          worker.inbox := s.worker.inbox ++ ioPackage r created
          taken := []
          sent := s.sent ++ [r] }
  | sendData {value : Value} (hpc : s.client = .sendData value) :
      SessionStep s .sendData
        { s with client := .result, worker.inbox := s.worker.inbox ++ value.data }
  | recv {n : ℕ} {alloc : Bool} (hrecv : s.client.mayRecv n s.worker.outbox = true) :
      SessionStep s (.recv n alloc)
        (Session.proceed
          { s with
            worker.outbox := s.worker.outbox.drop n
            taken := s.taken ++ s.worker.outbox.take n }
          (s.client.received (s.worker.outbox.take n) alloc))
  | worker {a : WorkerAction} {w : Worker} (hs : WorkerStep s.worker a w) :
      SessionStep s (.worker a) { s with worker := w }

/-- **What a step of a session does.** -/
theorem sessionStep_ok {s s' : Session} {a : SessionAction} (h : sessionStep s a = some (.ok s')) :
    SessionStep s a s' := by
  cases a with
  | call r created =>
    simp only [sessionStep] at h
    split at h
    · rename_i hpc
      cases h
      exact .call hpc
    · cases h
  | sendData =>
    simp only [sessionStep] at h
    split at h
    · rename_i value hpc
      cases h
      exact .sendData hpc
    · cases h
  | recv n alloc =>
    simp only [sessionStep] at h
    split at h
    · rename_i hrecv
      cases h
      exact .recv hrecv
    · cases h
  | worker a =>
    obtain ⟨r, hr, hmap⟩ := Option.map_eq_some_iff.mp h
    obtain ⟨w, rfl, rfl⟩ := exceptMap_ok hmap
    exact .worker (workerStep_ok hr)

end Propd
