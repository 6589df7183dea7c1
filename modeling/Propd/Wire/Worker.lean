import Propd.Lib.Transition
import Propd.Wire.Package

/-!
# The worker of the io server

`worker`, `get`, `set` and `del` of `io_server.c` on one connection, one socket call a
step. `inbox` is what the client has sent and the worker has not read, `outbox` what the
worker has sent and the client has not read.

A blocking `recv` waits until something is there, also where it asks for nothing. It returns
as many bytes as it likes, at least one if it asks for any, and at most as many as were
asked for and are there. Sends are complete and the connection stays open. The log of the
worker, what it decoded and what it answered, is there to speak about runs.

`cred_check` is a stub that always agrees.
-/

namespace Propd

open Lib

/-- A blocking `recv` of `want` bytes may return `n`. On a stream socket one of no bytes waits for
something to read as well. -/
def recvOk (want n : ℕ) (queue : List UInt8) : Bool :=
  !queue.isEmpty && n ≤ want && n ≤ queue.length && (0 < n || want = 0)

/-- A `recv` that does not block also returns when there is nothing. -/
def recvNonblockOk (want n : ℕ) (queue : List UInt8) : Bool :=
  recvOk want n queue || (n = 0 && queue.isEmpty)

/-- The `recv` of `worker` may return `n` bytes over what `pkg_head` held before. -/
def headerOk (n : ℕ) (stale queue : List UInt8) : Bool :=
  recvOk sizeofIoPackage n queue && stale.length = sizeofIoPackage

/-- `sizeof(discard)` -/
def discardSize : ℕ := 16

/-- What the worker made of a request: it is a request to the node, it sets a value there is
no memory for, its data came in part, or its type is unknown. -/
inductive Decoded
  | request (r : WireRequest)
  | noMemory (key : CString) (head : ValueHead)
  | short (key : CString) (head : ValueHead)
  | unknown (type : UInt8)
  deriving DecidableEq

/-- The next step of the worker. -/
inductive WorkerPc
  /-- at the `recv` of `worker` -/
  | header
  /-- at the `recv` of `set` -/
  | data (key : CString) (head : ValueHead)
  /-- in `unix_stream_discard` -/
  | discard
  /-- in `io_get`, `io_set` or `io_del` -/
  | exec (r : WireRequest)
  /-- at the second `send` of `get` -/
  | sendValue (ret : IoResult)
  /-- at the `send` of `worker` -/
  | sendResult (result : Int32)
  deriving DecidableEq

/-- A worker and its connection. -/
structure Worker where
  pc : WorkerPc
  inbox : List UInt8
  outbox : List UInt8
  decoded : List Decoded
  replies : List IoResult
  deriving DecidableEq

/-- A step of the worker. A `recv` returns `n` bytes; `stale` is what `pkg_head` held before,
`alloc` whether the `malloc` of `set` succeeds. An io function returns `ret`. -/
inductive WorkerAction
  | recv (n : ℕ) (stale : List UInt8) (alloc : Bool)
  | reply (ret : IoResult)
  | send

/-- `set` of `io_server.c` once its `recv` has returned: the value it hands on. -/
def serverSet (head : ValueHead) (data : List UInt8) : Except Errno Value :=
  if h : data.length = head.length.toNat then
    .ok ⟨head.type, data, h ▸ head.length.toNat_lt⟩
  else .error EIO

/-- A get returns a value, a set or del does not. -/
def IoResult.fits (ret : IoResult) (req : IoRequest) : Bool :=
  match req, ret with
  | _, .error _ => true
  | .get, .ok x => x.isSome
  | .set _, .ok x | .del, .ok x => x.isNone

namespace Worker

/-- The `switch` of `worker`, on the bytes of `pkg_head`. -/
def dispatch (w : Worker) (pkg : List UInt8) (alloc : Bool) : Except Fault Worker :=
  match IoPackage.key pkg with
  | none => .error .outOfBounds
  | some key =>
    let type := IoPackage.type pkg
    let head := IoPackage.value pkg
    if type = IoType.get then
      .ok { w with pc := .exec ⟨.get, key⟩, decoded := w.decoded ++ [.request ⟨.get, key⟩] }
    else if type = IoType.set then
      if alloc then .ok { w with pc := .data key head }
      else .ok { w with pc := .discard, decoded := w.decoded ++ [.noMemory key head] }
    else if type = IoType.del then
      .ok { w with pc := .exec ⟨.del, key⟩, decoded := w.decoded ++ [.request ⟨.del, key⟩] }
    else
      .ok { w with
        pc := .sendResult 0
        decoded := w.decoded ++ [.unknown type]
        replies := w.replies ++ [.ok none] }

/-- `set` goes on with what its `recv` returned. -/
def setData (w : Worker) (key : CString) (head : ValueHead) (data : List UInt8) : Worker :=
  match serverSet head data with
  | .ok value =>
    let r : WireRequest := ⟨.set value, key⟩
    { w with pc := .exec r, decoded := w.decoded ++ [.request r] }
  | .error e =>
    { w with
      pc := .sendResult e
      decoded := w.decoded ++ [.short key head]
      replies := w.replies ++ [.error e] }

/-- The io function has returned; `get` sends the duration. -/
def answer (w : Worker) (req : IoRequest) (ret : IoResult) : Worker :=
  match req with
  | .get =>
    { w with
      pc := .sendValue ret
      outbox := w.outbox ++ int64Code.encode (replyDuration ret)
      replies := w.replies ++ [ret] }
  | .set _ | .del => { w with pc := .sendResult (retOf ret), replies := w.replies ++ [ret] }

end Worker

/-- One step of the worker; `none` where it waits. -/
def workerStep (w : Worker) : WorkerAction → Option (Except Fault Worker)
  | .recv n stale alloc =>
    let bytes := w.inbox.take n
    let w' := { w with inbox := w.inbox.drop n }
    match w.pc with
    | .header =>
      if headerOk n stale w.inbox then
        some (w'.dispatch (bytes ++ stale.drop n) alloc)
      else none
    | .data key head =>
      if recvOk head.length.toNat n w.inbox then some (.ok (w'.setData key head bytes)) else none
    | .discard =>
      if recvNonblockOk discardSize n w.inbox then
        if n = discardSize then some (.ok w')
        else
          some (.ok { w' with
            pc := .sendResult ENOMEM
            replies := w.replies ++ [.error ENOMEM] })
      else none
    | _ => none
  | .reply ret =>
    match w.pc with
    | .exec r => if ret.fits r.req then some (.ok (w.answer r.req ret)) else none
    | _ => none
  | .send =>
    match w.pc with
    | .sendValue ret =>
      some (.ok { w with
        pc := .sendResult (retOf ret)
        outbox := w.outbox ++ (replyValue ret).encode })
    | .sendResult result =>
      some (.ok { w with pc := .header, outbox := w.outbox ++ int32Code.encode result })
    | _ => none

/-- A worker whose client has sent nothing yet. -/
def Worker.start : Worker := ⟨.header, [], [], [], []⟩

/-! ## What a step does -/

/-- What `pkg_head` holds once `n` bytes are read into it. -/
def Worker.pkgHead (w : Worker) (n : ℕ) (stale : List UInt8) : List UInt8 :=
  w.inbox.take n ++ stale.drop n

/-- A step that does not fault, with what it needs and what it changes. -/
inductive WorkerStep (w : Worker) : WorkerAction → Worker → Prop
  /-- a get or a del -/
  | request {n : ℕ} {stale : List UInt8} {alloc : Bool} {req : IoRequest} {key : CString}
      (hpc : w.pc = .header) (hrecv : headerOk n stale w.inbox = true)
      (hkey : IoPackage.key (w.pkgHead n stale) = some key)
      (htype : IoPackage.type (w.pkgHead n stale) = req.type) (hreq : req.value = none) :
      WorkerStep w (.recv n stale alloc)
        { w with
          pc := .exec ⟨req, key⟩
          inbox := w.inbox.drop n
          decoded := w.decoded ++ [.request ⟨req, key⟩] }
  /-- a set, and memory for its value -/
  | setHead {n : ℕ} {stale : List UInt8} {key : CString}
      (hpc : w.pc = .header) (hrecv : headerOk n stale w.inbox = true)
      (hkey : IoPackage.key (w.pkgHead n stale) = some key)
      (htype : IoPackage.type (w.pkgHead n stale) = IoType.set) :
      WorkerStep w (.recv n stale true)
        { w with
          pc := .data key (IoPackage.value (w.pkgHead n stale))
          inbox := w.inbox.drop n }
  | setNoMemory {n : ℕ} {stale : List UInt8} {key : CString}
      (hpc : w.pc = .header) (hrecv : headerOk n stale w.inbox = true)
      (hkey : IoPackage.key (w.pkgHead n stale) = some key)
      (htype : IoPackage.type (w.pkgHead n stale) = IoType.set) :
      WorkerStep w (.recv n stale false)
        { w with
          pc := .discard
          inbox := w.inbox.drop n
          decoded := w.decoded ++ [.noMemory key (IoPackage.value (w.pkgHead n stale))] }
  | unknown {n : ℕ} {stale : List UInt8} {alloc : Bool} {key : CString}
      (hpc : w.pc = .header) (hrecv : headerOk n stale w.inbox = true)
      (hkey : IoPackage.key (w.pkgHead n stale) = some key)
      (htype : ∀ req : IoRequest, IoPackage.type (w.pkgHead n stale) ≠ req.type) :
      WorkerStep w (.recv n stale alloc)
        { w with
          pc := .sendResult 0
          inbox := w.inbox.drop n
          decoded := w.decoded ++ [.unknown (IoPackage.type (w.pkgHead n stale))]
          replies := w.replies ++ [.ok none] }
  /-- the data of a value is complete -/
  | setValue {n : ℕ} {stale : List UInt8} {alloc : Bool} {key : CString} {head : ValueHead}
      {value : Value} (hpc : w.pc = .data key head)
      (hrecv : recvOk head.length.toNat n w.inbox = true)
      (hset : serverSet head (w.inbox.take n) = .ok value) :
      WorkerStep w (.recv n stale alloc)
        { w with
          pc := .exec ⟨.set value, key⟩
          inbox := w.inbox.drop n
          decoded := w.decoded ++ [.request ⟨.set value, key⟩] }
  | setShort {n : ℕ} {stale : List UInt8} {alloc : Bool} {key : CString} {head : ValueHead}
      (hpc : w.pc = .data key head) (hrecv : recvOk head.length.toNat n w.inbox = true)
      (hset : serverSet head (w.inbox.take n) = .error EIO) :
      WorkerStep w (.recv n stale alloc)
        { w with
          pc := .sendResult EIO
          inbox := w.inbox.drop n
          decoded := w.decoded ++ [.short key head]
          replies := w.replies ++ [.error EIO] }
  | discardMore {stale : List UInt8} {alloc : Bool} (hpc : w.pc = .discard)
      (hrecv : recvNonblockOk discardSize discardSize w.inbox = true) :
      WorkerStep w (.recv discardSize stale alloc) { w with inbox := w.inbox.drop discardSize }
  | discardEnd {n : ℕ} {stale : List UInt8} {alloc : Bool} (hpc : w.pc = .discard)
      (hrecv : recvNonblockOk discardSize n w.inbox = true) (hn : n ≠ discardSize) :
      WorkerStep w (.recv n stale alloc)
        { w with
          pc := .sendResult ENOMEM
          inbox := w.inbox.drop n
          replies := w.replies ++ [.error ENOMEM] }
  /-- the io function returned -/
  | answered {r : WireRequest} {ret : IoResult} (hpc : w.pc = .exec r)
      (hfits : ret.fits r.req = true) : WorkerStep w (.reply ret) (w.answer r.req ret)
  | sentValue {ret : IoResult} (hpc : w.pc = .sendValue ret) :
      WorkerStep w .send
        { w with pc := .sendResult (retOf ret), outbox := w.outbox ++ (replyValue ret).encode }
  | sentResult {result : Int32} (hpc : w.pc = .sendResult result) :
      WorkerStep w .send { w with pc := .header, outbox := w.outbox ++ int32Code.encode result }

/-- A step faults only where the key of a package has no end. -/
inductive WorkerFaults (w : Worker) : WorkerAction → Prop
  | key {n : ℕ} {stale : List UInt8} {alloc : Bool} (hpc : w.pc = .header)
      (hrecv : headerOk n stale w.inbox = true)
      (hkey : IoPackage.key (w.pkgHead n stale) = none) : WorkerFaults w (.recv n stale alloc)

theorem recvOk_le {want n : ℕ} {queue : List UInt8} (h : recvOk want n queue = true) :
    n ≤ queue.length := by
  simp only [recvOk, Bool.and_eq_true, decide_eq_true_eq] at h
  exact h.1.2

/-- A `recv` waits while there is nothing to read. -/
@[simp] theorem recvOk_nil (want n : ℕ) : recvOk want n [] = false := rfl

/-- A `recv` of all that is asked for returns where it is there. -/
theorem recvOk_full {want : ℕ} {queue : List UInt8} (hqueue : queue ≠ [])
    (h : want ≤ queue.length) : recvOk want want queue = true := by
  simp only [recvOk, Bool.and_eq_true, Bool.or_eq_true, decide_eq_true_eq, Bool.not_eq_true',
    List.isEmpty_eq_false_iff]
  exact ⟨⟨⟨hqueue, le_rfl⟩, h⟩, (Nat.eq_zero_or_pos want).symm⟩

theorem recvNonblockOk_le {want n : ℕ} {queue : List UInt8}
    (h : recvNonblockOk want n queue = true) : n ≤ queue.length := by
  rcases Bool.or_eq_true_iff.mp h with h | h
  · exact recvOk_le h
  · rw [Bool.and_eq_true, decide_eq_true_eq] at h
    omega

theorem headerOk_le {n : ℕ} {stale queue : List UInt8} (h : headerOk n stale queue = true) :
    n ≤ queue.length ∧ stale.length = sizeofIoPackage := by
  simp only [headerOk, Bool.and_eq_true, decide_eq_true_eq] at h
  exact ⟨recvOk_le h.1, h.2⟩

@[simp] theorem headerOk_nil (n : ℕ) (stale : List UInt8) : headerOk n stale [] = false := rfl

theorem serverSet_ok {head : ValueHead} {data : List UInt8} {v : Value}
    (h : serverSet head data = .ok v) :
    v.type = head.type ∧ v.data = data ∧ data.length = head.length.toNat := by
  unfold serverSet at h
  split at h
  · rename_i hlen
    cases h
    exact ⟨rfl, rfl, hlen⟩
  · cases h

theorem serverSet_error {head : ValueHead} {data : List UInt8} {e : Errno}
    (h : serverSet head data = .error e) : e = EIO ∧ data.length ≠ head.length.toNat := by
  unfold serverSet at h
  split at h
  · cases h
  · rename_i hlen
    cases h
    exact ⟨rfl, hlen⟩

/-- The type byte of a request tells which it is. -/
theorem IoType.cases (type : UInt8) :
    type = IoType.get ∨ type = IoType.set ∨ type = IoType.del ∨
      ∀ req : IoRequest, type ≠ req.type := by
  by_cases hget : type = IoType.get
  · exact .inl hget
  by_cases hset : type = IoType.set
  · exact .inr (.inl hset)
  by_cases hdel : type = IoType.del
  · exact .inr (.inr (.inl hdel))
  refine .inr (.inr (.inr fun req => ?_))
  cases req with
  | get => exact hget
  | set v => exact hset
  | del => exact hdel

/-- The `switch` after the header: a step, or a key without an end. -/
theorem Worker.dispatch_cases {w : Worker} {n : ℕ} {stale : List UInt8} {alloc : Bool}
    {r : Except Fault Worker} (hpc : w.pc = .header) (hrecv : headerOk n stale w.inbox = true)
    (h : Worker.dispatch { w with inbox := w.inbox.drop n } (w.pkgHead n stale) alloc = r) :
    (∃ w', r = .ok w' ∧ WorkerStep w (.recv n stale alloc) w') ∨
      (∃ f, r = .error f ∧ WorkerFaults w (.recv n stale alloc)) := by
  subst h
  unfold Worker.dispatch
  split
  · rename_i hkey
    exact .inr ⟨_, rfl, .key hpc hrecv hkey⟩
  · rename_i key hkey
    refine .inl ?_
    -- the comparisons before the one that agrees have failed
    rcases IoType.cases (IoPackage.type (w.pkgHead n stale)) with htype | htype | htype | htype
    · have hget : IoPackage.type (w.pkgHead n stale) = IoRequest.get.type := htype
      exact ⟨_, if_pos htype, .request hpc hrecv hkey hget rfl⟩
    · have hne : ¬ IoPackage.type (w.pkgHead n stale) = IoType.get := by
        rw [htype]
        decide
      cases alloc with
      | true =>
        exact ⟨_, (if_neg hne).trans ((if_pos htype).trans (if_pos rfl)),
          .setHead hpc hrecv hkey htype⟩
      | false =>
        exact ⟨_, (if_neg hne).trans ((if_pos htype).trans (if_neg Bool.false_ne_true)),
          .setNoMemory hpc hrecv hkey htype⟩
    · have hne : ¬ IoPackage.type (w.pkgHead n stale) = IoType.get := by
        rw [htype]
        decide
      have hne' : ¬ IoPackage.type (w.pkgHead n stale) = IoType.set := by
        rw [htype]
        decide
      have hdel : IoPackage.type (w.pkgHead n stale) = IoRequest.del.type := htype
      exact ⟨_, (if_neg hne).trans ((if_neg hne').trans (if_pos htype)),
        .request hpc hrecv hkey hdel rfl⟩
    · exact ⟨_, (if_neg (htype .get)).trans ((if_neg (htype (.set ⟨0, [], by decide⟩))).trans
        (if_neg (htype .del))), .unknown hpc hrecv hkey htype⟩

/-- `set` after its data: a step. -/
theorem Worker.setData_step {w : Worker} {n : ℕ} {stale : List UInt8} {alloc : Bool}
    {key : CString} {head : ValueHead} (hpc : w.pc = .data key head)
    (hrecv : recvOk head.length.toNat n w.inbox = true) :
    WorkerStep w (.recv n stale alloc)
      (Worker.setData { w with inbox := w.inbox.drop n } key head (w.inbox.take n)) := by
  unfold Worker.setData
  cases hset : serverSet head (w.inbox.take n) with
  | ok value => exact .setValue hpc hrecv hset
  | error e =>
    obtain ⟨rfl, -⟩ := serverSet_error hset
    exact .setShort hpc hrecv hset

/-- **What a step of the worker does.** -/
theorem workerStep_cases {w : Worker} {a : WorkerAction} {r : Except Fault Worker}
    (h : workerStep w a = some r) :
    (∃ w', r = .ok w' ∧ WorkerStep w a w') ∨ (∃ f, r = .error f ∧ WorkerFaults w a) := by
  cases a with
  | recv n stale alloc =>
    simp only [workerStep] at h
    split at h
    · rename_i hpc
      split at h
      · rename_i hrecv
        exact Worker.dispatch_cases hpc hrecv (Option.some.inj h)
      · cases h
    · rename_i key head hpc
      split at h
      · rename_i hrecv
        cases h
        exact .inl ⟨_, rfl, Worker.setData_step hpc hrecv⟩
      · cases h
    · rename_i hpc
      split at h
      · rename_i hrecv
        split at h
        · rename_i hn
          cases h
          subst hn
          exact .inl ⟨_, rfl, .discardMore hpc hrecv⟩
        · rename_i hn
          cases h
          exact .inl ⟨_, rfl, .discardEnd hpc hrecv hn⟩
      · cases h
    -- elsewhere the worker does not receive
    · cases h
  | reply ret =>
    simp only [workerStep] at h
    split at h
    · rename_i r hpc
      split at h
      · rename_i hfits
        cases h
        exact .inl ⟨_, rfl, .answered hpc hfits⟩
      · cases h
    · cases h
  | send =>
    simp only [workerStep] at h
    split at h
    · rename_i ret hpc
      cases h
      exact .inl ⟨_, rfl, .sentValue hpc⟩
    · rename_i result hpc
      cases h
      exact .inl ⟨_, rfl, .sentResult hpc⟩
    · cases h

theorem workerStep_ok {w w' : Worker} {a : WorkerAction} (h : workerStep w a = some (.ok w')) :
    WorkerStep w a w' := by
  rcases workerStep_cases h with ⟨w'', heq, hs⟩ | ⟨f, heq, -⟩
  · cases heq
    exact hs
  · cases heq

end Propd
