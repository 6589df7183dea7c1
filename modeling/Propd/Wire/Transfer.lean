import Propd.Wire.Framing

/-!
# Complete transfers

A session of a unix storage in which every `send` and `recv` transfers what it is asked for and
every `malloc` succeeds. Such a session is transparent: what its calls return is what direct
calls of the io functions return, in the same order, and between two calls the connection is
empty. `Direct` says what direct calls are.

Nothing is assumed about the keys until the end: the results of a session are those of the
requests as the worker reads them.

A set of a value without data is the one call that does not end. The worker asks `recv` for the
0 bytes of the value, which waits until there is something to read, and the client, which waits
for the result, will not send anything.
-/

namespace Propd

open Lib

/-! ## Direct calls -/

/-- The io functions of a server as they are called directly: `call x r ret y` says that in the
state `x` of the node the request `r` may return `ret` and leave the state `y`. A get that
succeeds returns a value. -/
structure IoServer (σ : Type) where
  call : σ → WireRequest → IoResult → σ → Prop
  fits : ∀ {x y : σ} {r : WireRequest} {ret : IoResult}, call x r ret y → ret.fits r.req = true

/-- The requests `reqs`, called one after another, return `rets`. -/
inductive Direct {σ : Type} (S : IoServer σ) (x₀ : σ) :
    List WireRequest → List IoResult → σ → Prop
  | nil : Direct S x₀ [] [] x₀
  | snoc {reqs : List WireRequest} {rets : List IoResult} {x y : σ} {r : WireRequest}
      {ret : IoResult} (h : Direct S x₀ reqs rets x) (hcall : S.call x r ret y) :
      Direct S x₀ (reqs ++ [r]) (rets ++ [ret]) y

/-- A session, and the node its worker calls. -/
structure Served (σ : Type) where
  session : Session
  node : σ

/-- A step of the session; where the io function returns, the node takes a step with it. -/
inductive ServedStep {σ : Type} (S : IoServer σ) (s : Served σ) : SessionAction → Served σ → Prop
  | io {r : WireRequest} {ret : IoResult} {session : Session} {node : σ}
      (hpc : s.session.worker.pc = .exec r) (hcall : S.call s.node r ret node)
      (hs : sessionStep s.session (.worker (.reply ret)) = some (.ok session)) :
      ServedStep S s (.worker (.reply ret)) ⟨session, node⟩
  | other {a : SessionAction} {session : Session} (ha : ∀ ret, a ≠ .worker (.reply ret))
      (hs : sessionStep s.session a = some (.ok session)) :
      ServedStep S s a ⟨session, s.node⟩

/-- The sessions of a shared connection to the node `S`. -/
def servedSystem {σ : Type} (S : IoServer σ) (x₀ : σ) : LTS (Served σ) SessionAction where
  init s := s = ⟨.start, x₀⟩
  step := ServedStep S

/-! ## Complete steps -/

/-- A `recv` of the worker returns what it asks for, the one that does not block as much of it
as is there, and there is memory. -/
def Worker.complete (w : Worker) : WorkerAction → Bool
  | .recv n _ alloc =>
    alloc && match w.pc with
    | .header => n = sizeofIoPackage
    | .data _ head => n = head.length.toNat
    | .discard => n = min discardSize w.inbox.length
    | _ => true
  | .reply _ | .send => true

/-- A step of a session whose `send` or `recv`, if it has one, is complete. -/
def Session.complete (s : Session) : SessionAction → Bool
  | .call _ _ | .sendData => true
  | .recv n alloc =>
    alloc && match s.client with
    | .discard _ => n = min discardSize s.worker.outbox.length
    | pc => pc.want = some n
  | .worker a => s.worker.complete a

/-- The request of a call has a key that ends within the package. -/
def Session.readable : SessionAction → Bool
  | .call r _ => r.asRead.isSome
  | _ => true

/-- How many steps the client has left in its call. -/
def ClientPc.rank : ClientPc → ℕ
  | idle => 0
  | sendData _ => 2
  | result => 1
  | getDuration => 5
  | getHead _ => 4
  | getData _ _ => 3
  | getResult _ _ => 2
  | discard _ => 1

def ClientNext.rank : ClientNext → ℕ
  | goOn pc => pc.rank
  | done _ => 0

/-- How many steps the worker has left, with a request it has not read or without one. -/
def WorkerPc.rank (unread : Bool) : WorkerPc → ℕ
  | header => if unread then 5 else 0
  | data _ _ => 4
  | discard => 4
  | exec _ => 3
  | sendValue _ => 2
  | sendResult _ => 1

/-- How many steps are left until the call is over. -/
def Session.remaining (s : Session) : ℕ :=
  s.client.rank + s.worker.pc.rank (s.worker.decoded.length < s.sent.length)

/-! ## The worker -/

theorem Worker.orderly_of_complete {w : Worker} {unsent : List UInt8} {a : WorkerAction}
    (hc : w.complete a = true) (hpc : w.pc ≠ .discard) : w.orderly unsent a = true := by
  cases a with
  | reply ret => rfl
  | send => rfl
  | recv n stale alloc =>
    have hn := (Bool.and_eq_true_iff.mp hc).2
    unfold Worker.orderly
    cases hw : w.pc with
    | header => simpa [hw] using hn
    | data key head => simpa [hw] using hn
    | discard => exact absurd hw hpc
    | exec r => rfl
    | sendValue ret => rfl
    | sendResult result => rfl

/-- What a complete step of the worker does in a call: only an io function that returns adds to
the replies, and the step brings the call nearer to its end. -/
structure CompleteWork (r : WireRequest) (n : ℕ) (w w' : Worker) (a : WorkerAction) : Prop where
  memory : w'.pc ≠ .discard
  requests : ∀ d ∈ w'.decoded,
    d ∈ w.decoded ∨ ∃ r', d = .request r' ∧ r'.req.setsEmpty = false
  replies : (∃ ret, a = .reply ret ∧ w.pc = .exec r ∧ w.replies.length = n ∧
      w'.replies = w.replies ++ [ret]) ∨
    ((∀ ret, a ≠ .reply ret) ∧ w'.replies = w.replies)
  rank : w'.pc.rank (w'.decoded.length < n + 1) < w.pc.rank (w.decoded.length < n + 1)

theorem WorkerAt.completeWork {r : WireRequest} {n : ℕ} {w w' : Worker} {unsent taken : List UInt8}
    {a : WorkerAction}
    (hat : WorkerAt r n w.decoded w.replies (w.inbox ++ unsent) (taken ++ w.outbox) w.pc)
    (hpc : w.pc ≠ .discard) (hc : w.complete a = true) (hs : WorkerStep w a w') :
    CompleteWork r n w w' a := by
  have ho : w.orderly unsent a = true := Worker.orderly_of_complete hc hpc
  have hone : ∀ r' : WireRequest, r'.req.setsEmpty = false → ∀ d ∈ w.decoded ++ [.request r'],
      d ∈ w.decoded ∨ ∃ r', d = .request r' ∧ r'.req.setsEmpty = false := by
    intro r' hsets d hd
    rcases List.mem_append.mp hd with hold | hnew
    · exact .inl hold
    · exact .inr ⟨r', List.mem_singleton.mp hnew, hsets⟩
  cases hs with
  | @request n' stale alloc req key hw hrecv hkey htype hreq =>
    obtain ⟨-, -, -, hdec, -⟩ := hat.readsHeader hw hrecv ho
    refine ⟨nofun, hone _ (by simp [IoRequest.setsEmpty, hreq]), .inr ⟨nofun, rfl⟩, ?_⟩
    simp [hw, hdec, WorkerPc.rank]
  | @setHead n' stale key hw hrecv hkey htype =>
    obtain ⟨-, -, -, hdec, -⟩ := hat.readsHeader hw hrecv ho
    refine ⟨nofun, fun d hd => .inl hd, .inr ⟨nofun, rfl⟩, ?_⟩
    simp [hw, hdec, WorkerPc.rank]
  | setNoMemory => cases hc
  | @unknown n' stale alloc key hw hrecv hkey htype =>
    obtain ⟨⟨created, hpkg⟩, -⟩ := hat.readsHeader hw hrecv ho
    exact absurd (by rw [hpkg, ioPackage_type]) (htype r.req)
  | @setValue n' stale alloc key head value hw hrecv hset =>
    -- a value without data is not received: there is nothing to read
    have hsets : (IoRequest.set value).setsEmpty = false := by
      obtain ⟨hr, hrest, -⟩ := hat.readsValue hw hrecv ho hset
      obtain ⟨-, hdata, -⟩ := serverSet_ok hset
      show value.data.isEmpty = false
      rw [List.isEmpty_eq_false_iff, hdata]
      intro htake
      have hin : w.inbox = [] := by
        rw [← List.take_append_drop n' w.inbox, htake, (List.append_eq_nil_iff.mp hrest).1]
        rfl
      rw [hin, recvOk_nil] at hrecv
      cases hrecv
    refine ⟨nofun, hone _ hsets, .inr ⟨nofun, rfl⟩, ?_⟩
    simp [hw, WorkerPc.rank]
  -- the data came in full
  | setShort hw hrecv hset => exact absurd hset (Worker.orderly_not_short hw hrecv ho)
  | discardMore hw => exact absurd hw hpc
  | discardEnd hw => exact absurd hw hpc
  | @answered r' ret hw hfits =>
    have hrep : r' = r ∧ w.replies.length = n := by
      rw [hw] at hat
      cases hat with
      | exec hin hout hdec hrep => exact ⟨rfl, hrep⟩
    obtain ⟨rfl, hrep⟩ := hrep
    obtain ⟨hdecoded, hreplies⟩ := w.answer_log r'.req ret
    refine ⟨?_, ?_, .inl ⟨ret, rfl, hw, hrep, hreplies⟩, ?_⟩
    · unfold Worker.answer
      cases r'.req <;> nofun
    · intro d hd
      rw [hdecoded] at hd
      exact .inl hd
    · unfold Worker.answer
      cases r'.req <;> simp [hw, WorkerPc.rank]
  | @sentValue ret hw =>
    refine ⟨nofun, fun d hd => .inl hd, .inr ⟨nofun, rfl⟩, ?_⟩
    simp [hw, WorkerPc.rank]
  | @sentResult result hw =>
    have hdec : w.decoded.length = n + 1 := by
      rw [hw] at hat
      cases hat with
      | sendResult hin hout hret => exact hret.hdec
    refine ⟨nofun, fun d hd => .inl hd, .inr ⟨nofun, rfl⟩, ?_⟩
    simp [hw, hdec, WorkerPc.rank]

/-! ## The client -/

/-- A complete `recv` brings the call nearer to its end. -/
theorem ClientPc.received_rank {pc : ClientPc} {bytes : List UInt8}
    (hwant : pc.want = some bytes.length) (hpc : ∀ e, pc ≠ .discard e) :
    (pc.received bytes true).rank < pc.rank := by
  cases pc with
  | idle => cases hwant
  | sendData value => cases hwant
  | result =>
    have hlen : bytes.length = int32Code.width := (Option.some.inj hwant).symm
    simp [received, hlen, ClientNext.rank, ClientPc.rank]
  | getDuration =>
    have hlen : bytes.length = int64Code.width := (Option.some.inj hwant).symm
    simp [received, hlen, ClientNext.rank, ClientPc.rank]
  | getHead duration =>
    have hlen : bytes.length = valueHeadCode.width := (Option.some.inj hwant).symm
    simp [received, hlen, ClientNext.rank, ClientPc.rank]
  | getData duration head =>
    have hlen : bytes.length = head.length.toNat := (Option.some.inj hwant).symm
    simp [received, hlen, ClientNext.rank, ClientPc.rank]
  | getResult duration value =>
    have hlen : bytes.length = int32Code.width := (Option.some.inj hwant).symm
    simp only [received, hlen, ne_eq, not_true_eq_false, if_false]
    cases statusOf (int32Code.decode bytes) <;> simp [ClientNext.rank, ClientPc.rank]
  | discard e => exact absurd rfl (hpc e)

/-- Only a result that is not zero makes a get discard, and then there is nothing to discard. -/
theorem ClientPc.received_discard {pc : ClientPc} {bytes : List UInt8} {e : Errno}
    (hwant : pc.want = some bytes.length) (hpc : ∀ e, pc ≠ .discard e)
    (h : pc.received bytes true = .goOn (.discard e)) :
    ∃ duration value, pc = .getResult duration value ∧ bytes.length = int32Code.width ∧
      statusOf (int32Code.decode bytes) = .error e := by
  cases pc with
  | idle => cases hwant
  | sendData value => cases hwant
  | result =>
    have hlen : bytes.length = int32Code.width := (Option.some.inj hwant).symm
    simp [received, hlen] at h
  | getDuration =>
    have hlen : bytes.length = int64Code.width := (Option.some.inj hwant).symm
    simp [received, hlen] at h
  | getHead duration =>
    have hlen : bytes.length = valueHeadCode.width := (Option.some.inj hwant).symm
    simp [received, hlen] at h
  | getData duration head =>
    have hlen : bytes.length = head.length.toNat := (Option.some.inj hwant).symm
    simp [received, hlen] at h
  | getResult duration value =>
    have hlen : bytes.length = int32Code.width := (Option.some.inj hwant).symm
    refine ⟨duration, value, rfl, hlen, ?_⟩
    simp only [received, hlen, ne_eq, not_true_eq_false, if_false] at h
    cases hstatus : statusOf (int32Code.decode bytes) with
    | error e' =>
      rw [hstatus] at h
      cases h
      rfl
    | ok u =>
      rw [hstatus] at h
      cases h
  | discard e => exact absurd rfl (hpc e)

/-! ## A session -/

/-- A call is under way after `earlier`, for the request `r` as the worker reads it, and nothing
went wrong with it; where it discards, it will return the reply. -/
structure Session.Carries (s : Session) (earlier : List WireRequest) (r : WireRequest) : Prop where
  reads : ∀ created, IoPackage.key (ioPackage r created) = some r.key
  returned : s.returned.length = earlier.length
  client : ClientAt r.req s.client s.taken
  worker : WorkerAt r earlier.length s.worker.decoded s.worker.replies
    (s.worker.inbox ++ s.unsent) (s.taken ++ s.worker.outbox) s.worker.pc
  memory : s.worker.pc ≠ .discard
  failed : ∀ e, s.client = .discard e → s.worker.pc = .header ∧ s.worker.inbox = [] ∧
    s.worker.outbox = [] ∧ Answered r earlier.length s.worker.decoded s.worker.replies (.error e)

/-- The invariant of a session with complete transfers: `reqs` are the requests so far as the
worker reads them, it has decoded these, no set of a value without data among them, and the
calls have returned its replies. -/
structure TransferInv (s : Session) (reqs : List WireRequest) : Prop where
  sent : s.sent.map WireRequest.asRead = reqs.map some
  decoded : Aligned Decoded.Of s.worker.decoded reqs
  requests : ∀ d ∈ s.worker.decoded, ∃ r, d = .request r ∧ r.req.setsEmpty = false
  returned : Aligned Eq s.returned s.worker.replies
  phase : s.Boundary ∨ ∃ earlier r, reqs = earlier ++ [r] ∧ s.Carries earlier r

theorem TransferInv.start : TransferInv Session.start [] :=
  ⟨rfl, .nil, nofun, .nil, .inl ⟨rfl, rfl, rfl, rfl, rfl, rfl, rfl⟩⟩

theorem TransferInv.length_sent {s : Session} {reqs : List WireRequest} (h : TransferInv s reqs) :
    s.sent.length = reqs.length := by
  simpa using congrArg List.length h.sent

/-- A call begins. -/
theorem TransferInv.call {s : Session} {reqs : List WireRequest} {r r' : WireRequest}
    {created : Timestamp} (h : TransferInv s reqs) (hread : r.asRead = some r')
    (hpc : s.client = .idle) :
    TransferInv
      { s with
        client := r.req.begin
        worker.inbox := s.worker.inbox ++ ioPackage r created
        taken := []
        sent := s.sent ++ [r] } (reqs ++ [r']) := by
  obtain ⟨hpkg, hreq⟩ := WireRequest.asRead_package hread created
  rcases h.phase with hb | ⟨earlier, r₀, -, hcarries⟩
  · refine ⟨?_, h.decoded.append_right _, h.requests, h.returned, .inr ⟨reqs, r', rfl, ?_⟩⟩
    · rw [List.map_append, List.map_append, h.sent]
      simp [hread]
    · have hlen := h.length_sent
      refine ⟨r.asRead_reads hread, hb.returned.trans hlen, ?_, ?_, ?_, ?_⟩
      · rw [← hreq]
        exact .begin r'.req
      · -- the package is the one of the request as it is read
        have hunsent : Session.unsent { s with client := r.req.begin } = r'.req.data := by
          rw [hreq]
          exact s.unsent_begin r.req
        show WorkerAt r' _ _ _ (s.worker.inbox ++ ioPackage r created ++ _)
          ([] ++ s.worker.outbox) s.worker.pc
        rw [hb.inbox, hb.outbox, hb.worker, ← hpkg]
        exact .unread (congrArg _ hunsent) rfl (hb.decoded.trans hlen) (hb.replies.trans hlen)
      · show s.worker.pc ≠ .discard
        rw [hb.worker]
        nofun
      · intro e he
        have hne : r.req.begin ≠ .discard e := by cases r.req <;> nofun
        exact absurd he hne
  · have hclient := hcarries.client
    rw [hpc] at hclient
    cases hclient

/-- The call sends the data of its value. -/
theorem TransferInv.sendData {s : Session} {reqs : List WireRequest} {value : Value}
    (h : TransferInv s reqs) (hpc : s.client = .sendData value) :
    TransferInv
      { s with client := .result, worker.inbox := s.worker.inbox ++ value.data } reqs := by
  rcases h.phase with hb | ⟨earlier, r, hreqs, hcarries⟩
  · cases hpc.symm.trans hb.client
  · have hclient := hcarries.client
    have hworker := hcarries.worker
    rw [hpc] at hclient
    rw [Session.unsent, hpc] at hworker
    refine ⟨h.sent, h.decoded, h.requests, h.returned, .inr ⟨earlier, r, hreqs, ?_⟩⟩
    refine ⟨hcarries.reads, hcarries.returned, ?_, ?_, hcarries.memory, by simp⟩
    · exact hclient.sentData
    · show WorkerAt r _ _ _ (s.worker.inbox ++ value.data ++ []) _ s.worker.pc
      rw [List.append_nil]
      exact hworker

/-- The session after a `recv` of the client. -/
def Session.receive (s : Session) (n : ℕ) : Session :=
  Session.proceed
    { s with
      worker.outbox := s.worker.outbox.drop n
      taken := s.taken ++ s.worker.outbox.take n }
    (s.client.received (s.worker.outbox.take n) true)

/-- A call returns, and the session is at a boundary. -/
theorem TransferInv.done {s : Session} {earlier : List WireRequest} {r : WireRequest} {n : ℕ}
    {ret : IoResult} (h : TransferInv s (earlier ++ [r])) (hcarries : s.Carries earlier r)
    (hdone : s.client.received (s.worker.outbox.take n) true = .done ret)
    (hpc : s.worker.pc = .header) (hin : s.worker.inbox = []) (hrest : s.worker.outbox.drop n = [])
    (hret : Answered r earlier.length s.worker.decoded s.worker.replies ret) :
    TransferInv (s.receive n) (earlier ++ [r]) := by
  have hsent : s.sent.length = earlier.length + 1 := by
    rw [h.length_sent, List.length_append, List.length_singleton]
  unfold Session.receive
  rw [hdone]
  refine ⟨h.sent, h.decoded, h.requests, h.returned.snoc_left ?_ rfl,
    .inl ⟨rfl, hpc, hin, hrest, ?_, ?_, ?_⟩⟩
  · rw [hcarries.returned]
    exact hret.last
  · exact hret.hdec.trans hsent.symm
  · exact hret.hrep.trans hsent.symm
  · show (s.returned ++ [ret]).length = s.sent.length
    rw [List.length_append, hcarries.returned, hsent, List.length_singleton]

/-- A call that goes on to discard had an error for its result: the reply has come whole, and it
is this error. -/
theorem Session.Carries.discards {s : Session} {earlier : List WireRequest} {r : WireRequest}
    {n : ℕ} {e : Errno} (h : s.Carries earlier r) (hpc : ∀ e, s.client ≠ .discard e)
    (hfull : s.client.want = some (s.worker.outbox.take n).length)
    (hgoOn : s.client.received (s.worker.outbox.take n) true = .goOn (.discard e)) :
    s.worker.pc = .header ∧ s.worker.inbox = [] ∧ s.worker.outbox.drop n = [] ∧
      Answered r earlier.length s.worker.decoded s.worker.replies (.error e) := by
  have hwant : s.client.want ≠ none := by
    rw [hfull]
    nofun
  obtain ⟨duration, value, hget, hlen, hstatus⟩ := ClientPc.received_discard hfull hpc hgoOn
  have hat := h.client
  have hworker := h.worker
  rw [Session.unsent_of_want hwant, List.append_nil, ← List.take_append_drop n s.worker.outbox]
    at hworker
  rw [hget] at hat
  generalize s.taken = taken at hat hworker
  cases hat with
  | getResult hreq h₁ h₂ hv =>
    obtain ⟨hwpc, hin, hrest, reply, hret, hdecode, -⟩ := hworker.of_getResult hreq h₁ h₂ hv hlen
    rw [hdecode, statusOf_retOf] at hstatus
    refine ⟨hwpc, hin, hrest, ?_⟩
    cases reply with
    | ok x => cases hstatus
    | error e' =>
      cases hstatus
      exact hret

/-- A call receives in full and goes on. -/
theorem TransferInv.goesOn {s : Session} {earlier : List WireRequest} {r : WireRequest} {n : ℕ}
    {pc' : ClientPc} (h : TransferInv s (earlier ++ [r])) (hcarries : s.Carries earlier r)
    (hpc : ∀ e, s.client ≠ .discard e)
    (hfull : s.client.want = some (s.worker.outbox.take n).length)
    (hgoOn : s.client.received (s.worker.outbox.take n) true = .goOn pc')
    (hwant' : pc'.want ≠ none) (hclient : ClientAt r.req pc' (s.taken ++ s.worker.outbox.take n)) :
    TransferInv (s.receive n) (earlier ++ [r]) ∧ (s.receive n).remaining < s.remaining := by
  have hwant : s.client.want ≠ none := by
    rw [hfull]
    nofun
  have hrank := ClientPc.received_rank hfull hpc
  rw [hgoOn] at hrank
  have hnext : s.receive n =
      { s with
        client := pc'
        worker.outbox := s.worker.outbox.drop n
        taken := s.taken ++ s.worker.outbox.take n } := by
    unfold Session.receive
    rw [hgoOn]
    rfl
  rw [hnext]
  constructor
  · refine ⟨h.sent, h.decoded, h.requests, h.returned, .inr ⟨earlier, r, rfl, ?_⟩⟩
    refine ⟨hcarries.reads, hcarries.returned, hclient,
      Session.worker_goOn hwant hwant' hcarries.worker, hcarries.memory, ?_⟩
    rintro e rfl
    exact hcarries.discards hpc hfull hgoOn
  · -- the worker has not moved
    exact Nat.add_lt_add_right hrank _

/-- **A complete `recv` of the client** keeps the invariant and brings the call nearer to its
end. -/
theorem TransferInv.recv {s : Session} {reqs : List WireRequest} {n : ℕ} (h : TransferInv s reqs)
    (hc : s.complete (.recv n true) = true) (hrecv : s.client.mayRecv n s.worker.outbox = true) :
    TransferInv (s.receive n) reqs ∧ (s.receive n).remaining < s.remaining := by
  obtain ⟨hwant, hle⟩ := ClientPc.mayRecv_le hrecv
  rcases h.phase with hb | ⟨earlier, r, rfl, hcarries⟩
  · rw [hb.client] at hwant
    exact absurd rfl hwant
  by_cases hpc : ∀ e, s.client ≠ .discard e
  · have hn : s.client.want = some n := by
      unfold Session.complete at hc
      cases hclient : s.client with
      | discard e => exact absurd hclient (hpc e)
      | _ => simpa [hclient] using hc
    have hfull : s.client.want = some (s.worker.outbox.take n).length := by
      rw [List.length_take_of_le hle, hn]
    have hresult : s.client = .result →
        (s.worker.outbox.take n).length = int32Code.width := by
      intro hclient
      rw [hclient] at hfull
      exact (Option.some.inj hfull).symm
    -- either the call goes on, or it is over
    rcases hcarries.client.received hwant hresult true with
      ⟨pc', hgoOn, hwant', hclient⟩ | ⟨ret, hdone, hcall⟩
    · exact h.goesOn hcarries hpc hfull hgoOn hwant' hclient
    · have hrank := ClientPc.received_rank hfull hpc
      have hworker := hcarries.worker
      rw [Session.unsent_of_want hwant, List.append_nil,
        ← List.take_append_drop n s.worker.outbox] at hworker
      obtain ⟨hwpc, hin, hrest, hret⟩ := hcall.exact hworker hpc
      refine ⟨h.done hcarries hdone hwpc hin hrest hret, ?_⟩
      rw [hdone] at hrank
      unfold Session.receive
      rw [hdone]
      exact Nat.add_lt_add_right hrank _
  · -- a get that failed: there is nothing left to read
    obtain ⟨e, he⟩ : ∃ e, s.client = .discard e := by simpa using hpc
    obtain ⟨hwpc, hin, hout, hret⟩ := hcarries.failed e he
    have hdone : s.client.received (s.worker.outbox.take n) true = .done (.error e) := by
      rw [he, hout, List.take_nil]
      rfl
    refine ⟨h.done hcarries hdone hwpc hin (by rw [hout, List.drop_nil]) hret, ?_⟩
    unfold Session.receive
    rw [hdone]
    refine Nat.add_lt_add_right ?_ _
    rw [he]
    exact Nat.zero_lt_one

/-- **A complete step of the worker** keeps the invariant, brings the call nearer to its end, and
adds a reply only for the request that is due. -/
theorem TransferInv.worker {s : Session} {reqs : List WireRequest} {a : WorkerAction} {w : Worker}
    (h : TransferInv s reqs) (hc : s.worker.complete a = true) (hs : WorkerStep s.worker a w) :
    TransferInv { s with worker := w } reqs ∧
      Session.remaining { s with worker := w } < s.remaining ∧
      ((∃ ret earlier r, a = .reply ret ∧ s.worker.pc = .exec r ∧ reqs = earlier ++ [r] ∧
          s.worker.replies.length = earlier.length ∧ w.replies = s.worker.replies ++ [ret]) ∨
        ((∀ ret, a ≠ .reply ret) ∧ w.replies = s.worker.replies)) := by
  rcases h.phase with hb | ⟨earlier, r, rfl, hcarries⟩
  · exact absurd hs (Worker.waits hb.worker hb.inbox)
  have hsent : s.sent.length = earlier.length + 1 := by
    rw [h.length_sent, List.length_append, List.length_singleton]
  have ho : s.worker.orderly s.unsent _ = true :=
    Worker.orderly_of_complete hc hcarries.memory
  obtain ⟨hat, hdecoded, rest, hreplies⟩ := hcarries.worker.step hcarries.reads
    List.getElem?_concat_length h.decoded ho hs
  have hwork := hcarries.worker.completeWork hcarries.memory hc hs
  refine ⟨⟨h.sent, hdecoded, ?_, ?_, .inr ⟨earlier, r, rfl, ?_⟩⟩, ?_, ?_⟩
  · intro d hd
    rcases hwork.requests d hd with hold | hnew
    · exact h.requests d hold
    · exact hnew
  · show Aligned Eq s.returned w.replies
    rw [hreplies]
    exact h.returned.append_right rest
  · refine ⟨hcarries.reads, hcarries.returned, hcarries.client, hat, hwork.memory, ?_⟩
    -- a call that discards has been answered: the worker takes no step
    intro e he
    obtain ⟨hwpc, hin, -⟩ := hcarries.failed e he
    exact absurd hs (Worker.waits hwpc hin)
  · show s.client.rank + w.pc.rank (w.decoded.length < s.sent.length) < _
    rw [Session.remaining, hsent]
    exact Nat.add_lt_add_left hwork.rank _
  · rcases hwork.replies with ⟨ret, rfl, hpc, hrep, heq⟩ | hsame
    · exact .inl ⟨ret, earlier, r, rfl, hpc, rfl, hrep, heq⟩
    · exact .inr hsame

/-! ## A call comes to its end -/

/-- In a complete step the worker does not fault. -/
theorem TransferInv.worker_ok {s : Session} {reqs : List WireRequest} {a : WorkerAction}
    {res : Except Fault Worker} (h : TransferInv s reqs) (hc : s.worker.complete a = true)
    (hs : workerStep s.worker a = some res) : ∃ w, res = .ok w ∧ WorkerStep s.worker a w := by
  rcases workerStep_cases hs with hok | ⟨f, -, hfault⟩
  · exact hok
  · cases hfault with
    | @key n stale alloc hpc hrecv hkey =>
      rcases h.phase with hb | ⟨earlier, r, -, hcarries⟩
      · -- there is nothing to read between two calls
        rw [hb.inbox, headerOk_nil] at hrecv
        cases hrecv
      · have ho : s.worker.orderly s.unsent _ = true :=
          Worker.orderly_of_complete hc hcarries.memory
        obtain ⟨⟨created, hpkg⟩, -⟩ := hcarries.worker.readsHeader hpc hrecv ho
        rw [hpkg, hcarries.reads created] at hkey
        cases hkey

/-- **No complete step faults.** -/
theorem TransferInv.safe {s : Session} {reqs : List WireRequest} {a : SessionAction}
    (h : TransferInv s reqs) (hc : s.complete a = true) (f : Fault) :
    sessionStep s a ≠ some (.error f) := by
  intro hfault
  cases a with
  | call r created =>
    simp only [sessionStep] at hfault
    split at hfault <;> cases hfault
  | sendData =>
    simp only [sessionStep] at hfault
    split at hfault <;> cases hfault
  | recv n alloc =>
    simp only [sessionStep] at hfault
    split at hfault <;> cases hfault
  | worker a =>
    obtain ⟨res, hres, hmap⟩ := Option.map_eq_some_iff.mp hfault
    obtain ⟨w, rfl, -⟩ := h.worker_ok (a := a) hc hres
    cases hmap

/-- Once the reply is there in full, the client can read the next part of it: it is there, and so
is the result, if the next part is a value without data. -/
theorem ClientAt.canReceive {req : IoRequest} {pc : ClientPc} {taken rest : List UInt8}
    {ret : IoResult} (h : ClientAt req pc taken) (hreply : taken ++ rest = replyBytes req ret)
    (hwant : pc.want ≠ none) (hpc : ∀ e, pc ≠ .discard e) :
    ∃ n, pc.want = some n ∧ recvOk n n rest = true := by
  suffices hlong : ∃ n, pc.want = some n ∧ n ≤ rest.length ∧ 0 < rest.length by
    obtain ⟨n, hn, hle, hpos⟩ := hlong
    exact ⟨n, hn, recvOk_full (List.ne_nil_of_length_pos hpos) hle⟩
  have hget : req = .get → taken ++ rest = int64Code.encode (replyDuration ret) ++
      ((replyValue ret).encode ++ int32Code.encode (retOf ret)) := by
    rintro rfl
    exact hreply
  have hresult : (int32Code.encode (retOf ret)).length = 4 := int32Code.length_encode _
  cases h with
  | sendData => exact absurd rfl hwant
  | result hreq =>
    have hlen : rest.length = 4 := by
      rw [← hresult]
      cases req with
      | get => exact absurd rfl hreq
      | set v => exact congrArg List.length hreply
      | del => exact congrArg List.length hreply
    exact ⟨_, rfl, hlen.ge, by omega⟩
  | getDuration hreq =>
    refine ⟨_, rfl, ?_⟩
    have hlen := congrArg List.length (hget hreq)
    rw [List.nil_append, List.length_append, List.length_append, int64Code.length_encode] at hlen
    omega
  | getHead hreq h₁ =>
    refine ⟨_, rfl, ?_⟩
    obtain ⟨-, hrest⟩ := int64Code.decode_of_append h₁ (hget hreq)
    rw [hrest, Value.encode, List.length_append, List.length_append, valueHeadCode.length_encode]
    omega
  | @getData b₁ b₂ hreq h₁ h₂ =>
    refine ⟨_, rfl, ?_⟩
    have hall := hget hreq
    rw [List.append_assoc] at hall
    obtain ⟨-, hvalue⟩ := int64Code.decode_of_append h₁ hall
    rw [Value.encode, List.append_assoc] at hvalue
    obtain ⟨hhead, hrest⟩ := valueHeadCode.decode_of_append h₂ hvalue
    rw [hhead, Value.head_length, hrest, List.length_append]
    omega
  | @getResult b₁ b₂ v hreq h₁ h₂ hv =>
    refine ⟨_, rfl, ?_⟩
    have hall := hget hreq
    rw [List.append_assoc, List.append_assoc] at hall
    obtain ⟨-, hvalue⟩ := int64Code.decode_of_append h₁ hall
    obtain ⟨-, hrest⟩ := Value.encode_inj h₂ hv hvalue
    rw [hrest, hresult]
    exact ⟨le_rfl, Nat.zero_lt_succ 3⟩
  | @discard e taken hreq => exact absurd rfl (hpc e)

/-- A complete step is enabled that does not fault, begins no call and is not the return of an io
function. -/
def Session.GoesOn (s : Session) : Prop :=
  ∃ a s', s.complete a = true ∧ (∀ ret, a ≠ .worker (.reply ret)) ∧
    (∀ r created, a ≠ .call r created) ∧ sessionStep s a = some (.ok s')

/-- A complete step of the worker that is enabled is a step of the session. -/
theorem TransferInv.goesOn_worker {s : Session} {reqs : List WireRequest} {a : WorkerAction}
    (h : TransferInv s reqs) (hc : s.worker.complete a = true) (ha : ∀ ret, a ≠ .reply ret)
    (hsome : (workerStep s.worker a).isSome) : s.GoesOn := by
  obtain ⟨res, hres⟩ := Option.isSome_iff_exists.mp hsome
  obtain ⟨w, rfl, -⟩ := h.worker_ok hc hres
  refine ⟨.worker a, { s with worker := w }, hc, ?_, nofun, ?_⟩
  · intro ret hret
    cases hret
    exact ha ret rfl
  · rw [sessionStep, hres]
    rfl

/-- Once the worker has answered, the client can receive. -/
theorem Session.Carries.goesOn_answered {s : Session} {earlier : List WireRequest}
    {r : WireRequest} {ret : IoResult} (h : s.Carries earlier r) (hwant : s.client.want ≠ none)
    (hreply : s.taken ++ s.worker.outbox = replyBytes r.req ret) : s.GoesOn := by
  have hreceive : ∀ n, s.complete (.recv n true) = true →
      s.client.mayRecv n s.worker.outbox = true → s.GoesOn :=
    fun n hc hrecv => ⟨.recv n true, s.receive n, hc, nofun, nofun, if_pos hrecv⟩
  by_cases hpc : ∀ e, s.client ≠ .discard e
  · obtain ⟨n, hn, hrecv⟩ := h.client.canReceive hreply hwant hpc
    refine hreceive n ?_ ?_
    · unfold Session.complete
      cases hclient : s.client with
      | discard e => exact absurd hclient (hpc e)
      | _ => simpa [hclient] using hn
    · unfold ClientPc.mayRecv
      cases hclient : s.client with
      | discard e => exact absurd hclient (hpc e)
      | _ => simp [← hclient, hn, hrecv]
  · -- a get that failed: its discarding finds nothing and ends
    obtain ⟨e, he⟩ : ∃ e, s.client = .discard e := by simpa using hpc
    obtain ⟨-, -, hempty, -⟩ := h.failed e he
    refine hreceive 0 ?_ ?_
    · simp [Session.complete, he, hempty]
    · simp [ClientPc.mayRecv, he, hempty, recvNonblockOk]

/-- **A call under way goes on**, unless it sets a value without data: a complete step is enabled
that does not fault, or the worker is in an io function. -/
theorem TransferInv.progress {s : Session} {reqs : List WireRequest} (h : TransferInv s reqs)
    (hsets : ∀ r ∈ reqs, r.req.setsEmpty = false) (hbusy : s.client ≠ .idle) :
    s.GoesOn ∨ ∃ r, s.worker.pc = .exec r := by
  rcases h.phase with hb | ⟨earlier, r, rfl, hcarries⟩
  · exact absurd hb.client hbusy
  by_cases hwant : s.client.want = none
  · -- the client has data to send
    cases hclient : s.client with
    | idle => exact absurd hclient hbusy
    | sendData value =>
      refine .inl ⟨.sendData,
        { s with client := .result, worker.inbox := s.worker.inbox ++ value.data },
        rfl, by simp, by simp, ?_⟩
      simp only [sessionStep, hclient]
    | _ =>
      rw [hclient] at hwant
      cases hwant
  -- it waits for a reply: the worker moves, or it has answered
  have hat := hcarries.worker
  rw [Session.unsent_of_want hwant, List.append_nil] at hat
  cases hwpc : s.worker.pc with
  | header =>
    rw [hwpc] at hat
    cases hat with
    | @unread created hin hout hdec hrep =>
      have hle : sizeofIoPackage ≤ s.worker.inbox.length := by
        rw [hin, List.length_append, ioPackage_length]
        exact Nat.le_add_right _ _
      refine .inl (h.goesOn_worker
        (a := .recv sizeofIoPackage (List.replicate sizeofIoPackage 0) true) ?_ (by simp) ?_)
      · simp [Worker.complete, hwpc]
      · have hsome : s.worker.inbox ≠ [] := by
          rw [hin]
          exact ioPackage_append_ne_nil
        simp [workerStep, hwpc, headerOk, recvOk_full hsome hle]
    | done hin hout hret => exact .inl (hcarries.goesOn_answered hwant hout)
  | data key head =>
    rw [hwpc] at hat
    cases hat with
    | @data v hreq hin hout hdec hrep =>
      have hle : v.data.length ≤ s.worker.inbox.length := by rw [hin]
      refine .inl (h.goesOn_worker (a := .recv v.data.length [] true) ?_ (by simp) ?_)
      · simp [Worker.complete, hwpc]
      · have hsome : s.worker.inbox ≠ [] := by
          rw [hin]
          simpa [IoRequest.setsEmpty, IoRequest.value, hreq] using
            hsets r (List.mem_append_right _ (List.mem_singleton_self r))
        simp [workerStep, hwpc, recvOk_full hsome hle]
  | discard => exact absurd hwpc hcarries.memory
  | exec r' => exact .inr ⟨r', rfl⟩
  | sendValue ret =>
    exact .inl (h.goesOn_worker (a := .send) rfl (by simp) (by simp [workerStep, hwpc]))
  | sendResult result =>
    exact .inl (h.goesOn_worker (a := .send) rfl (by simp) (by simp [workerStep, hwpc]))

/-- A session with complete transfers and its node: the node has answered, called directly, the
requests the worker has decoded so far. -/
structure ServedInv {σ : Type} (S : IoServer σ) (x₀ : σ) (s : Served σ)
    (reqs : List WireRequest) : Prop where
  session : TransferInv s.session reqs
  direct : Direct S x₀ (reqs.take s.session.worker.replies.length) s.session.worker.replies s.node

variable {σ : Type} {S : IoServer σ} {x₀ : σ} {s : Served σ}

theorem WorkerAt.length_replies {r : WireRequest} {n : ℕ} {decoded : List Decoded}
    {replies : List IoResult} {input output : List UInt8} {pc : WorkerPc}
    (h : WorkerAt r n decoded replies input output pc) : replies.length ≤ n + 1 := by
  cases h with
  | unread _ _ _ hrep => omega
  | data _ _ _ _ hrep => omega
  | discard _ _ _ hrep => omega
  | exec _ _ _ hrep => omega
  | sendValue _ _ _ hret => exact hret.hrep.le
  | sendResult _ _ hret => exact hret.hrep.le
  | done _ _ hret => exact hret.hrep.le

/-- There are no more replies than requests. -/
theorem TransferInv.length_replies {s : Session} {reqs : List WireRequest}
    (h : TransferInv s reqs) : s.worker.replies.length ≤ reqs.length := by
  rcases h.phase with hb | ⟨earlier, r, rfl, hcarries⟩
  · rw [hb.replies, h.length_sent]
  · rw [List.length_append]
    exact hcarries.worker.length_replies

/-- A step in which the node takes no part. -/
theorem ServedInv.keep {session : Session} {reqs new : List WireRequest}
    (h : ServedInv S x₀ s reqs) (hinv : TransferInv session (reqs ++ new))
    (hreplies : session.worker.replies = s.session.worker.replies) :
    ServedInv S x₀ ⟨session, s.node⟩ (reqs ++ new) := by
  refine ⟨hinv, ?_⟩
  show Direct S x₀ ((reqs ++ new).take session.worker.replies.length) _ s.node
  rw [hreplies, List.take_append_of_le_length h.session.length_replies]
  exact h.direct

/-- The node answers the request that is due. -/
theorem ServedInv.answer {earlier : List WireRequest} {r : WireRequest} {w : Worker}
    {ret : IoResult} {node : σ} (h : ServedInv S x₀ s (earlier ++ [r]))
    (hinv : TransferInv { s.session with worker := w } (earlier ++ [r]))
    (hlen : s.session.worker.replies.length = earlier.length)
    (heq : w.replies = s.session.worker.replies ++ [ret]) (hcall : S.call s.node r ret node) :
    ServedInv S x₀ ⟨{ s.session with worker := w }, node⟩ (earlier ++ [r]) := by
  have hdirect := h.direct
  rw [hlen, List.take_left] at hdirect
  have hall : (earlier ++ [r]).length ≤ earlier.length + 1 := by
    rw [List.length_append, List.length_singleton]
  refine ⟨hinv, ?_⟩
  show Direct S x₀ ((earlier ++ [r]).take w.replies.length) w.replies node
  rw [heq, List.length_append, hlen, List.length_singleton, List.take_of_length_le hall]
  exact hdirect.snoc hcall

/-- **One complete step**, of a session whose keys end within their packages. -/
theorem ServedInv.step {reqs : List WireRequest} {a : SessionAction} {s' : Served σ}
    (h : ServedInv S x₀ s reqs) (hc : s.session.complete a = true)
    (hread : Session.readable a = true) (hs : ServedStep S s a s') :
    (∃ new, ServedInv S x₀ s' (reqs ++ new) ∧ ((∀ r created, a ≠ .call r created) → new = [])) ∧
      ((∀ r created, a ≠ .call r created) → s'.session.remaining < s.session.remaining) := by
  have hsame : ∀ {session}, TransferInv session reqs →
      session.worker.replies = s.session.worker.replies →
      ∃ new, ServedInv S x₀ ⟨session, s.node⟩ (reqs ++ new) ∧
        ((∀ r created, a ≠ .call r created) → new = []) := by
    intro session hinv hreplies
    exact ⟨[], h.keep (by rwa [List.append_nil]) hreplies, fun _ => rfl⟩
  cases hs with
  | @io r ret session node hpc hcall hs =>
    have hstep := sessionStep_ok hs
    cases hstep with
    | @worker _ w hw =>
      obtain ⟨hinv, hrank, hreply⟩ := h.session.worker (a := .reply ret) hc hw
      refine ⟨⟨[], ?_, fun _ => rfl⟩, fun _ => hrank⟩
      rw [List.append_nil]
      rcases hreply with ⟨ret', earlier, r', hret, hpc', rfl, hlen, heq⟩ | ⟨hne, -⟩
      · cases hret
        cases hpc.symm.trans hpc'
        exact h.answer hinv hlen heq hcall
      · exact absurd rfl (hne ret)
  | @other _ session ha hs =>
    have hstep := sessionStep_ok hs
    cases hstep with
    | @call r created hpc =>
      obtain ⟨r', hr'⟩ := Option.isSome_iff_exists.mp hread
      exact ⟨⟨[r'], h.keep (h.session.call hr' hpc) rfl, fun hne => absurd rfl (hne r created)⟩,
        fun hne => absurd rfl (hne r created)⟩
    | @sendData value hpc =>
      refine ⟨hsame (h.session.sendData hpc) rfl, fun _ => ?_⟩
      show Session.remaining _ < _
      unfold Session.remaining
      rw [hpc]
      exact Nat.add_lt_add_right (Nat.lt_succ_self 1) _
    | @recv n alloc hrecv =>
      have halloc : alloc = true := (Bool.and_eq_true_iff.mp hc).1
      subst halloc
      obtain ⟨hinv, hrank⟩ := h.session.recv hc hrecv
      refine ⟨hsame hinv ?_, fun _ => hrank⟩
      show (s.session.receive n).worker.replies = _
      unfold Session.receive
      cases s.session.client.received (s.session.worker.outbox.take n) true <;> rfl
    | @worker a w hw =>
      obtain ⟨hinv, hrank, hreply⟩ := h.session.worker (a := a) hc hw
      refine ⟨hsame hinv ?_, fun _ => hrank⟩
      -- the worker replies only where an io function returns
      rcases hreply with ⟨ret, earlier, r, rfl, -⟩ | ⟨-, heq⟩
      · exact absurd rfl (ha ret)
      · exact heq

/-- Between two calls the calls have returned what direct calls, of the requests as they were
read, return. -/
theorem ServedInv.results {reqs : List WireRequest} (h : ServedInv S x₀ s reqs)
    (hpc : s.session.client = .idle) :
    s.session.Boundary ∧ Direct S x₀ reqs s.session.returned s.node := by
  rcases h.session.phase with hb | ⟨earlier, r, -, hcarries⟩
  · refine ⟨hb, ?_⟩
    have hlen := hb.replies.trans h.session.length_sent
    have hreturned : s.session.returned = s.session.worker.replies := by
      refine List.ext_getElem? fun i => ?_
      cases hi : s.session.returned[i]? with
      | none =>
        have hle := List.getElem?_eq_none_iff.mp hi
        rw [hb.returned, ← hb.replies] at hle
        exact (List.getElem?_eq_none hle).symm
      | some ret =>
        obtain ⟨ret', hret, rfl⟩ := h.session.returned i ret hi
        exact hret.symm
    have hdirect := h.direct
    rw [hlen, List.take_length] at hdirect
    rw [hreturned]
    exact hdirect
  · have hclient := hcarries.client
    rw [hpc] at hclient
    cases hclient

/-- A call under way goes on, or waits for an io function that does not return, unless it sets a
value without data. -/
theorem ServedInv.progress {reqs : List WireRequest} (h : ServedInv S x₀ s reqs)
    (hsets : ∀ r ∈ reqs, r.req.setsEmpty = false) (hbusy : s.session.client ≠ .idle) :
    (∃ a s', s.session.complete a = true ∧ (∀ r created, a ≠ .call r created) ∧
      ServedStep S s a s') ∨
    ∃ r, s.session.worker.pc = .exec r ∧ ∀ ret node, ¬ S.call s.node r ret node := by
  rcases h.session.progress hsets hbusy with ⟨a, session, hc, ha, hcall, hs⟩ | ⟨r, hpc⟩
  · exact .inl ⟨a, _, hc, hcall, .other ha hs⟩
  · by_cases hreturns : ∃ ret node, S.call s.node r ret node
    · obtain ⟨ret, node, hcall⟩ := hreturns
      refine .inl ⟨.worker (.reply ret),
        ⟨{ s.session with worker := s.session.worker.answer r.req ret }, node⟩, rfl, nofun,
        .io hpc hcall ?_⟩
      simp [sessionStep, workerStep, hpc, S.fits hcall, Except.map]
    · exact .inr ⟨r, hpc, fun ret node hcall => hreturns ⟨ret, node, hcall⟩⟩

/-- A step sends a request exactly where a call begins. -/
theorem sessionStep_sent {s s' : Session} {a : SessionAction}
    (h : sessionStep s a = some (.ok s')) :
    (∃ r created, a = .call r created ∧ s'.sent = s.sent ++ [r]) ∨
      ((∀ r created, a ≠ .call r created) ∧ s'.sent = s.sent) := by
  have hstep := sessionStep_ok h
  cases hstep with
  | call => exact .inl ⟨_, _, rfl, rfl⟩
  | sendData => exact .inr ⟨nofun, rfl⟩
  | @recv n alloc hrecv =>
    refine .inr ⟨nofun, ?_⟩
    cases s.client.received (s.worker.outbox.take n) alloc <;> rfl
  | worker => exact .inr ⟨nofun, rfl⟩

theorem ServedStep.session {s' : Served σ} {a : SessionAction} (h : ServedStep S s a s') :
    sessionStep s.session a = some (.ok s'.session) := by
  cases h with
  | io _ _ hs => exact hs
  | other _ hs => exact hs

/-- The condition on a step: the transfers are complete, and the key of a call is shorter than
its field. -/
def Session.fullTransfer (s : Session) (a : SessionAction) : Bool :=
  s.complete a && match a with
  | .call r _ => r.key.length < NAME_MAX
  | _ => true

/-- The session acts as its node called directly: between two calls the results are those of
direct calls and the connection is empty; no step faults; and a call comes to its end, as it
can always go on, but for an io function that does not return, and gets nearer to its end
with every step. -/
structure Served.ActsDirectly (S : IoServer σ) (x₀ : σ) (s : Served σ) : Prop where
  results : s.session.client = .idle → Direct S x₀ s.session.sent s.session.returned s.node
  drained : s.session.client = .idle →
    s.session.worker.inbox = [] ∧ s.session.worker.outbox = []
  safe : ∀ a, s.session.fullTransfer a = true → ∀ f, sessionStep s.session a ≠ some (.error f)
  progress : s.session.client ≠ .idle →
    (∃ a s', s.session.fullTransfer a = true ∧ (∀ r created, a ≠ .call r created) ∧
      ServedStep S s a s') ∨
    ∃ r, s.session.worker.pc = .exec r ∧ ∀ ret node, ¬ S.call s.node r ret node
  bounded : ∀ a s', s.session.fullTransfer a = true → (∀ r created, a ≠ .call r created) →
    ServedStep S s a s' → s'.session.remaining < s.session.remaining

theorem Session.complete_of_fullTransfer {s : Session} {a : SessionAction}
    (h : s.fullTransfer a = true) : s.complete a = true :=
  (Bool.and_eq_true_iff.mp h).1

theorem Session.length_of_fullTransfer {s : Session} {r : WireRequest} {created : Timestamp}
    (h : s.fullTransfer (.call r created) = true) : r.key.length < NAME_MAX :=
  of_decide_eq_true (Bool.and_eq_true_iff.mp h).2

theorem Session.readable_of_fullTransfer {s : Session} {a : SessionAction}
    (h : s.fullTransfer a = true) : Session.readable a = true := by
  cases a with
  | call r created =>
    show r.asRead.isSome = true
    rw [WireRequest.asRead_of_lt (length_of_fullTransfer h)]
    rfl
  | sendData => rfl
  | recv n alloc => rfl
  | worker a => rfl

/-- With keys shorter than their field the requests are read as they were sent. -/
theorem ServedInv.of_fullTransfer
    (h : ((servedSystem S x₀).during fun s a => s.session.fullTransfer a = true).Reachable s) :
    ServedInv S x₀ s s.session.sent := by
  refine LTS.invariant (I := fun s => ServedInv S x₀ s s.session.sent) ?_ ?_ h
  · rintro s rfl
    exact ⟨.start, .nil⟩
  · rintro s a s' hinv ⟨hs, hfull⟩
    obtain ⟨⟨new, hnew, hquiet⟩, -⟩ := hinv.step (Session.complete_of_fullTransfer hfull)
      (Session.readable_of_fullTransfer hfull) hs
    have hsession := hs.session
    have hsent : s'.session.sent = s.session.sent ++ new := by
      rcases sessionStep_sent hsession with ⟨r, created, rfl, hsent⟩ | ⟨ha, hsent⟩
      · -- the new request is read as it is
        have hmap := hnew.session.sent
        rw [hsent, List.map_append, List.map_append, hinv.session.sent, List.map_singleton,
          WireRequest.asRead_of_lt (Session.length_of_fullTransfer hfull)] at hmap
        have hone : [r] = new := by
          refine List.map_injective_iff.mpr (Option.some_injective _) ?_
          exact List.append_cancel_left hmap
        rw [hsent, hone]
      · rw [hsent, hquiet ha, List.append_nil]
    rw [hsent]
    exact hnew

/-- The condition on a step: the transfers are complete, the key of a call is shorter than its field,
and no call sets a value without data. -/
def Session.transfersData (s : Session) (a : SessionAction) : Bool :=
  s.fullTransfer a && match a with
  | .call r _ => !r.req.setsEmpty
  | _ => true

theorem Session.full_of_transfersData {s : Session} {a : SessionAction}
    (h : s.transfersData a = true) : s.fullTransfer a = true :=
  (Bool.and_eq_true_iff.mp h).1

theorem sent_of_transfersData
    (h : ((servedSystem S x₀).during fun s a => s.session.transfersData a = true).Reachable s) :
    ∀ r ∈ s.session.sent, r.req.setsEmpty = false := by
  refine LTS.invariant (I := fun s : Served σ => ∀ r ∈ s.session.sent, r.req.setsEmpty = false)
    ?_ ?_ h
  · rintro s rfl
    nofun
  · rintro s a s' hinv ⟨hs, hdata⟩
    rcases sessionStep_sent hs.session with ⟨r, created, rfl, hsent⟩ | ⟨-, hsent⟩
    · rw [hsent, List.forall_mem_append, List.forall_mem_singleton]
      exact ⟨hinv, by simpa using (Bool.and_eq_true_iff.mp hdata).2⟩
    · rw [hsent]
      exact hinv

/-- **A shared connection is transparent**: in every run whose transfers are complete, whose keys
are shorter than `NAME_MAX` and in which no call sets a value without data, over any node, the
session acts as the node called directly, whatever the io functions return. -/
theorem session_actsDirectly
    (h : ((servedSystem S x₀).during fun s a => s.session.transfersData a = true).Reachable s) :
    s.ActsDirectly S x₀ := by
  have hinv : ServedInv S x₀ s s.session.sent := ServedInv.of_fullTransfer
    (h.during_mono fun _ _ => Session.full_of_transfersData)
  refine ⟨fun hpc => (hinv.results hpc).2, fun hpc => ?_, ?_, ?_, ?_⟩
  · exact ⟨(hinv.results hpc).1.inbox, (hinv.results hpc).1.outbox⟩
  · intro a hfull f
    exact hinv.session.safe (Session.complete_of_fullTransfer hfull) f
  · intro hbusy
    rcases hinv.progress (sent_of_transfersData h) hbusy with ⟨a, s', hc, hcall, hs⟩ | hblocked
    · refine .inl ⟨a, s', ?_, hcall, hs⟩
      unfold Session.fullTransfer
      rw [hc]
      cases a with
      | call r created => exact absurd rfl (hcall r created)
      | sendData => rfl
      | recv n alloc => rfl
      | worker a => rfl
    · exact .inr hblocked
  · intro a s' hfull hcall hs
    exact (hinv.step (Session.complete_of_fullTransfer hfull)
      (Session.readable_of_fullTransfer hfull) hs).2 hcall

/-! ## The io functions as a server -/

/-- The io functions of a node over the storages `env`, each run alone. -/
def nodeServer {ω : Type} (env : StorageEnv ω) : IoServer (IoCtx × ω) where
  call x r ret y := ∃ (now : Timestamp) (a : IoAlloc),
    match r.req with
    | .get => ∃ (call : ℕ → Except Fault (ω × GetResult)) (got : GetResult),
        (∀ priv w got, call priv = .ok (w, got) → env.get priv r.key x.2 got = some w) ∧
        ioGet x.1 r.key now a call x.2 = .ok (y.1, y.2, got) ∧ ret = got.map some
    | .set v => ∃ (call : ℕ → Except Fault (ω × SetResult)) (done : SetResult),
        (∀ priv w done, call priv = .ok (w, done) → env.set priv r.key v x.2 done = some w) ∧
        ioSet x.1 r.key v now a call x.2 = .ok (y.1, y.2, done) ∧ ret = done.map fun _ => none
    | .del => ∃ (call : ℕ → Except Fault (ω × SetResult)) (done : SetResult),
        (∀ priv w done, call priv = .ok (w, done) → env.del priv r.key x.2 done = some w) ∧
        ioDel x.1 r.key a call x.2 = .ok (y.1, y.2, done) ∧ ret = done.map fun _ => none
  fits := by
    intro x y r ret h
    obtain ⟨now, a, h⟩ := h
    cases hreq : r.req with
    | get =>
      rw [hreq] at h
      obtain ⟨call, got, -, -, rfl⟩ := h
      cases got <;> rfl
    | set v =>
      rw [hreq] at h
      obtain ⟨call, done, -, -, rfl⟩ := h
      cases done <;> rfl
    | del =>
      rw [hreq] at h
      obtain ⟨call, done, -, -, rfl⟩ := h
      cases done <;> rfl

/-- A storage that keeps one value, for at most seven nanoseconds. -/
def briefEnv : StorageEnv (Option Value) where
  get _ _ w reply :=
    match w, reply with
    | some v, .ok (v', duration) => if v = v' ∧ duration = 7 then some w else none
    | none, .error e => if e = ENOENT then some w else none
    | _, _ => none
  set _ _ v _ reply := if reply = .ok () then some (some v) else none
  del _ _ _ reply := if reply = .ok () then some none else none

/-- A node without a cache and with one storage, for every key. -/
def briefNode : IoCtx :=
  ⟨none, [⟨unixStorage exampleName 0, [exampleAny], 0, 0⟩]⟩

/-- In this step an io function returns. -/
def SessionAction.replies : SessionAction → Bool
  | .worker (.reply _) => true
  | _ => false

/-- Steps of the session in which no io function returns. -/
theorem served_quiet (P : Session → SessionAction → Bool) (ls : List SessionAction)
    {session : Session} (session' : Session) {x : σ}
    (hquiet : (ls.all fun a => !a.replies) = true)
    (hrun : LTS.exec (LTS.guarded P (LTS.stepsOk sessionStep)) session ls = some session')
    (h : ((servedSystem S x₀).during fun s a => P s.session a = true).Reachable ⟨session, x⟩) :
    ((servedSystem S x₀).during fun s a => P s.session a = true).Reachable ⟨session', x⟩ := by
  induction ls generalizing session with
  | nil =>
    cases hrun
    exact h
  | cons a ls ih =>
    obtain ⟨session₁, hstep, hrest⟩ := Option.bind_eq_some_iff.mp hrun
    obtain ⟨hs, hP⟩ := LTS.guarded_eq_some hstep
    rw [List.all_cons, Bool.and_eq_true] at hquiet
    have hfirst : ServedStep S ⟨session, x⟩ a ⟨session₁, x⟩ := by
      refine .other ?_ (LTS.stepsOk_eq_some hs)
      rintro ret rfl
      cases hquiet.1
    exact ih hquiet.2 hrest (h.tail ⟨hfirst, hP⟩)

/-- The session after `n` steps of `exampleSession`. -/
def exampleAfter (n : ℕ) : Session :=
  (LTS.exec (LTS.stepsOk sessionStep) Session.start (exampleSession.take n)).getD Session.start

/-- The session of `exampleSession` on that node: a set, and a get of the value. -/
theorem session_actsDirectly_setGet :
    ∃ s : Served (IoCtx × Option Value),
      s.session.sent = [⟨.set exampleValue, exampleKey⟩, ⟨.get, exampleKey⟩] ∧
      s.session.returned = [.ok none, .ok (some (exampleValue, 7))] ∧
      Direct (nodeServer briefEnv) (briefNode, none) s.session.sent s.session.returned s.node := by
  -- the node is called in the fifth and in the tenth step
  have hset : ServedStep (nodeServer briefEnv) ⟨exampleAfter 4, (briefNode, none)⟩
      (.worker (.reply (.ok none))) ⟨exampleAfter 5, (briefNode, some exampleValue)⟩ := by
    refine .io (r := ⟨.set exampleValue, exampleKey⟩) (by decide +kernel) ?_ (by decide +kernel)
    refine ⟨0, .all, fun _ => .ok (some exampleValue, .ok ()), .ok (), ?_, rfl, rfl⟩
    rintro priv w done ⟨⟩
    rfl
  have hget : ServedStep (nodeServer briefEnv) ⟨exampleAfter 9, (briefNode, some exampleValue)⟩
      (.worker (.reply (.ok (some (exampleValue, 7)))))
      ⟨exampleAfter 10, (briefNode, some exampleValue)⟩ := by
    refine .io (r := ⟨.get, exampleKey⟩) (by decide +kernel) ?_ (by decide +kernel)
    refine ⟨0, .all, fun _ => .ok (some exampleValue, .ok (exampleValue, 7)),
      .ok (exampleValue, 7), ?_, rfl, rfl⟩
    rintro priv w got ⟨⟩
    rfl
  have hstart : ((servedSystem (nodeServer briefEnv) (briefNode, none)).during fun s a =>
      s.session.transfersData a = true).Reachable ⟨.start, (briefNode, none)⟩ := .of_init rfl
  have h₄ := served_quiet Session.transfersData (exampleSession.take 4) (exampleAfter 4)
    (by decide +kernel) (by decide +kernel) hstart
  have h₅ := h₄.tail ⟨hset, by decide +kernel⟩
  have h₉ := served_quiet Session.transfersData ((exampleSession.take 9).drop 5) (exampleAfter 9)
    (by decide +kernel) (by decide +kernel) h₅
  have h₁₀ := h₉.tail ⟨hget, by decide +kernel⟩
  have h₁₆ := served_quiet Session.transfersData (exampleSession.drop 10) (exampleAfter 16)
    (by decide +kernel) (by decide +kernel) h₁₀
  exact ⟨_, by decide +kernel, by decide +kernel,
    (session_actsDirectly h₁₆).results (by decide +kernel)⟩

/-- A value without data, as it is written `data:`. -/
def emptyData : Value := ⟨ValueType.data, [], Value.undef.length_lt⟩

/-- A set of this value: the worker is at the `recv` for its data, the client at the one for the
result. -/
def waitingSession : Session :=
  ⟨.result, ⟨.data exampleKey emptyData.head, [], [], [], []⟩, [],
    [⟨.set emptyData, exampleKey⟩], []⟩

/-- **A set of a value without data does not end**: every transfer was complete, the key is short
and the io function would return, but neither side takes another step. -/
theorem session_setEmpty_waits :
    ((servedSystem (nodeServer briefEnv) (briefNode, none)).during fun s a =>
        s.session.fullTransfer a = true).Reachable ⟨waitingSession, (briefNode, none)⟩ ∧
      (∀ a, sessionStep waitingSession a = none) ∧
      (nodeServer briefEnv).call (briefNode, none) ⟨.set emptyData, exampleKey⟩ (.ok none)
        (briefNode, some emptyData) ∧
      ¬ Served.ActsDirectly (nodeServer briefEnv) (briefNode, none)
        ⟨waitingSession, (briefNode, none)⟩ := by
  have hblocked : ∀ a, sessionStep waitingSession a = none := by
    intro a
    cases a with
    | call r created => rfl
    | sendData => rfl
    | recv n alloc => rfl
    | worker a => cases a <;> rfl
  refine ⟨?_, hblocked, ?_, fun hdirect => ?_⟩
  · exact served_quiet Session.fullTransfer
      [.call ⟨.set emptyData, exampleKey⟩ 0, .sendData, .worker (.recv 269 exampleStale true)]
      waitingSession (by decide +kernel) (by decide +kernel) (.of_init rfl)
  · refine ⟨0, .all, fun _ => .ok (some emptyData, .ok ()), .ok (), ?_, rfl, rfl⟩
    rintro priv w done ⟨⟩
    rfl
  · rcases hdirect.progress nofun with ⟨a, s', -, -, hs⟩ | ⟨r, hpc, -⟩
    · cases (hblocked a).symm.trans hs.session
    · cases hpc

end Propd
