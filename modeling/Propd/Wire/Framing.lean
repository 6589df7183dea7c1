import Propd.Lib.Aligned
import Propd.Wire.Session

/-!
# Requests and replies stay apart

Client and worker agree on where a request ends and where a reply ends by counting bytes,
each with its own calls of `recv`. This module proves when that works: in a session whose
steps are *orderly* the worker decodes the requests that were sent, a call that succeeds
returns the reply to its own request, and between two calls nothing is left unread.

A step is not orderly where one of the calls of `recv` that nobody makes good returns less
than it asked for: the header and the data at the worker, the result of a set or del at the
client. A get may be cut short, as it discards the rest, but the discarding has to reach
the end of the reply; the same holds for the worker when it has no memory for a value. A call
is not orderly either where the worker reads another key than the one it was made with.

The proof follows the bytes of one call. What the worker has sent is what the client has
taken and what is under way, and it is the part of the reply that the place of the worker
says; what the client has still to send and what is under way is the part of the request
that the worker has not read.
-/

namespace Propd

open Lib

/-- What the worker decoded is the request, or its head where the data was discarded. -/
def Decoded.Of : Decoded → WireRequest → Prop
  | .request r', r => r' = r
  | .noMemory key head, r => r.req.type = IoType.set ∧ key = r.key ∧ head = r.req.head
  | .short _ _, _ | .unknown _, _ => False

/-- A call returned an error, or the reply. -/
def ReturnOf (ret reply : IoResult) : Prop :=
  (∃ e, ret = .error e) ∨ ret = reply

namespace Session

/-- Between two calls: nothing is under way, and every request has been answered. -/
structure Boundary (s : Session) : Prop where
  client : s.client = .idle
  worker : s.worker.pc = .header
  inbox : s.worker.inbox = []
  outbox : s.worker.outbox = []
  decoded : s.worker.decoded.length = s.sent.length
  replies : s.worker.replies.length = s.sent.length
  returned : s.returned.length = s.sent.length

/-- Requests and replies are not mixed up: the worker decodes the requests that were sent, in
their order, a call returns the reply to its request or an error, and between two calls
the connection is at a boundary. -/
structure Framed (s : Session) : Prop where
  decoded : Aligned Decoded.Of s.worker.decoded s.sent
  returned : Aligned ReturnOf s.returned s.worker.replies
  boundary : s.client = .idle → s.Boundary

end Session

/-- The condition on a step of the worker, while the client has still to send `unsent`. -/
def Worker.orderly (w : Worker) (unsent : List UInt8) : WorkerAction → Bool
  | .recv n _ _ =>
    match w.pc with
    | .header => n = sizeofIoPackage
    | .data _ head => n = head.length.toNat
    | .discard => n = discardSize || (n = w.inbox.length && unsent.isEmpty)
    | _ => true
  | .reply _ | .send => true

/-- The condition on a step. -/
def Session.orderly (s : Session) : SessionAction → Bool
  | .call r _ => decide r.KeyIntact
  | .sendData => true
  | .recv n _ =>
    match s.client with
    | .result => n = int32Code.width
    | .discard _ =>
      n = discardSize ||
        (n = s.worker.outbox.length && s.worker.pc = .header && s.worker.inbox.isEmpty)
    | _ => true
  | .worker a => s.worker.orderly s.unsent a

/-! ## Where a call is -/

/-- The client: what it keeps is what the bytes it has taken say. -/
inductive ClientAt (req : IoRequest) : ClientPc → List UInt8 → Prop
  | sendData {v : Value} (hreq : req = .set v) : ClientAt req (.sendData v) []
  | result (hreq : req ≠ .get) : ClientAt req .result []
  | getDuration (hreq : req = .get) : ClientAt req .getDuration []
  | getHead {b₁ : List UInt8} (hreq : req = .get) (h₁ : b₁.length = int64Code.width) :
      ClientAt req (.getHead (int64Code.decode b₁)) b₁
  | getData {b₁ b₂ : List UInt8} (hreq : req = .get) (h₁ : b₁.length = int64Code.width)
      (h₂ : b₂.length = valueHeadCode.width) :
      ClientAt req (.getData (int64Code.decode b₁) (valueHeadCode.decode b₂)) (b₁ ++ b₂)
  | getResult {b₁ b₂ : List UInt8} {v : Value} (hreq : req = .get)
      (h₁ : b₁.length = int64Code.width) (h₂ : b₂.length = valueHeadCode.width)
      (hv : v.head = valueHeadCode.decode b₂) :
      ClientAt req (.getResult (int64Code.decode b₁) v) (b₁ ++ b₂ ++ v.data)
  | discard {e : Errno} {taken : List UInt8} (hreq : req = .get) :
      ClientAt req (.discard e) taken

/-- The worker has answered the call after `n` others with `ret`. -/
structure Answered (r : WireRequest) (n : ℕ) (decoded : List Decoded) (replies : List IoResult)
    (ret : IoResult) : Prop where
  fits : ret.fits r.req = true
  hdec : decoded.length = n + 1
  hrep : replies.length = n + 1
  last : replies[n]? = some ret

/-- The worker, in the call after `n` others: `input` is what it has not read of the request,
`output` what it has sent of the reply. -/
inductive WorkerAt (r : WireRequest) (n : ℕ) (decoded : List Decoded) (replies : List IoResult)
    (input output : List UInt8) : WorkerPc → Prop
  | unread {created : Timestamp} (hin : input = ioPackage r created ++ r.req.data)
      (hout : output = []) (hdec : decoded.length = n) (hrep : replies.length = n) :
      WorkerAt r n decoded replies input output .header
  | data {v : Value} (hreq : r.req = .set v) (hin : input = v.data) (hout : output = [])
      (hdec : decoded.length = n) (hrep : replies.length = n) :
      WorkerAt r n decoded replies input output (.data r.key v.head)
  | discard {v : Value} (hreq : r.req = .set v) (hout : output = [])
      (hdec : decoded.length = n + 1) (hrep : replies.length = n) :
      WorkerAt r n decoded replies input output .discard
  | exec (hin : input = []) (hout : output = []) (hdec : decoded.length = n + 1)
      (hrep : replies.length = n) : WorkerAt r n decoded replies input output (.exec r)
  | sendValue {ret : IoResult} (hreq : r.req = .get) (hin : input = [])
      (hout : output = int64Code.encode (replyDuration ret)) (hret : Answered r n decoded replies ret) :
      WorkerAt r n decoded replies input output (.sendValue ret)
  | sendResult {ret : IoResult} (hin : input = [])
      (hout : output ++ int32Code.encode (retOf ret) = replyBytes r.req ret)
      (hret : Answered r n decoded replies ret) :
      WorkerAt r n decoded replies input output (.sendResult (retOf ret))
  | done {ret : IoResult} (hin : input = []) (hout : output = replyBytes r.req ret)
      (hret : Answered r n decoded replies ret) : WorkerAt r n decoded replies input output .header

/-- A call is under way: the client and the worker are at places that fit together. -/
structure Session.Busy (s : Session) (earlier : List WireRequest) (r : WireRequest) : Prop where
  sent : s.sent = earlier ++ [r]
  intact : r.KeyIntact
  returned : s.returned.length = earlier.length
  client : ClientAt r.req s.client s.taken
  worker : WorkerAt r earlier.length s.worker.decoded s.worker.replies
    (s.worker.inbox ++ s.unsent) (s.taken ++ s.worker.outbox) s.worker.pc

/-- The invariant of a session. -/
structure SessionInv (s : Session) : Prop where
  decoded : Aligned Decoded.Of s.worker.decoded s.sent
  returned : Aligned ReturnOf s.returned s.worker.replies
  phase : s.Boundary ∨ ∃ earlier r, s.Busy earlier r

/-! ## The worker -/

theorem Answered.snoc {r : WireRequest} {n : ℕ} {decoded : List Decoded}
    {replies : List IoResult} {ret : IoResult} (hfits : ret.fits r.req = true)
    (hdec : decoded.length = n + 1) (hrep : replies.length = n) :
    Answered r n decoded (replies ++ [ret]) ret where
  fits := hfits
  hdec := hdec
  hrep := by rw [List.length_append, hrep, List.length_singleton]
  last := by rw [← hrep, List.getElem?_concat_length]

/-- The first bytes of a queue that starts with a record, when they are all there. -/
theorem take_drop_of_append {queue rest front back : List UInt8} {n : ℕ}
    (h : queue ++ rest = front ++ back) (hn : front.length = n) (hle : n ≤ queue.length) :
    queue.take n = front ∧ queue.drop n ++ rest = back := by
  have htake : (queue ++ rest).take n = (front ++ back).take n := by rw [h]
  have hdrop : (queue ++ rest).drop n = (front ++ back).drop n := by rw [h]
  rw [List.take_append_of_le_length hle, List.take_left' hn] at htake
  rw [List.drop_append_of_le_length hle, List.drop_left' hn] at hdrop
  exact ⟨htake, hdrop⟩

/-- Where the worker reads the header in an orderly step, it reads the package of the call: what
is left is the data of its value. -/
theorem WorkerAt.readsHeader {r : WireRequest} {n n' : ℕ} {w : Worker}
    {unsent taken stale : List UInt8} {alloc : Bool}
    (hat : WorkerAt r n w.decoded w.replies (w.inbox ++ unsent) (taken ++ w.outbox) w.pc)
    (hpc : w.pc = .header) (hrecv : headerOk n' stale w.inbox = true)
    (ho : w.orderly unsent (.recv n' stale alloc) = true) :
    (∃ created, w.pkgHead n' stale = ioPackage r created) ∧
      w.inbox.drop n' ++ unsent = r.req.data ∧ taken ++ w.outbox = [] ∧
      w.decoded.length = n ∧ w.replies.length = n := by
  obtain ⟨hle, hstale⟩ := headerOk_le hrecv
  simp only [Worker.orderly, hpc, decide_eq_true_eq] at ho
  subst ho
  rw [hpc] at hat
  cases hat with
  | @unread created hin hout hdec hrep =>
    obtain ⟨htake, hdrop⟩ := take_drop_of_append hin ioPackage_length hle
    refine ⟨⟨created, ?_⟩, hdrop, hout, hdec, hrep⟩
    rw [Worker.pkgHead, htake, List.drop_of_length_le hstale.le, List.append_nil]
  | done hin =>
    -- the call has been answered: there is nothing to read
    rw [(List.append_eq_nil_iff.mp hin).1] at hle
    exact absurd hle (by decide)

/-- Where the worker reads the data of a set in an orderly step, it reads the value of the call,
and nothing is left. -/
theorem WorkerAt.readsValue {r : WireRequest} {n n' : ℕ} {w : Worker}
    {unsent taken stale : List UInt8} {alloc : Bool} {key : CString} {head : ValueHead}
    {value : Value}
    (hat : WorkerAt r n w.decoded w.replies (w.inbox ++ unsent) (taken ++ w.outbox) w.pc)
    (hpc : w.pc = .data key head) (hrecv : recvOk head.length.toNat n' w.inbox = true)
    (ho : w.orderly unsent (.recv n' stale alloc) = true)
    (hset : serverSet head (w.inbox.take n') = .ok value) :
    r = ⟨.set value, key⟩ ∧ w.inbox.drop n' ++ unsent = [] ∧ taken ++ w.outbox = [] ∧
      w.decoded.length = n ∧ w.replies.length = n := by
  simp only [Worker.orderly, hpc, decide_eq_true_eq] at ho
  subst ho
  rw [hpc] at hat
  cases hat with
  | @data v hreq hin hout hdec hrep =>
    obtain ⟨htake, hdrop⟩ := take_drop_of_append (hin.trans (List.append_nil _).symm)
      v.head_length.symm (recvOk_le hrecv)
    obtain ⟨htype, hdata, -⟩ := serverSet_ok hset
    obtain rfl : value = v := Value.ext htype (hdata.trans htake)
    have hr : r = ⟨.set value, r.key⟩ := by rw [← hreq]
    exact ⟨hr, hdrop, hout, hdec, hrep⟩

/-- The data of a set that comes whole is not short. -/
theorem Worker.orderly_not_short {w : Worker} {n : ℕ} {unsent stale : List UInt8} {alloc : Bool}
    {key : CString} {head : ValueHead} (hpc : w.pc = .data key head)
    (hrecv : recvOk head.length.toNat n w.inbox = true)
    (ho : w.orderly unsent (.recv n stale alloc) = true) {e : Errno} :
    serverSet head (w.inbox.take n) ≠ .error e := by
  intro hset
  simp only [Worker.orderly, hpc, decide_eq_true_eq] at ho
  have hlen := (serverSet_error hset).2
  rw [List.length_take_of_le (recvOk_le hrecv)] at hlen
  exact hlen ho

/-- Once the request is discarded to its end, the reply is the missing memory. -/
theorem WorkerAt.discarded {r : WireRequest} {n : ℕ} {decoded : List Decoded}
    {replies : List IoResult} {input output : List UInt8}
    (hat : WorkerAt r n decoded replies input output .discard) :
    WorkerAt r n decoded (replies ++ [.error ENOMEM]) [] output (.sendResult ENOMEM) := by
  cases hat with
  | @discard v hreq hout hdec hrep =>
    have hreply : output ++ int32Code.encode (retOf (.error ENOMEM : IoResult)) =
        replyBytes r.req (.error ENOMEM) := by
      rw [hout, hreq]
      rfl
    have hret : Answered r n decoded (replies ++ [.error ENOMEM]) (.error ENOMEM) :=
      .snoc (by cases r.req <;> rfl) hdec hrep
    exact .sendResult rfl hreply hret

/-- The io function has returned: a get sends the duration, the others have only the result to
send. -/
theorem WorkerAt.answered {r r' : WireRequest} {n : ℕ} {w : Worker} {unsent taken : List UInt8}
    {ret : IoResult}
    (hat : WorkerAt r n w.decoded w.replies (w.inbox ++ unsent) (taken ++ w.outbox) (.exec r'))
    (hfits : ret.fits r'.req = true) :
    WorkerAt r n (w.answer r'.req ret).decoded (w.answer r'.req ret).replies
      ((w.answer r'.req ret).inbox ++ unsent) (taken ++ (w.answer r'.req ret).outbox)
      (w.answer r'.req ret).pc := by
  cases hat with
  | exec hin hout hdec hrep =>
    have hret : Answered r n w.decoded (w.replies ++ [ret]) ret := .snoc hfits hdec hrep
    cases hreq : r.req with
    | get =>
      refine .sendValue hreq hin ?_ hret
      show taken ++ (w.outbox ++ int64Code.encode (replyDuration ret)) = _
      rw [← List.append_assoc, hout]
      rfl
    | set v =>
      refine .sendResult hin ?_ hret
      show taken ++ w.outbox ++ int32Code.encode (retOf ret) = _
      rw [hout, hreq]
      rfl
    | del =>
      refine .sendResult hin ?_ hret
      show taken ++ w.outbox ++ int32Code.encode (retOf ret) = _
      rw [hout, hreq]
      rfl

/-- An answer adds itself to the log of replies. -/
theorem Worker.answer_log (w : Worker) (req : IoRequest) (ret : IoResult) :
    (w.answer req ret).decoded = w.decoded ∧ (w.answer req ret).replies = w.replies ++ [ret] := by
  cases req with
  | get => exact ⟨rfl, rfl⟩
  | set v => exact ⟨rfl, rfl⟩
  | del => exact ⟨rfl, rfl⟩

/-- **A step of the worker in a call** leaves it where it belongs, and what it logs is about
the request of the call, as long as the worker reads the key of this request. -/
theorem WorkerAt.step {r : WireRequest} {sent : List WireRequest} {n : ℕ} {w w' : Worker}
    {unsent taken : List UInt8} {a : WorkerAction}
    (hread : ∀ created, IoPackage.key (ioPackage r created) = some r.key)
    (hsent : sent[n]? = some r)
    (hat : WorkerAt r n w.decoded w.replies (w.inbox ++ unsent) (taken ++ w.outbox) w.pc)
    (hdecoded : Aligned Decoded.Of w.decoded sent) (ho : w.orderly unsent a = true)
    (hs : WorkerStep w a w') :
    WorkerAt r n w'.decoded w'.replies (w'.inbox ++ unsent) (taken ++ w'.outbox) w'.pc ∧
      Aligned Decoded.Of w'.decoded sent ∧ ∃ rest, w'.replies = w.replies ++ rest := by
  have hlog : ∀ d : Decoded, w.decoded.length = n → d.Of r →
      Aligned Decoded.Of (w.decoded ++ [d]) sent ∧ (w.decoded ++ [d]).length = n + 1 := by
    intro d hlen hd
    refine ⟨hdecoded.snoc_left (by rw [hlen, hsent]) hd, ?_⟩
    rw [List.length_append, hlen, List.length_singleton]
  cases hs with
  | @request n' stale alloc req key hpc hrecv hkey htype hreq =>
    obtain ⟨⟨created, hpkg⟩, hrest, hout, hdec, hrep⟩ := hat.readsHeader hpc hrecv ho
    rw [hpkg, hread] at hkey
    rw [hpkg, ioPackage_type] at htype
    obtain rfl : r.key = key := Option.some.inj hkey
    obtain rfl : r.req = req := IoRequest.eq_of_type hreq htype
    have hdata : r.req.data = [] := by rw [IoRequest.data, hreq]
    obtain ⟨hal, hlen⟩ := hlog (.request r) hdec rfl
    exact ⟨.exec (hrest.trans hdata) hout hlen hrep, hal, [], (List.append_nil _).symm⟩
  | @setHead n' stale key hpc hrecv hkey htype =>
    obtain ⟨⟨created, hpkg⟩, hrest, hout, hdec, hrep⟩ := hat.readsHeader hpc hrecv ho
    rw [hpkg, hread] at hkey
    rw [hpkg, ioPackage_type] at htype
    obtain rfl : r.key = key := Option.some.inj hkey
    obtain ⟨v, hv⟩ := IoRequest.eq_set_of_type htype
    have hhead : IoPackage.value (w.pkgHead n' stale) = v.head := by
      rw [hpkg, ioPackage_value, hv]
      rfl
    have hdata : r.req.data = v.data := by
      rw [hv]
      rfl
    rw [hhead]
    exact ⟨.data hv (hrest.trans hdata) hout hdec hrep, hdecoded, [], (List.append_nil _).symm⟩
  | @setNoMemory n' stale key hpc hrecv hkey htype =>
    obtain ⟨⟨created, hpkg⟩, hrest, hout, hdec, hrep⟩ := hat.readsHeader hpc hrecv ho
    rw [hpkg, hread] at hkey
    rw [hpkg, ioPackage_type] at htype
    rw [hpkg, ioPackage_value]
    obtain rfl : r.key = key := Option.some.inj hkey
    obtain ⟨v, hv⟩ := IoRequest.eq_set_of_type htype
    obtain ⟨hal, hlen⟩ := hlog (.noMemory r.key r.req.head) hdec ⟨htype, rfl, rfl⟩
    exact ⟨.discard hv hout hlen hrep, hal, [], (List.append_nil _).symm⟩
  | @unknown n' stale alloc key hpc hrecv hkey htype =>
    obtain ⟨⟨created, hpkg⟩, -⟩ := hat.readsHeader hpc hrecv ho
    exact absurd (by rw [hpkg, ioPackage_type]) (htype r.req)
  | @setValue n' stale alloc key head value hpc hrecv hset =>
    obtain ⟨hr, hrest, hout, hdec, hrep⟩ := hat.readsValue hpc hrecv ho hset
    obtain ⟨hal, hlen⟩ := hlog (.request r) hdec rfl
    rw [← hr]
    exact ⟨.exec hrest hout hlen hrep, hal, [], (List.append_nil _).symm⟩
  | setShort hpc hrecv hset => exact absurd hset (Worker.orderly_not_short hpc hrecv ho)
  | discardMore hpc hrecv =>
    rw [hpc] at hat
    cases hat with
    | discard hreq hout hdec hrep =>
      show WorkerAt r n _ _ _ _ w.pc ∧ _
      rw [hpc]
      exact ⟨.discard hreq hout hdec hrep, hdecoded, [], (List.append_nil _).symm⟩
  | @discardEnd n' stale alloc hpc hrecv hn =>
    -- a `recv` that returns less ends the discarding: the request has to be read whole
    have hend : n' = w.inbox.length ∧ unsent = [] := by
      simpa [Worker.orderly, hpc, hn] using ho
    obtain ⟨rfl, rfl⟩ := hend
    rw [hpc] at hat
    have hin : w.inbox.drop w.inbox.length ++ [] = ([] : List UInt8) := by simp
    rw [hin]
    exact ⟨hat.discarded, hdecoded, _, rfl⟩
  | @answered r' ret hpc hfits =>
    rw [hpc] at hat
    obtain ⟨hdec, hrep⟩ := w.answer_log r'.req ret
    refine ⟨hat.answered hfits, ?_, _, hrep⟩
    rw [hdec]
    exact hdecoded
  | @sentValue ret hpc =>
    rw [hpc] at hat
    cases hat with
    | sendValue hreq hin hout hret =>
      refine ⟨.sendResult hin ?_ hret,
        hdecoded, [], (List.append_nil _).symm⟩
      rw [← List.append_assoc, hout, hreq, List.append_assoc]
      rfl
  | @sentResult result hpc =>
    rw [hpc] at hat
    cases hat with
    | sendResult hin hout hret =>
      refine ⟨.done hin ?_ hret,
        hdecoded, [], (List.append_nil _).symm⟩
      rw [← List.append_assoc, hout]

/-! ## The client -/

/-- A call that is over: what it returned and what it had received last. -/
inductive ClientDone (req : IoRequest) (taken bytes : List UInt8) : IoResult → ClientPc → Prop
  /-- the result of a set or del -/
  | status (hreq : req ≠ .get) (htaken : taken = []) (hlen : bytes.length = int32Code.width) :
      ClientDone req taken bytes ((statusOf (int32Code.decode bytes)).map fun _ => none) .result
  /-- the result of a get that succeeds -/
  | got {b₁ b₂ : List UInt8} {v : Value} (hreq : req = .get)
      (htaken : taken = b₁ ++ b₂ ++ v.data) (h₁ : b₁.length = int64Code.width)
      (h₂ : b₂.length = valueHeadCode.width) (hv : v.head = valueHeadCode.decode b₂)
      (hlen : bytes.length = int32Code.width)
      (hstatus : statusOf (int32Code.decode bytes) = .ok ()) :
      ClientDone req taken bytes (.ok (some (v, int64Code.decode b₁)))
        (.getResult (int64Code.decode b₁) v)
  /-- a get that fails has discarded the rest -/
  | discarded {e : Errno} (hreq : req = .get) (hlen : bytes.length ≠ discardSize) :
      ClientDone req taken bytes (.error e) (.discard e)

/-- What the client makes of what it received: it goes on with what it took, or the call is
over. The result of a set or del has to come whole. -/
theorem ClientAt.received {req : IoRequest} {pc : ClientPc} {taken bytes : List UInt8}
    (h : ClientAt req pc taken) (hwant : pc.want ≠ none)
    (hresult : pc = .result → bytes.length = int32Code.width) (alloc : Bool) :
    (∃ pc', pc.received bytes alloc = .goOn pc' ∧ pc'.want ≠ none ∧
      ClientAt req pc' (taken ++ bytes)) ∨
    (∃ ret, pc.received bytes alloc = .done ret ∧ ClientDone req taken bytes ret pc) := by
  cases h with
  | sendData => exact absurd rfl hwant
  | result hreq =>
    have hlen := hresult rfl
    exact .inr ⟨_, if_neg (not_not.mpr hlen), .status hreq rfl hlen⟩
  | getDuration hreq =>
    by_cases hlen : bytes.length = int64Code.width
    · exact .inl ⟨_, if_neg (not_not.mpr hlen), nofun, .getHead hreq hlen⟩
    · exact .inl ⟨_, if_pos hlen, nofun, .discard hreq⟩
  | getHead hreq h₁ =>
    by_cases hlen : bytes.length = valueHeadCode.width
    · cases alloc with
      | false => exact .inl ⟨_, (if_neg (not_not.mpr hlen)).trans (if_pos rfl), nofun, .discard hreq⟩
      | true =>
        exact .inl ⟨_, (if_neg (not_not.mpr hlen)).trans (if_neg (by decide)), nofun,
          .getData hreq h₁ hlen⟩
    · exact .inl ⟨_, if_pos hlen, nofun, .discard hreq⟩
  | @getData b₁ b₂ hreq h₁ h₂ =>
    by_cases hlen : bytes.length = (valueHeadCode.decode b₂).length.toNat
    · refine .inl ⟨_, dif_pos hlen, nofun, ?_⟩
      refine .getResult (v := ⟨(valueHeadCode.decode b₂).type, bytes, _⟩) hreq h₁ h₂ ?_
      rw [Value.head, Value.length, hlen, UInt32.ofNat_toNat]
    · exact .inl ⟨_, dif_neg hlen, nofun, .discard hreq⟩
  | @getResult b₁ b₂ v hreq h₁ h₂ hv =>
    by_cases hlen : bytes.length = int32Code.width
    · cases hstatus : statusOf (int32Code.decode bytes) with
      | error e =>
        refine .inl ⟨.discard e, (if_neg (not_not.mpr hlen)).trans ?_, nofun, .discard hreq⟩
        rw [hstatus]
      | ok u =>
        refine .inr ⟨_, (if_neg (not_not.mpr hlen)).trans ?_,
          .got hreq rfl h₁ h₂ hv hlen hstatus⟩
        rw [hstatus]
    · exact .inl ⟨_, if_pos hlen, nofun, .discard hreq⟩
  | @discard e taken hreq =>
    by_cases hlen : bytes.length = discardSize
    · exact .inl ⟨_, if_pos hlen, nofun, .discard hreq⟩
    · exact .inr ⟨_, if_neg hlen, .discarded hreq hlen⟩

/-- A reply that came whole is at its end where the result says so, and what was read before
it is the duration and the value. -/
theorem WorkerAt.of_result {r : WireRequest} {n : ℕ} {decoded : List Decoded}
    {replies : List IoResult} {input front bytes rest : List UInt8} {pc : WorkerPc}
    (h : WorkerAt r n decoded replies input (front ++ (bytes ++ rest)) pc)
    (hlen : bytes.length = int32Code.width)
    (hfront : ∀ ret tail, front ++ (bytes ++ rest) ++ tail = replyBytes r.req ret →
      bytes ++ rest ++ tail = int32Code.encode (retOf ret))
    (hget : r.req = .get → int64Code.width < front.length) :
    pc = .header ∧ input = [] ∧ rest = [] ∧ ∃ ret, Answered r n decoded replies ret ∧
      front ++ bytes = replyBytes r.req ret ∧ int32Code.decode bytes = retOf ret := by
  have hne : front ++ (bytes ++ rest) ≠ [] := by
    intro hnil
    rw [(List.append_eq_nil_iff.mp (List.append_eq_nil_iff.mp hnil).2).1] at hlen
    cases hlen
  cases h with
  | unread hin hout => exact absurd hout hne
  | data hreq hin hout => exact absurd hout hne
  | discard hreq hout => exact absurd hout hne
  | exec hin hout => exact absurd hout hne
  | sendValue hreq hin hout =>
    have hwidth := congrArg List.length hout
    rw [int64Code.length_encode, List.length_append] at hwidth
    have hlong := hget hreq
    omega
  | @sendResult ret hin hout =>
    have hres := congrArg List.length (hfront ret _ hout)
    rw [List.length_append, List.length_append, int32Code.length_encode, hlen] at hres
    have hpos : 0 < int32Code.width := by decide
    omega
  | @done ret hin hout hret =>
    have hres := hfront ret [] ((List.append_nil _).trans hout)
    rw [List.append_nil] at hres
    have hnil : bytes ++ rest = int32Code.encode (retOf ret) ++ [] := hres.trans (List.append_nil _).symm
    obtain ⟨hdecode, rfl⟩ := int32Code.decode_of_append hlen hnil
    rw [List.append_nil] at hout
    exact ⟨rfl, hin, rfl, ret, hret, hout, hdecode⟩

/-- A package is never empty. -/
theorem ioPackage_append_ne_nil {r : WireRequest} {created : Timestamp} {data : List UInt8} :
    ioPackage r created ++ data ≠ [] := by
  intro h
  have hlen := congrArg List.length h
  rw [List.length_append, ioPackage_length] at hlen
  have hpos : 0 < sizeofIoPackage := by decide
  have hzero : ([] : List UInt8).length = 0 := rfl
  omega

/-- A get that has received everything up to its result, and then the result: it has taken the
duration and the value of the reply. -/
theorem WorkerAt.of_getResult {r : WireRequest} {n : ℕ} {decoded : List Decoded}
    {replies : List IoResult} {input b₁ b₂ bytes rest : List UInt8} {v : Value} {wpc : WorkerPc}
    (hreq : r.req = .get) (h₁ : b₁.length = int64Code.width) (h₂ : b₂.length = valueHeadCode.width)
    (hv : v.head = valueHeadCode.decode b₂) (hlen : bytes.length = int32Code.width)
    (hat : WorkerAt r n decoded replies input (b₁ ++ b₂ ++ v.data ++ (bytes ++ rest)) wpc) :
    wpc = .header ∧ input = [] ∧ rest = [] ∧ ∃ reply, Answered r n decoded replies reply ∧
      int32Code.decode bytes = retOf reply ∧ int64Code.decode b₁ = replyDuration reply ∧
      v = replyValue reply := by
  have hread : ∀ ret tail, b₁ ++ b₂ ++ v.data ++ (bytes ++ rest) ++ tail = replyBytes r.req ret →
      int64Code.decode b₁ = replyDuration ret ∧ v = replyValue ret ∧
        bytes ++ rest ++ tail = int32Code.encode (retOf ret) := by
    intro ret tail heq
    rw [hreq] at heq
    have hassoc : b₁ ++ b₂ ++ v.data ++ (bytes ++ rest) ++ tail =
        b₁ ++ (b₂ ++ (v.data ++ (bytes ++ rest ++ tail))) := by
      simp only [List.append_assoc]
    rw [hassoc] at heq
    obtain ⟨hduration, hvalue⟩ := int64Code.decode_of_append h₁ heq
    exact ⟨hduration, Value.encode_inj h₂ hv hvalue⟩
  have hlong : int64Code.width < (b₁ ++ b₂ ++ v.data).length := by
    rw [List.length_append, List.length_append, h₁, h₂]
    have hpos : 0 < valueHeadCode.width := by decide
    omega
  obtain ⟨hpc, hin, hrest, reply, hret, heq, hdecode⟩ :=
    hat.of_result hlen (fun ret tail heq => (hread ret tail heq).2.2) fun _ => hlong
  subst hrest
  obtain ⟨hduration, hvalue, -⟩ := hread reply [] (by simpa using heq)
  exact ⟨hpc, hin, rfl, reply, hret, hdecode, hduration, hvalue⟩

/-- **A call that is over**, and did not fail on the way, returns the reply to its request; the
worker waits for the next one, and nothing of the reply is left. -/
theorem ClientDone.exact {r : WireRequest} {n : ℕ} {decoded : List Decoded}
    {replies : List IoResult} {input taken bytes rest : List UInt8} {wpc : WorkerPc}
    {ret : IoResult} {pc : ClientPc} (h : ClientDone r.req taken bytes ret pc)
    (hat : WorkerAt r n decoded replies input (taken ++ (bytes ++ rest)) wpc)
    (hpc : ∀ e, pc ≠ .discard e) :
    wpc = .header ∧ input = [] ∧ rest = [] ∧ Answered r n decoded replies ret := by
  cases h with
  | status hreq htaken hlen =>
    subst htaken
    have hreply : ∀ ret, replyBytes r.req ret = int32Code.encode (retOf ret) := by
      intro ret
      cases hr : r.req with
      | get => exact absurd hr hreq
      | set v => rfl
      | del => rfl
    obtain ⟨hpc, hin, hrest, reply, hret, -, hdecode⟩ :=
      hat.of_result hlen (fun ret tail heq => heq.trans (hreply ret)) fun hr => absurd hr hreq
    refine ⟨hpc, hin, hrest, ?_⟩
    rw [hdecode, statusOf_retOf]
    have hfits := hret.fits
    cases reply with
    | error e => exact hret
    | ok x =>
      -- a set or del returns no value
      have hnone : x = none := by
        cases hr : r.req with
        | get => exact absurd hr hreq
        | set v =>
          rw [hr] at hfits
          exact Option.isNone_iff_eq_none.mp hfits
        | del =>
          rw [hr] at hfits
          exact Option.isNone_iff_eq_none.mp hfits
      subst hnone
      exact hret
  | @got b₁ b₂ v hreq htaken h₁ h₂ hv hlen hstatus =>
    subst htaken
    obtain ⟨hpc, hin, hrest, reply, hret, hdecode, hduration, hvalue⟩ :=
      hat.of_getResult hreq h₁ h₂ hv hlen
    refine ⟨hpc, hin, hrest, ?_⟩
    rw [hdecode, statusOf_retOf] at hstatus
    have hfits := hret.fits
    rw [hreq] at hfits
    cases reply with
    | error e => cases hstatus
    | ok x =>
      obtain ⟨⟨u, d⟩, rfl⟩ := Option.isSome_iff_exists.mp hfits
      rw [hduration, hvalue]
      exact hret
  | @discarded e hreq hlen => exact absurd rfl (hpc e)

/-- A call that is over has returned an error or the reply to its request, also where a get was
cut short and has discarded the rest. -/
theorem ClientDone.answered {r : WireRequest} {n : ℕ} {decoded : List Decoded}
    {replies : List IoResult} {input taken bytes rest : List UInt8} {wpc : WorkerPc}
    {ret : IoResult} {pc : ClientPc} (h : ClientDone r.req taken bytes ret pc)
    (hat : WorkerAt r n decoded replies input (taken ++ (bytes ++ rest)) wpc)
    (hdiscard : ∀ e, pc = .discard e → bytes.length ≠ discardSize →
      rest = [] ∧ wpc = .header ∧ input = []) :
    wpc = .header ∧ input = [] ∧ rest = [] ∧
      ∃ reply, Answered r n decoded replies reply ∧ ReturnOf ret reply := by
  -- a get that discards returns its error, whatever the reply was
  by_cases hpc : ∀ e, pc ≠ .discard e
  · obtain ⟨hwpc, hin, hrest, hret⟩ := h.exact hat hpc
    exact ⟨hwpc, hin, hrest, ret, hret, .inr rfl⟩
  · cases h with
    | status => exact absurd nofun hpc
    | got => exact absurd nofun hpc
    | @discarded e hreq hlen =>
      obtain ⟨rfl, rfl, rfl⟩ := hdiscard e rfl hlen
      cases hat with
      | unread hin => exact absurd hin.symm ioPackage_append_ne_nil
      | @done reply hin hout hret => exact ⟨rfl, rfl, rfl, reply, hret, .inl ⟨e, rfl⟩⟩

/-! ## A session -/

/-- A call receives where it waits for something, and no more than is there. -/
theorem ClientPc.mayRecv_le {pc : ClientPc} {n : ℕ} {queue : List UInt8}
    (h : pc.mayRecv n queue = true) : pc.want ≠ none ∧ n ≤ queue.length := by
  cases pc with
  | idle => cases h
  | sendData value => cases h
  | result => exact ⟨nofun, recvOk_le h⟩
  | getDuration => exact ⟨nofun, recvOk_le h⟩
  | getHead duration => exact ⟨nofun, recvOk_le h⟩
  | getData duration head => exact ⟨nofun, recvOk_le h⟩
  | getResult duration value => exact ⟨nofun, recvOk_le h⟩
  | discard e => exact ⟨nofun, recvNonblockOk_le h⟩

/-- A call that receives has sent everything. -/
theorem Session.unsent_of_want {s : Session} (h : s.client.want ≠ none) : s.unsent = [] := by
  unfold Session.unsent
  split
  · rename_i value hpc
    rw [hpc] at h
    exact absurd rfl h
  · rfl

/-- A call begins where its request says. -/
theorem ClientAt.begin (req : IoRequest) : ClientAt req req.begin [] := by
  cases req with
  | get => exact .getDuration rfl
  | set v => exact .sendData rfl
  | del => exact .result nofun

/-- What a call that begins has still to send. -/
theorem Session.unsent_begin (s : Session) (req : IoRequest) :
    Session.unsent { s with client := req.begin } = req.data := by
  cases req with
  | get => rfl
  | set v => rfl
  | del => rfl

/-- A set that has sent its data waits for the result. -/
theorem ClientAt.sentData {req : IoRequest} {v : Value} {taken : List UInt8}
    (h : ClientAt req (.sendData v) taken) : ClientAt req .result taken := by
  cases h with
  | sendData hreq =>
    refine .result ?_
    rw [hreq]
    nofun

/-- The bytes a call takes were under way: the place of the worker is as before. -/
theorem Session.worker_goOn {s : Session} {r : WireRequest} {n k : ℕ} {pc' : ClientPc}
    (hwant : s.client.want ≠ none) (hwant' : pc'.want ≠ none)
    (hworker : WorkerAt r k s.worker.decoded s.worker.replies (s.worker.inbox ++ s.unsent)
      (s.taken ++ s.worker.outbox) s.worker.pc) :
    WorkerAt r k s.worker.decoded s.worker.replies
      (s.worker.inbox ++ Session.unsent
        { s with
          client := pc'
          worker.outbox := s.worker.outbox.drop n
          taken := s.taken ++ s.worker.outbox.take n })
      (s.taken ++ s.worker.outbox.take n ++ s.worker.outbox.drop n) s.worker.pc := by
  have hunsent := Session.unsent_of_want (s :=
    { s with
      client := pc'
      worker.outbox := s.worker.outbox.drop n
      taken := s.taken ++ s.worker.outbox.take n }) hwant'
  rw [hunsent, List.append_assoc, List.take_append_drop]
  rw [Session.unsent_of_want hwant] at hworker
  exact hworker

/-- A worker that has nothing to read waits for a request. -/
theorem Worker.waits {w w' : Worker} {a : WorkerAction} (hpc : w.pc = .header)
    (hin : w.inbox = []) : ¬ WorkerStep w a w' := by
  have hempty : ∀ {n stale}, headerOk n stale w.inbox = true → False := by
    intro n stale h
    rw [hin, headerOk_nil] at h
    cases h
  intro hs
  cases hs with
  | request _ hrecv => exact hempty hrecv
  | setHead _ hrecv => exact hempty hrecv
  | setNoMemory _ hrecv => exact hempty hrecv
  | unknown _ hrecv => exact hempty hrecv
  | setValue hw => cases hw.symm.trans hpc
  | setShort hw => cases hw.symm.trans hpc
  | discardMore hw => cases hw.symm.trans hpc
  | discardEnd hw => cases hw.symm.trans hpc
  | answered hw => cases hw.symm.trans hpc
  | sentValue hw => cases hw.symm.trans hpc
  | sentResult hw => cases hw.symm.trans hpc

theorem Session.Busy.lookup {s : Session} {earlier : List WireRequest} {r : WireRequest}
    (h : s.Busy earlier r) : s.sent[earlier.length]? = some r := by
  rw [h.sent, List.getElem?_concat_length]

/-- A call receives: it goes on, or it is over and the session is at a boundary. -/
theorem SessionInv.recv {s : Session} {n : ℕ} {alloc : Bool} (h : SessionInv s)
    (ho : s.orderly (.recv n alloc) = true)
    (hrecv : s.client.mayRecv n s.worker.outbox = true) :
    SessionInv (Session.proceed
      { s with
        worker.outbox := s.worker.outbox.drop n
        taken := s.taken ++ s.worker.outbox.take n }
      (s.client.received (s.worker.outbox.take n) alloc)) := by
  obtain ⟨hwant, hle⟩ := ClientPc.mayRecv_le hrecv
  have hlen : (s.worker.outbox.take n).length = n := List.length_take_of_le hle
  rcases h.phase with hb | ⟨earlier, r, hbusy⟩
  · rw [hb.client] at hwant
    exact absurd rfl hwant
  have hworker := hbusy.worker
  rw [Session.unsent_of_want hwant, List.append_nil] at hworker
  have hresult : s.client = .result → (s.worker.outbox.take n).length = int32Code.width := by
    intro hpc
    rw [hlen]
    simpa [Session.orderly, hpc] using ho
  rcases hbusy.client.received hwant hresult alloc with ⟨pc', hgoOn, hwant', hclient⟩ | ⟨ret, hdone, hcall⟩
  · rw [hgoOn]
    exact ⟨h.decoded, h.returned, .inr ⟨earlier, r, hbusy.sent, hbusy.intact, hbusy.returned, hclient,
      Session.worker_goOn hwant hwant' hbusy.worker⟩⟩
  · rw [← List.take_append_drop n s.worker.outbox] at hworker
    have hdiscard : ∀ e, s.client = .discard e →
        (s.worker.outbox.take n).length ≠ discardSize →
        s.worker.outbox.drop n = [] ∧ s.worker.pc = .header ∧ s.worker.inbox = [] := by
      intro e hpc hshort
      rw [hlen] at hshort
      have hend : n = s.worker.outbox.length ∧ s.worker.pc = .header ∧ s.worker.inbox = [] := by
        simpa [Session.orderly, hpc, hshort, and_assoc] using ho
      exact ⟨List.drop_of_length_le hend.1.ge, hend.2⟩
    obtain ⟨hpc, hin, hrest, reply, hret, hof⟩ := hcall.answered hworker hdiscard
    have hsent : s.sent.length = earlier.length + 1 := by
      rw [hbusy.sent, List.length_append, List.length_singleton]
    rw [hdone]
    refine ⟨h.decoded, h.returned.snoc_left ?_ hof, .inl ⟨rfl, hpc, hin, hrest, ?_, ?_, ?_⟩⟩
    · rw [hbusy.returned]
      exact hret.last
    · exact hret.hdec.trans hsent.symm
    · exact hret.hrep.trans hsent.symm
    · show (s.returned ++ [ret]).length = s.sent.length
      rw [List.length_append, hbusy.returned, hsent, List.length_singleton]

/-- **Every orderly step keeps the invariant.** -/
theorem SessionInv.step {s s' : Session} {a : SessionAction} (h : SessionInv s)
    (ho : s.orderly a = true) (hs : SessionStep s a s') : SessionInv s' := by
  cases hs with
  | @call r created hpc =>
    have hintact : r.KeyIntact := of_decide_eq_true ho
    rcases h.phase with hb | ⟨earlier, r', hbusy⟩
    · refine ⟨h.decoded.append_right _, h.returned, .inr ⟨s.sent, r, rfl, hintact, hb.returned, ?_, ?_⟩⟩
      · exact .begin r.req
      · show WorkerAt r _ _ _ (s.worker.inbox ++ ioPackage r created ++ _) ([] ++ s.worker.outbox)
          s.worker.pc
        rw [hb.inbox, hb.outbox, hb.worker]
        exact .unread (congrArg _ (s.unsent_begin r.req)) rfl hb.decoded hb.replies
    · have hclient := hbusy.client
      rw [hpc] at hclient
      cases hclient
  | @sendData value hpc =>
    rcases h.phase with hb | ⟨earlier, r, hbusy⟩
    · cases hpc.symm.trans hb.client
    · have hclient := hbusy.client
      have hworker := hbusy.worker
      rw [hpc] at hclient
      rw [Session.unsent, hpc] at hworker
      refine ⟨h.decoded, h.returned, .inr ⟨earlier, r, hbusy.sent, hbusy.intact, hbusy.returned, ?_, ?_⟩⟩
      · exact hclient.sentData
      · show WorkerAt r _ _ _ (s.worker.inbox ++ value.data ++ []) _ s.worker.pc
        rw [List.append_nil]
        exact hworker
  | recv hrecv => exact h.recv ho hrecv
  | @worker a w hs =>
    rcases h.phase with hb | ⟨earlier, r, hbusy⟩
    · exact absurd hs (Worker.waits hb.worker hb.inbox)
    · obtain ⟨hat, hdecoded, rest, hreplies⟩ := hbusy.worker.step
        (WireRequest.asRead_reads (WireRequest.asRead_iff.mpr hbusy.intact)) hbusy.lookup h.decoded ho hs
      refine ⟨hdecoded, ?_, .inr ⟨earlier, r, hbusy.sent, hbusy.intact, hbusy.returned, hbusy.client, hat⟩⟩
      show Aligned ReturnOf s.returned w.replies
      rw [hreplies]
      exact h.returned.append_right rest

theorem SessionInv.start : SessionInv Session.start :=
  ⟨.nil, .nil, .inl ⟨rfl, rfl, rfl, rfl, rfl, rfl, rfl⟩⟩

theorem SessionInv.framed {s : Session} (h : SessionInv s) : s.Framed where
  decoded := h.decoded
  returned := h.returned
  boundary := by
    intro hpc
    rcases h.phase with hb | ⟨earlier, r, hbusy⟩
    · exact hb
    · have hclient := hbusy.client
      rw [hpc] at hclient
      cases hclient

/-- **Framing**: in every run whose steps are all orderly, in every state reached the worker has
decoded the requests that were sent, in their order, every call that is over has returned
an error or the reply to its own request, and between two calls no byte is left unread. -/
theorem session_framed {s : Session}
    (h : (sessionSystem.during fun s a => s.orderly a = true).Reachable s) : s.Framed := by
  refine SessionInv.framed (LTS.invariant (I := SessionInv) ?_ ?_ h)
  · rintro s rfl
    exact .start
  · rintro s a s' hinv ⟨hs, ho⟩
    exact hinv.step ho (sessionStep_ok hs)

/-- What `pkg_head` holds before anything is read into it. -/
def exampleStale : List UInt8 := List.replicate sizeofIoPackage 0

/-- A set and a get, with the reply of the get read in between its sends. -/
def exampleSession : List SessionAction :=
  [.call ⟨.set exampleValue, exampleKey⟩ 0, .worker (.recv 269 exampleStale true), .sendData,
    .worker (.recv 4 exampleStale true), .worker (.reply (.ok none)), .worker .send, .recv 4 true,
    .call ⟨.get, exampleKey⟩ 1, .worker (.recv 269 exampleStale true),
    .worker (.reply (.ok (some (exampleValue, 7)))), .recv 8 true, .worker .send, .recv 5 true,
    .recv 4 true, .worker .send, .recv 4 true]

/-- A session in which every `recv` is complete. -/
theorem session_framed_setGet :
    ∃ s : Session, (sessionSystem.during fun s a => s.orderly a = true).Reachable s ∧
      s.returned = [.ok none, .ok (some (exampleValue, 7))] ∧
      Aligned ReturnOf s.returned s.worker.replies ∧ s.Boundary := by
  obtain ⟨s, hrun, hreturned, hclient⟩ : ∃ s,
      LTS.exec (LTS.guarded Session.orderly (LTS.stepsOk sessionStep)) Session.start
        exampleSession = some s ∧
      s.returned = [.ok none, .ok (some (exampleValue, 7))] ∧ s.client = .idle := by
    refine Option.map_eq_some_iff.mp ?_ |>.imp fun s h => ⟨h.1, Prod.mk.inj h.2⟩
    decide +kernel
  have hreach : (sessionSystem.during fun s a => s.orderly a = true).Reachable s := by
    refine LTS.exec_reachable (fun _ _ _ h => ?_) rfl hrun
    obtain ⟨hs, ho⟩ := LTS.guarded_eq_some h
    exact ⟨LTS.stepsOk_eq_some hs, ho⟩
  have hframed := session_framed hreach
  exact ⟨s, hreach, hreturned, hframed.returned, hframed.boundary hclient⟩

/-- The data of a set comes in two parts: the call fails, and the second part, behind which
nothing was ever sent, is taken for the header of a get of the empty key. -/
theorem session_short_data :
    ∃ s : Session, sessionSystem.Reachable s ∧
      s.sent = [⟨.set exampleValue, exampleKey⟩] ∧
      s.worker.decoded = [.short exampleKey exampleValue.head, .request ⟨.get, ⟨[], by decide⟩⟩] ∧
      ¬ s.Framed := by
  obtain ⟨s, hrun, hsent, hdecoded⟩ : ∃ s,
      LTS.exec (LTS.stepsOk sessionStep) Session.start
        [.call ⟨.set exampleValue, exampleKey⟩ 0, .sendData,
          .worker (.recv 269 exampleStale true), .worker (.recv 1 exampleStale true),
          .worker .send, .recv 4 true, .worker (.recv 3 exampleStale true)] = some s ∧
      s.sent = [⟨.set exampleValue, exampleKey⟩] ∧
      s.worker.decoded =
        [.short exampleKey exampleValue.head, .request ⟨.get, ⟨[], by decide⟩⟩] := by
    refine Option.map_eq_some_iff.mp ?_ |>.imp fun s h => ⟨h.1, Prod.mk.inj h.2⟩
    decide +kernel
  refine ⟨s, LTS.exec_reachable (fun _ _ _ => LTS.stepsOk_eq_some) rfl hrun, hsent, hdecoded,
    fun hframed => ?_⟩
  obtain ⟨r, hr, -⟩ := hframed.decoded 1 _ (by rw [hdecoded]; rfl)
  rw [hsent] at hr
  cases hr

end Propd
