import Propd.Wire.Transfer

/-!
# The key of a request

`io_begin` writes the key into a field of `NAME_MAX` bytes with `strncpy`, and the worker reads it
from there as a string. A key as long as the field or longer leaves no NUL in it, so the worker
goes on in the head of the value, whose first byte depends on the operation: the key it passes
to the io functions is another one, or has no end in the package.

This module proves for which requests the key arrives: the worker passes it on as it is, or the
call returns an error. The transfers are complete, and the sessions are arbitrary. A set of a
value without data never comes to an io function, so no key is passed on for it at all.
-/

namespace Propd

open Lib

/-- A call whose key has no end in its package: the worker has not read it, and will not get
beyond it. `s₀` is the session before the call. -/
structure Session.Stuck (s s₀ : Session) (r : WireRequest) : Prop where
  unreadable : r.asRead = none
  client : s.client = r.req.begin ∨ s.client = .result
  worker : s.worker.pc = .header
  outbox : s.worker.outbox = []
  package : ∃ created rest, s.worker.inbox = ioPackage r created ++ rest
  sent : s.sent = s₀.sent ++ [r]
  returned : s.returned = s₀.returned
  decoded : s.worker.decoded = s₀.worker.decoded

/-- A call receives nothing as long as nothing is there. -/
theorem ClientPc.not_mayRecv_nil {pc : ClientPc} {n : ℕ} (hpc : ∀ e, pc ≠ .discard e) :
    pc.mayRecv n [] = false := by
  unfold mayRecv
  cases pc with
  | discard e => exact absurd rfl (hpc e)
  | _ => simp

/-- The reply to a call whose key has no end never comes. -/
theorem Session.Stuck.not_mayRecv {s s₀ : Session} {r : WireRequest} {n : ℕ} (h : s.Stuck s₀ r) :
    s.client.mayRecv n s.worker.outbox = false := by
  rw [h.outbox]
  rcases h.client with heq | heq
  · cases hreq : r.req with
    | get =>
      rw [heq, hreq]
      exact ClientPc.not_mayRecv_nil nofun
    | set v =>
      rw [heq, hreq]
      rfl
    | del =>
      rw [heq, hreq]
      exact ClientPc.not_mayRecv_nil nofun
  · rw [heq]
    exact ClientPc.not_mayRecv_nil nofun

/-- The worker that reads its package in full finds no key in it. -/
theorem Session.Stuck.key_eq_none {s s₀ : Session} {r : WireRequest} {n : ℕ} {stale : List UInt8}
    {alloc : Bool} (h : s.Stuck s₀ r) (hc : s.worker.complete (.recv n stale alloc) = true)
    (hrecv : headerOk n stale s.worker.inbox = true) :
    IoPackage.key (s.worker.pkgHead n stale) = none := by
  obtain ⟨created, rest, hin⟩ := h.package
  obtain ⟨-, hstale⟩ := headerOk_le hrecv
  have hn : n = sizeofIoPackage := by
    simpa [Worker.complete, h.worker] using (Bool.and_eq_true_iff.mp hc).2
  subst hn
  have hpkg : s.worker.pkgHead sizeofIoPackage stale = ioPackage r created := by
    rw [Worker.pkgHead, hin, List.take_left' ioPackage_length,
      List.drop_of_length_le hstale.le, List.append_nil]
  have hnone := h.unreadable
  rw [WireRequest.asRead, Option.map_eq_none_iff] at hnone
  rw [hpkg, ioPackage_key_eq, ← ioPackage_key_eq r 0, hnone]

/-- **A call whose key has no end** gets no further than its data: no complete step is one of the
worker. -/
theorem Session.Stuck.step {s s' s₀ : Session} {r : WireRequest} {a : SessionAction}
    (h : s.Stuck s₀ r) (hc : s.complete a = true) (hs : SessionStep s a s') : s'.Stuck s₀ r := by
  cases hs with
  | call hpc =>
    rcases h.client with heq | heq
    · rw [hpc] at heq
      cases hreq : r.req <;> rw [hreq] at heq <;> cases heq
    · cases hpc.symm.trans heq
  | @sendData value hpc =>
    obtain ⟨created, rest, hin⟩ := h.package
    refine ⟨h.unreadable, .inr rfl, h.worker, h.outbox, ⟨created, rest ++ value.data, ?_⟩,
      h.sent, h.returned, h.decoded⟩
    show s.worker.inbox ++ value.data = _
    rw [hin, List.append_assoc]
  | recv hrecv => cases h.not_mayRecv.symm.trans hrecv
  | @worker a w hw =>
    have hpc := h.worker
    have hc : s.worker.complete a = true := hc
    cases hw with
    | request hw hrecv hread => cases (h.key_eq_none hc hrecv).symm.trans hread
    | setHead hw hrecv hread => cases (h.key_eq_none hc hrecv).symm.trans hread
    | setNoMemory hw hrecv hread => cases (h.key_eq_none hc hrecv).symm.trans hread
    | unknown hw hrecv hread => cases (h.key_eq_none hc hrecv).symm.trans hread
    | setValue hw => cases hw.symm.trans hpc
    | setShort hw => cases hw.symm.trans hpc
    | discardMore hw => cases hw.symm.trans hpc
    | discardEnd hw => cases hw.symm.trans hpc
    | answered hw => cases hw.symm.trans hpc
    | sentValue hw => cases hw.symm.trans hpc
    | sentResult hw => cases hw.symm.trans hpc

/-- What an io function may return when all goes well. -/
def IoRequest.success : IoRequest → IoResult
  | get => .ok (some (.undef, 0))
  | set _ | del => .ok none

/-- A node whose io functions succeed. -/
def willingServer : IoServer Unit where
  call _ r ret _ := ret = r.req.success
  fits := by
    rintro x y r ret rfl
    cases r.req <;> rfl

theorem Direct.success {reqs : List WireRequest} {rets : List IoResult} {x : Unit}
    (h : Direct willingServer () reqs rets x) : ∀ ret ∈ rets, ∀ e, ret ≠ .error e := by
  induction h with
  | nil => exact fun ret hret => absurd hret List.not_mem_nil
  | @snoc reqs rets x y r ret h hcall ih =>
    intro ret' hret'
    rcases List.mem_append.mp hret' with hold | hnew
    · exact ih ret' hold
    · rw [List.mem_singleton.mp hnew, show ret = r.req.success from hcall]
      cases r.req <;> nofun

/-- A key as long as its field: 255 times the letter `k`. -/
def fieldKey : CString :=
  ⟨List.replicate NAME_MAX 107, fun h => absurd (List.eq_of_mem_replicate h) (by decide)⟩

/-- What the worker makes of it in front of a `u32`: the type and the length of the value are two
more characters. -/
def fieldKeyRead : CString := fieldKey.append ⟨[4, 4], by decide⟩

end Propd
