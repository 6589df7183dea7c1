import Propd.Ctrl.Client
import Propd.Ctrl.Server

/-!
# The exchange between a ctrl client and the server

What a call of the client is to do: receive the replies the worker sends for its package and take
each for what it is, return the result of the handler, and leave alone what it has released.

A call that sends its package reads it afterwards, to see which replies to wait for, and
`ctrl_update` has released it. So no call that sends anything does what is asked of it. Apart
from that read, the byte that is found decides: if it is one of the dump types the call never
returns, for the server sends nothing but a result, and else it returns that result.
-/

namespace Propd

open Lib

/-! ## What a call of each function does -/

namespace CtrlRequest

/-- There are not more strings than 32 bits count. -/
def Counted : CtrlRequest → Prop
  | .registerChild _ cacheNow prefixes => cacheNow.length < 2 ^ 32 ∧ prefixes.length < 2 ^ 32
  | _ => True

/-- The size of the slots is a 32-bit number, and so the package has the memory it needs. -/
def Allocated : CtrlRequest → Prop
  | .registerChild _ cacheNow prefixes => NAME_MAX * (cacheNow.length + prefixes.length) < 2 ^ 32
  | _ => True

/-- `ctrl_type_t` of a request. -/
def type : CtrlRequest → UInt8
  | .registerChild _ _ _ => CtrlType.registerChild
  | .registerParent _ => CtrlType.registerParent
  | .unregisterChild _ => CtrlType.unregisterChild
  | .unregisterParent _ => CtrlType.unregisterParent
  | .dumpDbRoute _ => CtrlType.dumpDbRoute
  | .dumpDbCache _ => CtrlType.dumpDbCache

/-- Whether there are pointers for data. -/
def out : CtrlRequest → Bool
  | .dumpDbRoute out => out
  | .dumpDbCache out => out
  | _ => false

/-- What follows the type in the package. -/
def payload (t : CtrlClientTurn) : CtrlRequest → List UInt8
  | .registerChild name cacheNow prefixes =>
    strncpy name NAME_MAX ++ uint32Code.encode (UInt32.ofNat cacheNow.length) ++
      uint32Code.encode (UInt32.ofNat prefixes.length) ++ slotBytes (cacheNow ++ prefixes)
  | .registerParent name | .unregisterChild name | .unregisterParent name =>
    strncpy name NAME_MAX ++ (List.range' numCacheNowOffset 8).map t.junk
  | .dumpDbRoute _ | .dumpDbCache _ =>
    (List.range' ctrlNameOffset (sizeofCtrlPackage - 1)).map t.junk

/-- The package of a request. -/
def package (t : CtrlClientTurn) (r : CtrlRequest) : List UInt8 := r.type :: r.payload t

end CtrlRequest

theorem length_slotBytes (strings : List CString) :
    (slotBytes strings).length = NAME_MAX * strings.length := by
  induction strings with
  | nil => rfl
  | cons s rest ih =>
    rw [slotBytes, List.flatMap_cons, List.length_append, length_strncpy, ← slotBytes, ih,
      List.length_cons, Nat.mul_succ, Nat.add_comm]

theorem length_childBytes (name : CString) (cacheNow prefixes : List CString)
    (numCacheNow numPrefix : UInt32) :
    (childBytes name cacheNow prefixes numCacheNow numPrefix).length =
      sizeofCtrlPackage + NAME_MAX * (cacheNow.length + prefixes.length) := by
  simp only [childBytes, List.length_cons, List.length_append, length_strncpy, length_slotBytes,
    uint32Code.length_encode]
  simp only [sizeofCtrlPackage, numPrefixOffset, numCacheNowOffset, ctrlNameOffset, uint32Code]
  omega

/-- The size of the slots, in 32 bits. -/
theorem childDelta_eq {n m : ℕ} (hn : n < 2 ^ 32) (hm : m < 2 ^ 32) :
    childDelta (UInt32.ofNat n) (UInt32.ofNat m) = (NAME_MAX * (n + m)) % 2 ^ 32 := by
  have hname : (UInt32.ofNat NAME_MAX).toNat = NAME_MAX := rfl
  rw [childDelta, UInt32.toNat_mul, UInt32.toNat_add, UInt32.toNat_ofNat_of_lt' hn,
    UInt32.toNat_ofNat_of_lt' hm, hname, Nat.mod_mul_mod, Nat.mul_comm, Nat.add_comm m n]

variable {S : Type} {t : CtrlClientTurn} {server : List UInt8 → List Reply}

theorem ctrlRegisterChild_eq {name : CString} {cacheNow prefixes : List CString}
    (hcounted : (CtrlRequest.registerChild name cacheNow prefixes).Counted) (hinit : t.init = .ok ()) :
    ctrlRegisterChild t name cacheNow prefixes server =
      if NAME_MAX * (cacheNow.length + prefixes.length) < 2 ^ 32 then
        ctrlExchange ((CtrlRequest.registerChild name cacheNow prefixes).package t) t false server
      else .unsent (.error .outOfBounds) := by
  have hcache : countStrings cacheNow = .ok (UInt32.ofNat cacheNow.length) := if_pos hcounted.1
  have hprefixes : countStrings prefixes = .ok (UInt32.ofNat prefixes.length) := if_pos hcounted.2
  unfold ctrlRegisterChild
  simp only [hcache, hprefixes, hinit, length_childBytes, childDelta_eq hcounted.1 hcounted.2]
  -- the product is smaller than what is written exactly where it has overflowed
  by_cases hfits : NAME_MAX * (cacheNow.length + prefixes.length) < 2 ^ 32
  · rw [if_pos hfits, Nat.mod_eq_of_lt hfits, if_neg (lt_irrefl _)]
    rfl
  · rw [if_neg hfits, if_pos]
    have hmod := Nat.mod_lt (NAME_MAX * (cacheNow.length + prefixes.length))
      (show 0 < 2 ^ 32 by decide)
    omega

/-- A call with an array that has no end does not come to `ctrl_init`. -/
theorem CtrlRequest.call_uncounted {r : CtrlRequest} (h : ¬ r.Counted) (t : CtrlClientTurn)
    (server : List UInt8 → List Reply) : r.call t server = .unsent (.error .waits) := by
  cases r with
  | registerChild name cacheNow prefixes =>
    rw [call, ctrlRegisterChild]
    by_cases hcache : cacheNow.length < 2 ^ 32
    · have hprefixes : ¬ prefixes.length < 2 ^ 32 := fun hlt => h ⟨hcache, hlt⟩
      rw [show countStrings prefixes = .error .waits from if_neg hprefixes,
        show countStrings cacheNow = .ok (UInt32.ofNat cacheNow.length) from if_pos hcache]
    · rw [show countStrings cacheNow = .error .waits from if_neg hcache]
  | registerParent name => exact absurd trivial h
  | unregisterChild name => exact absurd trivial h
  | unregisterParent name => exact absurd trivial h
  | dumpDbRoute out => exact absurd trivial h
  | dumpDbCache out => exact absurd trivial h

/-- A call whose `ctrl_init` fails returns the error. -/
theorem CtrlRequest.call_init {r : CtrlRequest} (h : r.Counted) {t : CtrlClientTurn} {e : Errno}
    (hinit : t.init = .error e) (server : List UInt8 → List Reply) :
    r.call t server = .unsent (.ok (.error e)) := by
  cases r with
  | registerChild name cacheNow prefixes =>
    have hcache : countStrings cacheNow = .ok (UInt32.ofNat cacheNow.length) := if_pos h.1
    have hprefixes : countStrings prefixes = .ok (UInt32.ofNat prefixes.length) := if_pos h.2
    simp only [call, ctrlRegisterChild, hcache, hprefixes, hinit]
  | registerParent name => simp only [call, ctrlGeneric0, hinit]
  | unregisterChild name => simp only [call, ctrlGeneric0, hinit]
  | unregisterParent name => simp only [call, ctrlGeneric0, hinit]
  | dumpDbRoute out => simp only [call, ctrlGeneric1, hinit]
  | dumpDbCache out => simp only [call, ctrlGeneric1, hinit]

/-- A call with memory for its package makes the exchange; only the package of a registration
may be too long. -/
theorem CtrlRequest.call_package {r : CtrlRequest} (h : r.Counted) {t : CtrlClientTurn}
    (hinit : t.init = .ok ()) (server : List UInt8 → List Reply) :
    (¬ r.Allocated ∧ r.call t server = .unsent (.error .outOfBounds)) ∨
      (r.Allocated ∧ r.call t server = ctrlExchange (r.package t) t r.out server) := by
  cases r with
  | registerChild name cacheNow prefixes =>
    have hcall : ctrlRegisterChild t name cacheNow prefixes server = _ :=
      ctrlRegisterChild_eq h hinit
    by_cases hfits : NAME_MAX * (cacheNow.length + prefixes.length) < 2 ^ 32
    · exact .inr ⟨hfits, hcall.trans (if_pos hfits)⟩
    · exact .inl ⟨hfits, hcall.trans (if_neg hfits)⟩
  | registerParent name =>
    exact .inr ⟨trivial, by simp only [call, ctrlGeneric0, hinit]; rfl⟩
  | unregisterChild name =>
    exact .inr ⟨trivial, by simp only [call, ctrlGeneric0, hinit]; rfl⟩
  | unregisterParent name =>
    exact .inr ⟨trivial, by simp only [call, ctrlGeneric0, hinit]; rfl⟩
  | dumpDbRoute out => exact .inr ⟨trivial, by simp only [call, ctrlGeneric1, hinit]; rfl⟩
  | dumpDbCache out => exact .inr ⟨trivial, by simp only [call, ctrlGeneric1, hinit]; rfl⟩

/-- **What a call does**, by what it meets first: an array without an end, an error of `ctrl_init`,
too little memory, or none of them. -/
theorem CtrlRequest.call_cases (r : CtrlRequest) (t : CtrlClientTurn)
    (server : List UInt8 → List Reply) :
    (¬ r.Counted ∧ r.call t server = .unsent (.error .waits)) ∨
    (r.Counted ∧ ∃ e, t.init = .error e ∧ r.call t server = .unsent (.ok (.error e))) ∨
    (r.Counted ∧ t.init = .ok () ∧ ¬ r.Allocated ∧
      r.call t server = .unsent (.error .outOfBounds)) ∨
    (r.Counted ∧ t.init = .ok () ∧ r.Allocated ∧
      r.call t server = ctrlExchange (r.package t) t r.out server) := by
  by_cases hcounted : r.Counted
  · cases hinit : t.init with
    | error e => exact .inr (.inl ⟨hcounted, e, rfl, call_init hcounted hinit server⟩)
    | ok u =>
      rcases call_package hcounted hinit server with ⟨halloc, hcall⟩ | ⟨halloc, hcall⟩
      · exact .inr (.inr (.inl ⟨hcounted, rfl, halloc, hcall⟩))
      · exact .inr (.inr (.inr ⟨hcounted, rfl, halloc, hcall⟩))
  · exact .inl ⟨hcounted, call_uncounted hcounted t server⟩

/-- An exchange whose package is not sent returns `EIO`, and any other goes by the byte in the
released package. -/
theorem ctrlExchange_eq (package : List UInt8) (t : CtrlClientTurn) (out : Bool)
    (server : List UInt8 → List Reply) :
    ctrlExchange package t out server =
      if t.sends then
        ⟨some package, (ctrlFinal0 ⟨package, true⟩ t out ((server package).map Reply.bytes)).1, true,
          (ctrlFinal0 ⟨package, true⟩ t out ((server package).map Reply.bytes)).2⟩
      else .unsent (.ok (.error EIO)) := by
  unfold ctrlExchange ctrlUpdate
  cases t.sends with
  | true => rfl
  | false => rfl

/-! ## What is received -/

variable {handle : List UInt8 → Except PkgFault (Handling S)} {package : List UInt8}

/-- A result that is received as one is the result that was sent. -/
theorem recvResult_encode (received : List Reply) (ret : SetResult)
    (rest : List (List UInt8)) :
    recvResult received (int32Code.encode (retOf ret) :: rest) =
      (received ++ [⟨.result, int32Code.encode (retOf ret)⟩], .ok ret) := by
  have hlen : (int32Code.encode (retOf ret)).length = int32Code.width := int32Code.length_encode _
  have htake : (int32Code.encode (retOf ret)).take int32Code.width = int32Code.encode (retOf ret) :=
    List.take_of_length_le hlen.le
  simp only [recvResult, recvFrom, htake, hlen, if_true, int32Code.decode_encode, statusOf_retOf_unit]

/-- **With a dump type at the start of the package no call returns** when there is one reply or
none: it stops at the missing pointers, or the reply is taken for a length and what is to
follow it never comes. -/
theorem ctrlFinal0_dumps (ctx : CtrlContext) (h : dumps (ctx.type t.stale) = true) (out : Bool)
    (replies : List (List UInt8)) (hone : replies.length ≤ 1) :
    ∃ stop, (ctrlFinal0 ctx t out replies).2 = .error stop := by
  unfold ctrlFinal0
  rw [if_pos h]
  cases out with
  | false => exact ⟨.assertion, rfl⟩
  | true =>
    cases replies with
    | nil => exact ⟨.waits, rfl⟩
    | cons d rest =>
      have hrest : rest = [] := List.length_eq_zero_iff.mp (Nat.le_zero.mp (Nat.le_of_succ_le_succ hone))
      subst hrest
      simp only [recvFrom, Bool.not_true, Bool.false_eq_true, if_false]
      split
      · -- the length is here: then the data or the result is missing
        simp only [recvData, recvResult, discardReplies, recvFrom]
        split
        · exact ⟨.waits, rfl⟩
        split
        · exact ⟨.waits, rfl⟩
        · exact ⟨.waits, rfl⟩
      · exact ⟨.assertion, rfl⟩

/-- `worker` sends one datagram at most. -/
theorem length_workerReplies (handled : Except PkgFault (Handling S)) :
    (workerReplies handled).length ≤ 1 := by
  unfold workerReplies
  cases handled with
  | error e => exact Nat.zero_le 1
  | ok h =>
    dsimp only
    cases h.ret with
    | none => exact Nat.zero_le 1
    | some ret => exact le_rfl

theorem pkgLength_pos (max : UInt32) : 0 < pkgLength max :=
  lt_of_lt_of_le (by decide) (Nat.le_add_right sizeofCtrlPackage _)

/-- **A package of the client has a type that the worker replies to.** -/
theorem handlePackage_replies {env : CtrlEnv S} {s : S} {h : Handling S} (r : CtrlRequest)
    (rest : List UInt8) (hrun : handlePackage (r.type :: rest) env s = .ok h) :
    ∃ ret, h.ret = some ret := by
  unfold handlePackage at hrun
  rw [byteAt_zero (List.cons_ne_nil _ _)] at hrun
  obtain ⟨type, htype, hrun⟩ := exceptBind_ok hrun
  cases htype
  split at hrun
  · obtain ⟨_, _, hret⟩ := exceptBind_ok hrun
    cases hret
    exact ⟨_, rfl⟩
  split at hrun
  · obtain ⟨_, _, hret⟩ := exceptBind_ok hrun
    cases hret
    exact ⟨_, rfl⟩
  split at hrun
  · obtain ⟨_, _, hret⟩ := exceptBind_ok hrun
    cases hret
    exact ⟨_, rfl⟩
  split at hrun
  · obtain ⟨_, _, hret⟩ := exceptBind_ok hrun
    cases hret
    exact ⟨_, rfl⟩
  split at hrun
  · cases hrun
    exact ⟨_, rfl⟩
  · -- no function of the client sends any other type
    cases r with
    | registerChild name cacheNow prefixes => contradiction
    | registerParent name => contradiction
    | unregisterChild name => contradiction
    | unregisterParent name => contradiction
    | dumpDbRoute out => rename_i hdump; exact absurd (.inl rfl) hdump
    | dumpDbCache out => rename_i hdump; exact absurd (.inr rfl) hdump

/-- The server replies to each package of the client that it handles. -/
theorem ctrlServer_replies {max : UInt32} {env : CtrlEnv S} {s : S} {h : Handling S}
    (r : CtrlRequest) (t : CtrlClientTurn) (hrun : ctrlServer max env s (r.package t) = .ok h) :
    ∃ ret, h.ret = some ret := by
  rw [ctrlServer, CtrlRequest.package, List.take_cons (pkgLength_pos max)] at hrun
  exact handlePackage_replies r _ hrun

/-! ## What is asked of a call -/

/-- The exchange of a call is right: the client receives what the worker sends, each reply as what
it is sent as, and returns the result of the handler. A call that sends nothing returns. -/
structure CtrlRun.Exchanged (run : CtrlRun)
    (handle : List UInt8 → Except PkgFault (Handling S)) : Prop where
  received : run.received = (run.sent.map fun package => workerReplies (handle package)).getD []
  result : ∀ package h ret, run.sent = some package → handle package = .ok h → h.ret = some ret →
    run.ret = .ok ret
  returns : run.sent = none → ∃ ret, run.ret = .ok ret

/-- **What is asked of a call**: a right exchange, without a look at the package once it is
released. -/
structure CtrlRun.Correct (run : CtrlRun)
    (handle : List UInt8 → Except PkgFault (Handling S)) : Prop
    extends run.Exchanged handle where
  unread : run.readReleased = false

/-- The call sends nothing and fails: there is no socket or no memory for it, or `sendto` sends
something else than the whole package. -/
def CtrlRequest.FailsToSend (r : CtrlRequest) (t : CtrlClientTurn) : Prop :=
  r.Counted ∧ ((∃ e, t.init = .error e) ∨ r.Allocated ∧ t.sends = false)

theorem CtrlRun.Correct.unsent (ret : SetResult) : (CtrlRun.unsent (.ok ret)).Correct handle where
  received := rfl
  result _ _ _ h := nomatch h
  returns _ := ⟨ret, rfl⟩
  unread := rfl

/-- A call that stops before it sends anything is not right. -/
theorem CtrlRun.Exchanged.not_stopped {stop : CtrlStop} :
    ¬ (CtrlRun.unsent (.error stop)).Exchanged handle := by
  intro h
  obtain ⟨ret, hret⟩ := h.returns rfl
  cases hret

/-- The exchange of a package that is sent and handled is right exactly where no dump type is
found at its place. -/
theorem ctrlExchange_exchanged {out : Bool} {h : Handling S} {ret : SetResult}
    (hsends : t.sends = true) (hrun : handle package = .ok h) (hret : h.ret = some ret) :
    (ctrlExchange package t out fun package => workerReplies (handle package)).Exchanged handle ↔
      dumps t.stale = false := by
  have hreplies : workerReplies (handle package) = [⟨.result, int32Code.encode (retOf ret)⟩] := by
    simp only [workerReplies, hrun, hret]
  rw [ctrlExchange_eq, if_pos hsends, hreplies]
  constructor
  · intro hex
    by_contra hdump
    rw [Bool.not_eq_false] at hdump
    -- a dump type is waited for in vain
    obtain ⟨stop, hstop⟩ := ctrlFinal0_dumps ⟨package, true⟩ hdump out
      [int32Code.encode (retOf ret)] le_rfl
    have hresult := hex.result package h ret rfl hrun hret
    exact absurd (hstop.symm.trans hresult) nofun
  · intro hstatus
    have hfinal : ctrlFinal0 ⟨package, true⟩ t out [int32Code.encode (retOf ret)] =
        ([⟨.result, int32Code.encode (retOf ret)⟩], .ok ret) := by
      rw [ctrlFinal0, if_neg (by rw [CtrlContext.type, if_pos rfl, hstatus]; exact Bool.false_ne_true)]
      exact recvResult_encode [] ret []
    refine ⟨?_, ?_, nofun⟩
    · show (ctrlFinal0 ⟨package, true⟩ t out [int32Code.encode (retOf ret)]).1 =
        workerReplies (handle package)
      rw [hfinal, hreplies]
    · intro package' h' ret' hsent hrun' hret'
      cases hsent
      rw [hrun] at hrun'
      cases hrun'
      rw [hret] at hret'
      cases hret'
      exact congrArg Prod.snd hfinal

/-- A call that returns after it has sent its package returns what the handler has returned. -/
theorem ctrlExchange_ok {out : Bool} {ret : SetResult} (hsends : t.sends = true)
    (hrun : (ctrlExchange package t out fun package => workerReplies (handle package)).ret =
      .ok ret) :
    ∃ h, handle package = .ok h ∧ h.ret = some ret := by
  rw [ctrlExchange_eq, if_pos hsends] at hrun
  have hone : ((workerReplies (handle package)).map Reply.bytes).length ≤ 1 := by
    rw [List.length_map]
    exact length_workerReplies _
  by_cases hdump : dumps t.stale = true
  · obtain ⟨stop, hstop⟩ := ctrlFinal0_dumps ⟨package, true⟩ hdump out _ hone
    exact absurd (hstop.symm.trans hrun) nofun
  · have hfinal : ctrlFinal0 ⟨package, true⟩ t out ((workerReplies (handle package)).map Reply.bytes) =
        recvResult [] ((workerReplies (handle package)).map Reply.bytes) := if_neg hdump
    rw [hfinal] at hrun
    cases hhandle : handle package with
    | error e =>
      rw [hhandle] at hrun
      cases hrun
    | ok h =>
      refine ⟨h, rfl, ?_⟩
      rw [hhandle, workerReplies] at hrun
      cases hret : h.ret with
      | none =>
        rw [hret] at hrun
        cases hrun
      | some ret' =>
        rw [hret] at hrun
        dsimp only [List.map] at hrun
        rw [recvResult_encode] at hrun
        cases hrun
        rfl

/-- **A call of the client does what is asked of it if and only if it fails before anything is
sent**: each package that is sent is read after its release. Apart from that read, the exchange
of a package that is sent and handled is right if and only if no dump type is found in the
released memory. -/
theorem ctrlCall_correct_iff (r : CtrlRequest) (t : CtrlClientTurn) (max : UInt32)
    (env : CtrlEnv S) (s : S) :
    let run := r.call t fun package => workerReplies (ctrlServer max env s package)
    (run.Correct (ctrlServer max env s) ↔ r.FailsToSend t) ∧
      ∀ package h, run.sent = some package → ctrlServer max env s package = .ok h →
        (run.Exchanged (ctrlServer max env s) ↔ dumps t.stale = false) := by
  dsimp only
  rcases r.call_cases t fun package => workerReplies (ctrlServer max env s package) with
    ⟨hcounted, hcall⟩ | ⟨hcounted, e, hinit, hcall⟩ | ⟨-, hinit, halloc, hcall⟩ |
    ⟨hcounted, hinit, halloc, hcall⟩
  · rw [hcall]
    exact ⟨iff_of_false (fun h => h.toExchanged.not_stopped) fun h => hcounted h.1, nofun⟩
  · rw [hcall]
    exact ⟨iff_of_true (.unsent _) ⟨hcounted, .inl ⟨e, hinit⟩⟩, nofun⟩
  · rw [hcall]
    refine ⟨iff_of_false (fun h => h.toExchanged.not_stopped) ?_, nofun⟩
    rintro ⟨-, ⟨e, he⟩ | ⟨h, -⟩⟩
    · exact absurd (hinit.symm.trans he) nofun
    · exact halloc h
  · rw [hcall]
    by_cases hsends : t.sends = true
    · refine ⟨iff_of_false ?_ ?_, ?_⟩
      · -- the package is sent, and so it is released before its type is read
        intro hcorrect
        have hunread := hcorrect.unread
        rw [ctrlExchange_eq, if_pos hsends] at hunread
        cases hunread
      · rintro ⟨-, ⟨e, he⟩ | ⟨-, h⟩⟩
        · exact absurd (hinit.symm.trans he) nofun
        · exact absurd (hsends.symm.trans h) nofun
      · intro package h hsent hrun
        rw [ctrlExchange_eq, if_pos hsends] at hsent
        cases hsent
        obtain ⟨ret, hret⟩ := ctrlServer_replies r t hrun
        exact ctrlExchange_exchanged hsends hrun hret
    · have hunsent := (ctrlExchange_eq (r.package t) t r.out
        fun package => workerReplies (ctrlServer max env s package)).trans (if_neg hsends)
      rw [hunsent]
      exact ⟨iff_of_true (.unsent _) ⟨hcounted, .inr ⟨halloc, by simpa using hsends⟩⟩, nofun⟩

/-- Everything goes well for the client, and the released memory keeps the type of the package. -/
def exampleClientTurn (r : CtrlRequest) : CtrlClientTurn where
  init := .ok ()
  junk _ := 0
  sends := true
  stale := r.type
  data := true

/-- A call of the client with a node that has no routes. -/
def exampleCall (r : CtrlRequest) : CtrlRun :=
  r.call (exampleClientTurn r) fun package =>
    workerReplies (ctrlServer 1 eagerTurn.env (eagerNode, ()) package)

/-- The unregistration of a child named `c`. -/
def exampleUnregister : CtrlRequest := .unregisterChild exampleListener

/-- **An unregistration looks at its package after its release**, though it returns the result, and
a dump that finds its type there takes the result -1 for a length and waits for ever. -/
theorem exampleCall_readsReleased :
    (exampleCall exampleUnregister).readReleased = true ∧
      (exampleCall exampleUnregister).ret = .ok (.error ENOENT) ∧
      (exampleCall (.dumpDbRoute true)).received = [⟨.length, [255, 255, 255, 255]⟩] ∧
      (exampleCall (.dumpDbRoute true)).ret = .error .waits ∧
      ∀ r : CtrlRequest, r = exampleUnregister ∨ r = .dumpDbRoute true →
        ¬ (exampleCall r).Correct (ctrlServer 1 eagerTurn.env (eagerNode, ())) := by
  have hunregister : (exampleCall exampleUnregister).readReleased = true := by decide +kernel
  have hdump : (exampleCall (.dumpDbRoute true)).readReleased = true := by decide +kernel
  refine ⟨hunregister, by decide +kernel, by decide +kernel, by decide +kernel, ?_⟩
  rintro r (rfl | rfl) hcorrect
  · exact absurd (hunregister.symm.trans hcorrect.unread) nofun
  · exact absurd (hdump.symm.trans hcorrect.unread) nofun

end Propd
