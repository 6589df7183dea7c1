import Propd.Launch.Stop
import Propd.Lib.Transition

/-!
# The start of a daemon

`propd_run` with `daemon` set: the caller forks a child, which forks the daemon and leaves. The
daemon writes to a pipe how its start has ended, and if it has failed, it writes that once more when
it has cleaned up. The caller reads once, and once more where it has read a failure; if nobody has
the pipe open for writing any more, a read returns nothing and changes nothing.

Each of the three may be killed at any time. A write that nobody can read any more kills the writer.
-/

namespace Propd.Launch

open Lib

/-- The process that calls `propd_run`: before `pipe`, before `fork`, before `close(fd[1])`, before the
two reads, and when it has returned. -/
inductive CallerPc
  | piping
  | forking
  | closing
  | reading
  | rereading (ret : Int32)
  | returned (ret : Int32)
  | killed

/-- The child of the caller: before `close(fd[0])`, before the second `fork`, with so many writes
before it where that has failed, and before it leaves. -/
inductive ChildPc
  | absent
  | closing
  | forking
  | failing (e : Errno) (left : ℕ)
  | leaving
  | gone
  | killed

/-- The daemon in `__propd_run`: before the start and after it, in `pause`, before the cleanup and
after it, and when it has returned. -/
inductive DaemonPc
  | absent
  | starting (w : World)
  | started (v : RunVars) (w : World)
  | pausing (v : RunVars) (w : World)
  | cleaning (v : RunVars) (w : World)
  | stopped (v : RunVars) (w : World)
  | exited (v : RunVars) (w : World)
  | killed

/-- The process is there, and has not returned. -/
def CallerPc.alive : CallerPc → Bool
  | .returned _ | .killed => false
  | _ => true

def ChildPc.alive : ChildPc → Bool
  | .absent | .gone | .killed => false
  | _ => true

def DaemonPc.alive : DaemonPc → Bool
  | .absent | .exited _ _ | .killed => false
  | _ => true

/-- The processes, what was written to the pipe, and how much of it was read. -/
structure Handshake where
  caller : CallerPc
  child : ChildPc
  daemon : DaemonPc
  sent : List Int32
  taken : ℕ

namespace Handshake

/-- At the call of `propd_run`. -/
def init : Handshake := ⟨.piping, .absent, .absent, [], 0⟩

/-- Somebody has the pipe open for writing. -/
def writable (s : Handshake) : Bool :=
  (match s.caller with
    | .forking | .closing => true
    | _ => false) || s.child.alive || s.daemon.alive

/-- Somebody has the pipe open for reading. -/
def readable (s : Handshake) : Bool :=
  (match s.caller with
    | .forking | .closing | .reading | .rereading _ => true
    | _ => false) ||
  match s.child with
    | .closing => true
    | _ => false

/-- What a read gets: the next status, or nothing at the end of the pipe. Else it waits. -/
inductive Reads (s : Handshake) : Option Int32 → Prop
  | some {x : Int32} (h : s.sent[s.taken]? = some x) : Reads s (some x)
  | none (h : s.sent[s.taken]? = none) (hend : s.writable = false) : Reads s none

end Handshake

/-- Who makes a step happen: one of the three, or somebody else with `SIGTERM` to a running node, or
with `SIGKILL`. -/
inductive Actor
  | caller
  | child
  | daemon
  | signal
  | kill
  deriving DecidableEq

section

variable (config : RunConfig) (env : Environment) (w₀ : World)

/-- A step; `w₀` is the memory that the daemon gets. -/
inductive HandshakeStep (s : Handshake) : Actor → Handshake → Prop
  | pipe (hpc : s.caller = .piping) : HandshakeStep s .caller { s with caller := .forking }
  | pipeFails (hpc : s.caller = .piping) : HandshakeStep s .caller { s with caller := .returned (-1) }
  | fork (hpc : s.caller = .forking) :
      HandshakeStep s .caller { s with caller := .closing, child := .closing }
  | forkFails (hpc : s.caller = .forking) :
      HandshakeStep s .caller { s with caller := .returned (-1) }
  | close (hpc : s.caller = .closing) : HandshakeStep s .caller { s with caller := .reading }
  | readZero (hpc : s.caller = .reading) (hread : s.Reads (some 0)) :
      HandshakeStep s .caller { s with caller := .returned 0, taken := s.taken + 1 }
  | readStatus {x : Int32} (hpc : s.caller = .reading) (hread : s.Reads (some x)) (hx : x ≠ 0) :
      HandshakeStep s .caller { s with caller := .rereading x, taken := s.taken + 1 }
  | readEnd (hpc : s.caller = .reading) (hread : s.Reads none) :
      HandshakeStep s .caller { s with caller := .returned 0 }
  | rereadStatus {ret x : Int32} (hpc : s.caller = .rereading ret) (hread : s.Reads (some x)) :
      HandshakeStep s .caller { s with caller := .returned x, taken := s.taken + 1 }
  | rereadEnd {ret : Int32} (hpc : s.caller = .rereading ret) (hread : s.Reads none) :
      HandshakeStep s .caller { s with caller := .returned ret }
  | childClose (hpc : s.child = .closing) : HandshakeStep s .child { s with child := .forking }
  | childFork (hpc : s.child = .forking) :
      HandshakeStep s .child { s with child := .leaving, daemon := .starting w₀ }
  | childForkFails {e : Errno} (hpc : s.child = .forking) :
      HandshakeStep s .child { s with child := .failing e 2 }
  | childWrite {e : Errno} {n : ℕ} (hpc : s.child = .failing e (n + 1)) (hread : s.readable = true) :
      HandshakeStep s .child { s with child := .failing e n, sent := s.sent ++ [e.1] }
  | childSignal {e : Errno} {n : ℕ} (hpc : s.child = .failing e (n + 1)) (hread : s.readable = false) :
      HandshakeStep s .child { s with child := .killed }
  | childFailed {e : Errno} (hpc : s.child = .failing e 0) :
      HandshakeStep s .child { s with child := .leaving }
  | childLeave (hpc : s.child = .leaving) : HandshakeStep s .child { s with child := .gone }
  | start {v : RunVars} {w w' : World} (hpc : s.daemon = .starting w)
      (hrun : (propdStart config env).run w = .ok (v, w')) :
      HandshakeStep s .daemon { s with daemon := .started v w' }
  | report {v : RunVars} {w : World} (hpc : s.daemon = .started v w) (hret : v.ret = 0)
      (hread : s.readable = true) :
      HandshakeStep s .daemon { s with
        daemon := .pausing v { w with written := w.written ++ [v.ret] }, sent := s.sent ++ [v.ret] }
  | reportFailure {v : RunVars} {w : World} (hpc : s.daemon = .started v w) (hret : v.ret ≠ 0)
      (hread : s.readable = true) :
      HandshakeStep s .daemon { s with
        daemon := .cleaning v { w with written := w.written ++ [v.ret] }, sent := s.sent ++ [v.ret] }
  | reportSignal {v : RunVars} {w : World} (hpc : s.daemon = .started v w)
      (hread : s.readable = false) : HandshakeStep s .daemon { s with daemon := .killed }
  | wake {v : RunVars} {w : World} (hpc : s.daemon = .pausing v w) :
      HandshakeStep s .signal { s with daemon := .cleaning v w }
  | stop {v : RunVars} {w w' : World} (hpc : s.daemon = .cleaning v w)
      (hrun : (propdStop config env v).run w = .ok ((), w')) :
      HandshakeStep s .daemon { s with daemon := .stopped v w' }
  | stopFault {v : RunVars} {w : World} {e : Misuse ⊕ Fault} (hpc : s.daemon = .cleaning v w)
      (hrun : (propdStop config env v).run w = .error e) :
      HandshakeStep s .daemon { s with daemon := .killed }
  | exit {v : RunVars} {w : World} (hpc : s.daemon = .stopped v w) (hret : v.ret = 0) :
      HandshakeStep s .daemon { s with daemon := .exited v w }
  | reportAgain {v : RunVars} {w : World} (hpc : s.daemon = .stopped v w) (hret : v.ret ≠ 0)
      (hread : s.readable = true) :
      HandshakeStep s .daemon { s with
        daemon := .exited v { w with written := w.written ++ [v.ret] }, sent := s.sent ++ [v.ret] }
  | reportAgainSignal {v : RunVars} {w : World} (hpc : s.daemon = .stopped v w) (hret : v.ret ≠ 0)
      (hread : s.readable = false) : HandshakeStep s .daemon { s with daemon := .killed }
  | killCaller (hpc : s.caller.alive = true) : HandshakeStep s .kill { s with caller := .killed }
  | killChild (hpc : s.child.alive = true) : HandshakeStep s .kill { s with child := .killed }
  | killDaemon (hpc : s.daemon.alive = true) : HandshakeStep s .kill { s with daemon := .killed }

/-- The processes from the call of `propd_run` on. -/
def handshakeSystem : LTS Handshake Actor where
  init s := s = .init
  step := HandshakeStep config env w₀

end

/-- Somebody has killed one of the three. -/
def Killed (trace : List (Handshake × Actor)) : Prop := ∃ s, (s, .kill) ∈ trace

/-! ## What was written -/

section

variable (config : RunConfig) (env : Environment) (w₀ : World) (v : RunVars) (w₁ : World)

/-- What the daemon has written, if its start ends in `v` and `w₁`. -/
inductive DaemonWrote (killed : Prop) : DaemonPc → List Int32 → Prop
  | starting : DaemonWrote killed (.starting w₀) []
  | started : DaemonWrote killed (.started v w₁) []
  | pausing (hret : v.ret = 0) :
      DaemonWrote killed (.pausing v { w₁ with written := w₁.written ++ [v.ret] }) [v.ret]
  | cleaning : DaemonWrote killed (.cleaning v { w₁ with written := w₁.written ++ [v.ret] }) [v.ret]
  | stopped {w : World} (hstop : (propdStop config env v).run
      { w₁ with written := w₁.written ++ [v.ret] } = .ok ((), w)) :
      DaemonWrote killed (.stopped v w) [v.ret]
  | exited {w : World} (hret : v.ret = 0) (hstop : (propdStop config env v).run
      { w₁ with written := w₁.written ++ [v.ret] } = .ok ((), w)) :
      DaemonWrote killed (.exited v w) [v.ret]
  | failed {w : World} (hret : v.ret ≠ 0) (hstop : (propdStop config env v).run
      { w₁ with written := w₁.written ++ [v.ret] } = .ok ((), w)) :
      DaemonWrote killed (.exited v { w with written := w.written ++ [v.ret] }) [v.ret, v.ret]
  | killed {sent : List Int32} (hsent : sent = [] ∨ sent = [v.ret]) (h : killed) :
      DaemonWrote killed .killed sent
  | faulted {e : Misuse ⊕ Fault} (hstop : (propdStop config env v).run
      { w₁ with written := w₁.written ++ [v.ret] } = .error e) :
      DaemonWrote killed .killed [v.ret]

/-- What the child and the daemon have written. -/
inductive Wrote (killed : Prop) : ChildPc → DaemonPc → List Int32 → Prop
  | before {child : ChildPc} (hchild : child = .absent ∨ child = .closing ∨ child = .forking) :
      Wrote killed child .absent []
  | failing {e : Errno} {n left : ℕ} (hn : n + left = 2) :
      Wrote killed (.failing e left) .absent (List.replicate n e.1)
  | failed {e : Errno} {child : ChildPc} (hchild : child = .leaving ∨ child = .gone) :
      Wrote killed child .absent [e.1, e.1]
  | killed {sent : List Int32} (h : killed) : Wrote killed .killed .absent sent
  | daemon {child : ChildPc} {daemon : DaemonPc} {sent : List Int32}
      (hchild : child = .leaving ∨ child = .gone ∨ child = .killed)
      (hdaemon : DaemonWrote config env w₀ v w₁ killed daemon sent) :
      Wrote killed child daemon sent

end

/-- What the caller has read, and what it still can read. -/
inductive CallerRead (killed : Prop) (s : Handshake) : CallerPc → Prop
  | piping (hchild : s.child = .absent) (htaken : s.taken = 0) : CallerRead killed s .piping
  | forking (hchild : s.child = .absent) (htaken : s.taken = 0) : CallerRead killed s .forking
  | closing (hchild : s.child ≠ .absent) (htaken : s.taken = 0) : CallerRead killed s .closing
  | reading (hchild : s.child ≠ .absent) (htaken : s.taken = 0) : CallerRead killed s .reading
  | rereading {ret : Int32} (hret : ret ≠ 0) (hchild : s.child ≠ .absent) (htaken : s.taken = 1)
      (hsent : s.sent[0]? = some ret) : CallerRead killed s (.rereading ret)
  | failed (hchild : s.child = .absent) : CallerRead killed s (.returned (-1))
  | zero (hchild : s.child ≠ .absent) (hsent : s.sent[0]? = some 0) :
      CallerRead killed s (.returned 0)
  | ended (hchild : s.child ≠ .absent) (hsent : s.sent = []) (hend : s.writable = false) :
      CallerRead killed s (.returned 0)
  | status {ret : Int32} (hret : ret ≠ 0) (hmem : ret ∈ s.sent)
      (hend : 2 ≤ s.sent.length ∨ s.writable = false) : CallerRead killed s (.returned ret)
  | lost (h : killed) : CallerRead killed s (.returned 0)
  | killed (h : killed) : CallerRead killed s .killed

section

variable {config : RunConfig} {env : Environment} {w₀ w w₁ : World} {v v' : RunVars}
  {killed killed' : Prop} {child : ChildPc} {daemon : DaemonPc} {sent : List Int32} {e : Errno}
  {s s' : Handshake} {a : Actor}

theorem DaemonWrote.mono (h : DaemonWrote config env w₀ v w₁ killed daemon sent)
    (hk : killed → killed') : DaemonWrote config env w₀ v w₁ killed' daemon sent := by
  cases h with
  | starting => exact .starting
  | started => exact .started
  | pausing hret => exact .pausing hret
  | cleaning => exact .cleaning
  | stopped hstop => exact .stopped hstop
  | exited hret hstop => exact .exited hret hstop
  | failed hret hstop => exact .failed hret hstop
  | killed hsent h => exact .killed hsent (hk h)
  | faulted hstop => exact .faulted hstop

/-- Who is killed has not written twice. -/
theorem DaemonWrote.kill (h : DaemonWrote config env w₀ v w₁ killed daemon sent)
    (halive : daemon.alive = true) (hk : killed') :
    DaemonWrote config env w₀ v w₁ killed' .killed sent := by
  cases h with
  | starting | started => exact .killed (.inl rfl) hk
  | pausing | cleaning | stopped => exact .killed (.inr rfl) hk
  | exited | failed | killed | faulted => cases halive

/-- The first status that a daemon writes is that of its start. -/
theorem DaemonWrote.first (h : DaemonWrote config env w₀ v w₁ killed daemon sent) {x : Int32}
    (hx : sent[0]? = some x) : x = v.ret := by
  cases h with
  | starting | started => simp at hx
  | pausing | cleaning | stopped | exited | failed | faulted => exact (Option.some.inj hx).symm
  | killed hsent =>
    rcases hsent with rfl | rfl
    · simp at hx
    · exact (Option.some.inj hx).symm

namespace Wrote

theorem mono (h : Wrote config env w₀ v w₁ killed child daemon sent) (hk : killed → killed') :
    Wrote config env w₀ v w₁ killed' child daemon sent := by
  cases h with
  | before hchild => exact .before hchild
  | failing hn => exact .failing hn
  | failed hchild => exact .failed hchild
  | killed h => exact .killed (hk h)
  | daemon hchild hdaemon => exact .daemon hchild (hdaemon.mono hk)

theorem of_before (h : Wrote config env w₀ v w₁ killed child daemon sent)
    (hchild : child = .absent ∨ child = .closing ∨ child = .forking) :
    daemon = .absent ∧ sent = [] := by
  cases h with
  | before => exact ⟨rfl, rfl⟩
  | failing => simp at hchild
  | failed hgone => rcases hgone with rfl | rfl <;> simp at hchild
  | killed => simp at hchild
  | daemon hgone => rcases hgone with rfl | rfl | rfl <;> simp at hchild

theorem of_failing {left : ℕ}
    (h : Wrote config env w₀ v w₁ killed (.failing e left) daemon sent) :
    daemon = .absent ∧ ∃ n, n + left = 2 ∧ sent = List.replicate n e.1 := by
  cases h with
  | before hchild => simp at hchild
  | failing hn => exact ⟨rfl, _, hn, rfl⟩
  | failed hgone => simp at hgone
  | daemon hgone => simp at hgone

theorem leave (h : Wrote config env w₀ v w₁ killed .leaving daemon sent) :
    Wrote config env w₀ v w₁ killed .gone daemon sent := by
  cases h with
  | before hchild => simp at hchild
  | failed => exact .failed (.inr rfl)
  | daemon _ hdaemon => exact .daemon (.inr (.inl rfl)) hdaemon

theorem killChild (h : Wrote config env w₀ v w₁ killed child daemon sent) (hk : killed) :
    Wrote config env w₀ v w₁ killed .killed daemon sent := by
  cases h with
  | before | failing | failed | killed => exact .killed hk
  | daemon _ hdaemon => exact .daemon (.inr (.inr rfl)) hdaemon

theorem of_daemon (h : Wrote config env w₀ v w₁ killed child daemon sent)
    (hdaemon : daemon ≠ .absent) :
    (child = .leaving ∨ child = .gone ∨ child = .killed) ∧
      DaemonWrote config env w₀ v w₁ killed daemon sent := by
  cases h with
  | before | failing | failed | killed => exact absurd rfl hdaemon
  | daemon hchild h => exact ⟨hchild, h⟩

/-- Only what went wrong is written a second time. -/
theorem second_ne_zero (h : Wrote config env w₀ v w₁ killed child daemon sent) {x : Int32}
    (hx : sent[1]? = some x) : x ≠ 0 ∨ killed := by
  cases h with
  | before => simp at hx
  | @failing e => exact .inl (List.eq_of_mem_replicate (List.mem_of_getElem? hx) ▸ e.2)
  | @failed e =>
    cases hx
    exact .inl e.2
  | killed h => exact .inr h
  | daemon _ hdaemon =>
    cases hdaemon with
    | failed hret =>
      cases hx
      exact .inl hret
    | killed _ h => exact .inr h
    | starting | started | pausing | cleaning | stopped | exited | faulted => simp at hx

/-- What was written belongs to the child if there is no daemon. If nothing more comes, the daemon
has returned, or ended before. -/
theorem of_mem (h : Wrote config env w₀ v w₁ killed child daemon sent) {ret : Int32}
    (hmem : ret ∈ sent)
    (hend : 2 ≤ sent.length ∨ child.alive = false ∧ daemon.alive = false) (hret : ret ≠ 0) :
    daemon = .absent ∨ ret = v.ret ∧
      ((∃ w, daemon = .exited v { w with written := w.written ++ [v.ret] } ∧
        (propdStop config env v).run { w₁ with written := w₁.written ++ [v.ret] } = .ok ((), w)) ∨
        daemon = .killed ∧ (killed ∨ ∃ e, (propdStop config env v).run
          { w₁ with written := w₁.written ++ [v.ret] } = .error e)) := by
  cases h with
  | before | failing | failed | killed => exact .inl rfl
  | daemon _ hdaemon =>
    refine .inr ?_
    cases hdaemon with
    | starting | started => simp at hmem
    | pausing | cleaning | stopped => simp [DaemonPc.alive] at hend
    | exited hzero =>
      rw [List.mem_singleton, hzero] at hmem
      exact absurd hmem hret
    | failed _ hstop =>
      have hmem : ret = v.ret := by simpa using hmem
      exact ⟨hmem, .inl ⟨_, rfl, hstop⟩⟩
    | killed hsent hk =>
      rcases hsent with rfl | rfl
      · simp at hmem
      · exact ⟨List.mem_singleton.mp hmem, .inr ⟨rfl, .inl hk⟩⟩
    | faulted hstop => exact ⟨List.mem_singleton.mp hmem, .inr ⟨rfl, .inr ⟨_, hstop⟩⟩⟩

theorem of_zero (h : Wrote config env w₀ v w₁ killed child daemon sent)
    (hsent : sent[0]? = some 0) : v.ret = 0 ∨ killed := by
  cases h with
  | before => simp at hsent
  | @failing e =>
    exact absurd (List.eq_of_mem_replicate (List.mem_of_getElem? hsent)).symm e.2
  | @failed e => exact absurd (Option.some.inj hsent) e.2
  | killed h => exact .inr h
  | daemon _ hdaemon =>
    cases hdaemon with
    | starting | started => simp at hsent
    | pausing | cleaning | stopped | exited | failed | faulted => exact .inl (Option.some.inj hsent)
    | killed _ h => exact .inr h

theorem of_ended (h : Wrote config env w₀ v w₁ killed child daemon [])
    (hchild : child ≠ .absent) (hend : child.alive = false ∧ daemon.alive = false) : killed := by
  generalize hsent : ([] : List Int32) = sent at h
  cases h with
  | before hbefore => rcases hbefore with rfl | rfl | rfl <;> simp [ChildPc.alive] at hchild hend
  | failing => simp [ChildPc.alive] at hend
  | failed => cases hsent
  | killed h => exact h
  | daemon _ hdaemon =>
    cases hdaemon with
    | starting | started | pausing | cleaning | stopped => simp [DaemonPc.alive] at hend
    | exited | failed | faulted => cases hsent
    | killed _ h => exact h

end Wrote

theorem CallerRead.mono {pc : CallerPc} (h : CallerRead killed s pc) (hk : killed → killed') :
    CallerRead killed' s pc := by
  cases h with
  | piping hchild htaken => exact .piping hchild htaken
  | forking hchild htaken => exact .forking hchild htaken
  | closing hchild htaken => exact .closing hchild htaken
  | reading hchild htaken => exact .reading hchild htaken
  | rereading hret hchild htaken hsent => exact .rereading hret hchild htaken hsent
  | failed hchild => exact .failed hchild
  | zero hchild hsent => exact .zero hchild hsent
  | ended hchild hsent hend => exact .ended hchild hsent hend
  | status hret hmem hend => exact .status hret hmem hend
  | lost h => exact .lost (hk h)
  | killed h => exact .killed (hk h)

/-- What the others do does not change what the caller has read. -/
theorem CallerRead.others {pc : CallerPc} (h : CallerRead killed s pc)
    (hwritable : s.writable = true) (hchild : s.child ≠ .absent) (hchild' : s'.child ≠ .absent)
    (htaken : s'.taken = s.taken) (hsent : s.sent <+: s'.sent) : CallerRead killed s' pc := by
  have hfirst : ∀ {x : Int32}, s.sent[0]? = some x → s'.sent[0]? = some x := by
    intro x hx
    obtain ⟨more, hmore⟩ := hsent
    rw [← hmore, List.getElem?_append_left (List.getElem?_eq_some_iff.mp hx).1, hx]
  cases h with
  | piping habsent | forking habsent | failed habsent => exact absurd habsent hchild
  | closing _ h => exact .closing hchild' (htaken.trans h)
  | reading _ h => exact .reading hchild' (htaken.trans h)
  | rereading hret _ h hx => exact .rereading hret hchild' (htaken.trans h) (hfirst hx)
  | zero _ hx => exact .zero hchild' (hfirst hx)
  | ended _ _ hend => simp [hwritable] at hend
  | status hret hmem hend =>
    refine .status hret (hsent.subset hmem) (.inl ?_)
    have hlength := hsent.length_le
    have htwo := hend.resolve_right (by simp [hwritable])
    omega
  | lost h => exact .lost h
  | killed h => exact .killed h

/-- Nobody can read what the caller has not waited for, so the caller was killed. -/
theorem CallerRead.killed_of_unreadable (h : CallerRead killed s s.caller)
    (hread : s.readable = false) (hwritable : s.writable = true) (hchild : s.child ≠ .absent)
    (hlength : s.sent.length < 2) (hzero : s.sent[0]? ≠ some 0) : killed := by
  simp only [Handshake.readable, Bool.or_eq_false_iff] at hread
  generalize s.caller = pc at h hread
  cases h with
  | piping habsent | failed habsent => exact absurd habsent hchild
  | forking | closing | reading | rereading => simp at hread
  | zero _ hx => exact absurd hx hzero
  | ended _ _ hend => simp [hwritable] at hend
  | status _ _ hend =>
    rcases hend with hend | hend
    · omega
    · simp [hwritable] at hend
  | lost h | killed h => exact h

/-- The invariant of the three processes. -/
structure Hands (config : RunConfig) (env : Environment) (w₀ : World) (v : RunVars) (w₁ : World)
    (killed : Prop) (s : Handshake) : Prop where
  wrote : Wrote config env w₀ v w₁ killed s.child s.daemon s.sent
  read : CallerRead killed s s.caller

namespace Hands

variable {sent' : List Int32} {child' : ChildPc} {daemon' : DaemonPc}

theorem child_ne_absent (h : Hands config env w₀ v w₁ killed s) (hd : s.daemon ≠ .absent) :
    s.child ≠ .absent := by
  obtain ⟨hchild, -⟩ := h.wrote.of_daemon hd
  rcases hchild with hc | hc | hc <;> simp [hc]

theorem child_step (h : Hands config env w₀ v w₁ killed s)
    (halive : s.child.alive = true) (hchild : child' ≠ .absent)
    (hsent : s.sent <+: sent') (hw : Wrote config env w₀ v w₁ killed child' daemon' sent') :
    Hands config env w₀ v w₁ killed
      { s with child := child', daemon := daemon', sent := sent' } := by
  have habsent : s.child ≠ .absent := by
    intro hc
    simp [hc, ChildPc.alive] at halive
  exact ⟨hw, h.read.others (by simp [Handshake.writable, halive]) habsent hchild rfl hsent⟩

theorem daemon_wrote (h : Hands config env w₀ v w₁ killed s) (hpc : s.daemon = daemon)
    (halive : daemon.alive = true) :
    DaemonWrote config env w₀ v w₁ killed daemon s.sent ∧ s.child ≠ .absent ∧
      s.writable = true := by
  have hdaemon : s.daemon ≠ .absent := by
    intro habsent
    simp [← hpc, habsent, DaemonPc.alive] at halive
  exact ⟨hpc ▸ (h.wrote.of_daemon hdaemon).2, h.child_ne_absent hdaemon,
    by simp [Handshake.writable, hpc, halive]⟩

theorem daemon_write (h : Hands config env w₀ v w₁ killed s)
    (hpc : s.daemon = daemon) (halive : daemon.alive = true) (more : List Int32)
    (hd : ∀ sent, DaemonWrote config env w₀ v w₁ killed daemon sent →
      DaemonWrote config env w₀ v w₁ killed daemon' (sent ++ more)) :
    Hands config env w₀ v w₁ killed { s with daemon := daemon', sent := s.sent ++ more } := by
  obtain ⟨hwrote, hchild, hwritable⟩ := h.daemon_wrote hpc halive
  have hdaemon : s.daemon ≠ .absent := by
    intro habsent
    simp [← hpc, habsent, DaemonPc.alive] at halive
  exact ⟨.daemon (h.wrote.of_daemon hdaemon).1 (hd _ hwrote),
    h.read.others hwritable hchild hchild rfl (List.prefix_append ..)⟩

theorem daemon_step (h : Hands config env w₀ v w₁ killed s)
    (hpc : s.daemon = daemon) (halive : daemon.alive = true)
    (hd : ∀ sent, DaemonWrote config env w₀ v w₁ killed daemon sent →
      DaemonWrote config env w₀ v w₁ killed daemon' sent) :
    Hands config env w₀ v w₁ killed { s with daemon := daemon' } := by
  have hwrite : Hands config env w₀ v w₁ killed
      { s with daemon := daemon', sent := s.sent ++ [] } :=
    h.daemon_write hpc halive [] (by simpa using hd)
  simpa using hwrite

/-- A signal for a write that nobody can read comes after a kill only. -/
theorem killed_of_child (h : Hands config env w₀ v w₁ killed s) {left : ℕ}
    (hpc : s.child = .failing e (left + 1)) (hread : s.readable = false) : killed := by
  obtain ⟨-, n, hn, hsent⟩ := (hpc ▸ h.wrote).of_failing
  refine h.read.killed_of_unreadable hread (by simp [Handshake.writable, hpc, ChildPc.alive])
    (by simp [hpc]) ?_ ?_
  · simp only [hsent, List.length_replicate]
    omega
  · rw [hsent]
    intro hzero
    exact e.2 (List.eq_of_mem_replicate (List.mem_of_getElem? hzero)).symm

theorem killed_of_daemon (h : Hands config env w₀ v w₁ killed s) (hpc : s.daemon = daemon)
    (halive : daemon.alive = true) (hread : s.readable = false)
    (hd : ∀ sent, DaemonWrote config env w₀ v w₁ killed daemon sent →
      sent = [] ∨ sent = [v.ret] ∧ v.ret ≠ 0) : killed := by
  obtain ⟨hwrote, hchild, hwritable⟩ := h.daemon_wrote hpc halive
  refine h.read.killed_of_unreadable hread hwritable hchild ?_ ?_
  · rcases hd _ hwrote with hsent | ⟨hsent, -⟩ <;> simp [hsent]
  · rcases hd _ hwrote with hsent | ⟨hsent, hret⟩ <;> simp [*]

theorem caller_steps (h : Hands config env w₀ v w₁ killed s)
    (hs : HandshakeStep config env w₀ s .caller s') : Hands config env w₀ v w₁ killed s' := by
  obtain ⟨hw, hr⟩ := h
  cases hs with
  | pipe hpc =>
    rw [hpc] at hr
    cases hr with
    | piping hchild htaken => exact ⟨hw, .forking hchild htaken⟩
  | pipeFails hpc =>
    rw [hpc] at hr
    cases hr with
    | piping hchild => exact ⟨hw, .failed hchild⟩
  | fork hpc =>
    rw [hpc] at hr
    cases hr with
    | forking hchild htaken =>
      obtain ⟨hdaemon, hsent⟩ := hw.of_before (.inl hchild)
      refine ⟨?_, .closing (by simp) htaken⟩
      simp only [hdaemon, hsent]
      exact .before (.inr (.inl rfl))
  | forkFails hpc =>
    rw [hpc] at hr
    cases hr with
    | forking hchild => exact ⟨hw, .failed hchild⟩
  | close hpc =>
    rw [hpc] at hr
    cases hr with
    | closing hchild htaken => exact ⟨hw, .reading hchild htaken⟩
  | readZero hpc hread =>
    rw [hpc] at hr
    cases hr with
    | reading hchild htaken =>
      cases hread with
      | some hx => exact ⟨hw, .zero hchild (htaken ▸ hx)⟩
  | readStatus hpc hread hx =>
    rw [hpc] at hr
    cases hr with
    | reading hchild htaken =>
      cases hread with
      | some hsent => exact ⟨hw, .rereading hx hchild (by simp [htaken]) (htaken ▸ hsent)⟩
  | readEnd hpc hread =>
    rw [hpc] at hr
    cases hr with
    | reading hchild htaken =>
      cases hread with
      | none hnone hend =>
        rw [htaken, List.getElem?_eq_none_iff] at hnone
        refine ⟨hw, .ended hchild (List.length_eq_zero_iff.mp (Nat.le_zero.mp hnone)) ?_⟩
        simpa [Handshake.writable, hpc] using hend
  | @rereadStatus _ x hpc hread =>
    rw [hpc] at hr
    cases hr with
    | rereading _ _ htaken =>
      cases hread with
      | some hx =>
        rw [htaken] at hx
        have hlength := (List.getElem?_eq_some_iff.mp hx).1
        by_cases hzero : x = 0
        · subst hzero
          exact ⟨hw, .lost ((hw.second_ne_zero hx).resolve_left (absurd rfl))⟩
        · exact ⟨hw, .status hzero (List.mem_of_getElem? hx) (.inl hlength)⟩
  | rereadEnd hpc hread =>
    rw [hpc] at hr
    cases hr with
    | rereading hret hchild htaken hsent =>
      cases hread with
      | none _ hend =>
        refine ⟨hw, .status hret (List.mem_of_getElem? hsent) (.inr ?_)⟩
        simpa [Handshake.writable, hpc] using hend

theorem child_steps (h : Hands config env w₀ v w₁ killed s)
    (hs : HandshakeStep config env w₀ s .child s') : Hands config env w₀ v w₁ killed s' := by
  have hw := h.wrote
  cases hs with
  | childClose hpc =>
    rw [hpc] at hw
    obtain ⟨hdaemon, hsent⟩ := hw.of_before (.inr (.inl rfl))
    refine h.child_step (by simp [hpc, ChildPc.alive]) nofun List.prefix_rfl ?_
    simp only [hdaemon, hsent]
    exact .before (.inr (.inr rfl))
  | childFork hpc =>
    rw [hpc] at hw
    obtain ⟨-, hsent⟩ := hw.of_before (.inr (.inr rfl))
    refine h.child_step (by simp [hpc, ChildPc.alive]) nofun List.prefix_rfl ?_
    simp only [hsent]
    exact .daemon (.inl rfl) .starting
  | childForkFails hpc =>
    rw [hpc] at hw
    obtain ⟨hdaemon, hsent⟩ := hw.of_before (.inr (.inr rfl))
    refine h.child_step (by simp [hpc, ChildPc.alive]) nofun List.prefix_rfl ?_
    simp only [hdaemon, hsent]
    exact .failing (Nat.zero_add 2)
  | childWrite hpc =>
    rw [hpc] at hw
    obtain ⟨hdaemon, n, hn, hsent⟩ := hw.of_failing
    refine h.child_step (by simp [hpc, ChildPc.alive]) nofun (List.prefix_append ..) ?_
    rw [hdaemon, hsent, ← List.replicate_succ']
    exact .failing (by omega)
  | childSignal hpc hread =>
    have hk := h.killed_of_child hpc hread
    exact h.child_step (by simp [hpc, ChildPc.alive]) nofun List.prefix_rfl (hw.killChild hk)
  | childFailed hpc =>
    rw [hpc] at hw
    obtain ⟨hdaemon, n, hn, hsent⟩ := hw.of_failing
    refine h.child_step (by simp [hpc, ChildPc.alive]) nofun List.prefix_rfl ?_
    obtain rfl : n = 2 := hn
    simp only [hdaemon, hsent]
    exact .failed (.inl rfl)
  | childLeave hpc =>
    rw [hpc] at hw
    exact h.child_step (by simp [hpc, ChildPc.alive]) nofun List.prefix_rfl hw.leave

theorem daemon_steps (hstart : (propdStart config env).run w₀ = .ok (v, w₁))
    (h : Hands config env w₀ v w₁ killed s)
    (hs : HandshakeStep config env w₀ s .daemon s') : Hands config env w₀ v w₁ killed s' := by
  cases hs with
  | start hpc hrun =>
    refine h.daemon_step hpc rfl fun sent hd => ?_
    cases hd with
    | starting =>
      cases hstart.symm.trans hrun
      exact .started
  | report hpc hret =>
    refine h.daemon_write hpc rfl _ fun sent hd => ?_
    cases hd with
    | started => exact .pausing hret
  | reportFailure hpc =>
    refine h.daemon_write hpc rfl _ fun sent hd => ?_
    cases hd with
    | started => exact .cleaning
  | reportSignal hpc hread =>
    have hk := h.killed_of_daemon hpc rfl hread fun sent hd => by
      cases hd with
      | started => exact .inl rfl
    exact h.daemon_step hpc rfl fun sent hd => hd.kill rfl hk
  | stop hpc hrun =>
    refine h.daemon_step hpc rfl fun sent hd => ?_
    cases hd with
    | cleaning => exact .stopped hrun
  | stopFault hpc hrun =>
    refine h.daemon_step hpc rfl fun sent hd => ?_
    cases hd with
    | cleaning => exact .faulted hrun
  | exit hpc hret =>
    refine h.daemon_step hpc rfl fun sent hd => ?_
    cases hd with
    | stopped hstop => exact .exited hret hstop
  | reportAgain hpc hret =>
    refine h.daemon_write hpc rfl _ fun sent hd => ?_
    cases hd with
    | stopped hstop => exact .failed hret hstop
  | reportAgainSignal hpc hret hread =>
    have hk := h.killed_of_daemon hpc rfl hread fun sent hd => by
      cases hd with
      | stopped => exact .inr ⟨rfl, hret⟩
    exact h.daemon_step hpc rfl fun sent hd => hd.kill rfl hk

theorem mono (h : Hands config env w₀ v w₁ killed s) (hk : killed → killed') :
    Hands config env w₀ v w₁ killed' s :=
  ⟨h.wrote.mono hk, h.read.mono hk⟩

/-- **The step lemma**; a kill is remembered. -/
theorem step (hstart : (propdStart config env).run w₀ = .ok (v, w₁))
    (h : Hands config env w₀ v w₁ killed s) (hs : HandshakeStep config env w₀ s a s') :
    Hands config env w₀ v w₁ (killed ∨ a = .kill) s' := by
  have h : Hands config env w₀ v w₁ (killed ∨ a = .kill) s := h.mono .inl
  cases a with
  | caller => exact h.caller_steps hs
  | child => exact h.child_steps hs
  | daemon => exact h.daemon_steps hstart hs
  | signal =>
    cases hs with
    | wake hpc =>
      refine h.daemon_step hpc rfl fun sent hd => ?_
      cases hd with
      | pausing => exact .cleaning
  | kill =>
    cases hs with
    | killCaller => exact ⟨h.wrote, .killed (.inr rfl)⟩
    | killChild hpc =>
      exact h.child_step hpc nofun List.prefix_rfl (h.wrote.killChild (.inr rfl))
    | killDaemon hpc =>
      exact h.daemon_step rfl hpc fun sent hd => hd.kill hpc (.inr rfl)

theorem run {trace : List (Handshake × Actor)}
    (hstart : (propdStart config env).run w₀ = .ok (v, w₁))
    (hpath : (handshakeSystem config env w₀).Path .init trace s) :
    Hands config env w₀ v w₁ (Killed trace) s := by
  refine hpath.invariant (I := fun trace s => Hands config env w₀ v w₁ (Killed trace) s)
    ⟨.before (.inl rfl), .piping rfl rfl⟩ ?_
  intro trace s a s' _ h hs
  refine (h.step hstart hs).mono ?_
  rintro (⟨s₀, hmem⟩ | rfl)
  · exact ⟨s₀, List.mem_append_left _ hmem⟩
  · exact ⟨s, List.mem_append_right _ (List.mem_singleton_self _)⟩

end Hands

theorem Handshake.not_alive (h : s.writable = false) :
    s.child.alive = false ∧ s.daemon.alive = false := by
  simp only [writable, Bool.or_eq_false_iff] at h
  exact ⟨h.1.2, h.2⟩

/-- **What `propd_run` returns**: a failure is its own, that of the second `fork`, or that of the
daemon. That one has given back by then what it has taken, unless it was killed or tasks have left
something in use. It returns `0` if the daemon has reported that the node is up, or somebody was
killed. -/
theorem propd_run_answers (h : w₀.Starts config) :
    ∃ v w₁, (propdStart config env).run w₀ = .ok (v, w₁) ∧
      ∀ trace s, (handshakeSystem config env w₀).Path .init trace s →
        ∀ ret, s.caller = .returned ret →
          (ret ≠ 0 → ret = -1 ∧ s.child = .absent ∨ s.daemon = .absent ∧ ret ∈ s.sent ∨
            ret = v.ret ∧ ((∃ w₂, s.daemon = .exited v w₂ ∧
              (propdRun config env true).run w₀ = .ok (v.ret, w₂) ∧
              w₂.live.Perm (v.remains config)) ∨
              s.daemon = .killed ∧ (Killed trace ∨ v.ioTid = true ∧ ¬env.Quiet config))) ∧
          (ret = 0 → v.ret = 0 ∧ v.Up config ∧ s.sent[0]? = some 0 ∨ Killed trace) := by
  obtain ⟨v, w₁, hstart, hacc, hup, hio⟩ := propdStart_spec env h
  have hstop := propdStop_run env hacc h.idle hio (w₁.written ++ [v.ret])
  refine ⟨v, w₁, hstart, fun trace s hpath ret hpc => ?_⟩
  obtain ⟨hw, hr⟩ := Hands.run hstart hpath
  rw [hpc] at hr
  cases hr with
  | failed hchild => exact ⟨fun _ => .inl ⟨rfl, hchild⟩, fun hzero => absurd hzero (by decide)⟩
  | zero _ hsent =>
    refine ⟨fun hret => absurd rfl hret, fun _ => ?_⟩
    exact (hw.of_zero hsent).imp_left fun hzero => ⟨hzero, hup hzero, hsent⟩
  | ended hchild hsent hend =>
    rw [hsent] at hw
    exact ⟨fun hret => absurd rfl hret, fun _ => .inr (hw.of_ended hchild (s.not_alive hend))⟩
  | lost hk => exact ⟨fun hret => absurd rfl hret, fun _ => .inr hk⟩
  | status hne hmem hend =>
    refine ⟨fun _ => .inr ?_, fun hzero => absurd hzero hne⟩
    rcases hw.of_mem hmem (hend.imp_right s.not_alive) hne with
      habsent | ⟨rfl, ⟨w, hdaemon, hrun⟩ | ⟨hdaemon, hk | ⟨e, hrun⟩⟩⟩
    · exact .inl ⟨habsent, hmem⟩
    · rcases hstop with ⟨-, w', hrun', hlive, -⟩ | ⟨-, -, hrun'⟩
      · cases hrun.symm.trans hrun'
        refine .inr ⟨rfl, .inl ⟨_, hdaemon, ?_, hlive⟩⟩
        have hfirst : (report true v.ret).run w₁ =
            .ok ((), { w₁ with written := w₁.written ++ [v.ret] }) := report_run true v.ret
        rw [propdRun, bind_run hstart, bind_run hfirst, bind_run hrun]
        simp [hne, report_run]
      · cases hrun.symm.trans hrun'
    · exact .inr ⟨rfl, .inr ⟨hdaemon, .inl hk⟩⟩
    · rcases hstop with ⟨-, w', hrun', -⟩ | ⟨hserver, hbusy, -⟩
      · cases hrun.symm.trans hrun'
      · exact .inr ⟨rfl, .inr ⟨hdaemon, .inr ⟨hserver, hbusy⟩⟩⟩

/-! ## Every run ends -/

def CallerPc.rank : CallerPc → ℕ
  | .piping => 5
  | .forking => 4
  | .closing => 3
  | .reading => 2
  | .rereading _ => 1
  | .returned _ | .killed => 0

def ChildPc.rank : ChildPc → ℕ
  | .absent | .closing => 8
  | .forking => 7
  | .failing _ left => left + 2
  | .leaving => 1
  | .gone | .killed => 0

def DaemonPc.rank : DaemonPc → ℕ
  | .starting _ => 5
  | .started _ _ => 4
  | .pausing _ _ => 3
  | .cleaning _ _ => 2
  | .stopped _ _ => 1
  | .absent | .exited _ _ | .killed => 0

/-- How many steps there can still be. -/
def Handshake.rank (s : Handshake) : ℕ := s.caller.rank + s.child.rank + s.daemon.rank

theorem CallerPc.rank_pos {pc : CallerPc} (h : pc.alive = true) : 0 < pc.rank := by
  cases pc <;> simp [alive, rank] at *

theorem ChildPc.rank_pos {pc : ChildPc} (h : pc.alive = true) : 0 < pc.rank := by
  cases pc <;> simp [alive, rank] at *

theorem DaemonPc.rank_pos {pc : DaemonPc} (h : pc.alive = true) : 0 < pc.rank := by
  cases pc <;> simp [alive, rank] at *

/-- Each step leaves fewer. -/
theorem Hands.rank_lt (h : Hands config env w₀ v w₁ killed s)
    (hs : HandshakeStep config env w₀ s a s') : s'.rank < s.rank := by
  cases hs with
  | fork hpc =>
    have hr := h.read
    rw [hpc] at hr
    cases hr with
    | forking hchild =>
      simp [Handshake.rank, CallerPc.rank, ChildPc.rank, hpc, hchild]
  | childFork hpc =>
    obtain ⟨hdaemon, -⟩ := h.wrote.of_before (.inr (.inr hpc))
    simp [Handshake.rank, ChildPc.rank, DaemonPc.rank, hpc, hdaemon]
  | killCaller hpc =>
    exact Nat.add_lt_add_right (Nat.add_lt_add_right (CallerPc.rank_pos hpc) _) _
  | killChild hpc => exact Nat.add_lt_add_right (Nat.add_lt_add_left (ChildPc.rank_pos hpc) _) _
  | killDaemon hpc => exact Nat.add_lt_add_left (DaemonPc.rank_pos hpc) _
  | _ => simp [Handshake.rank, CallerPc.rank, ChildPc.rank, DaemonPc.rank, *]

/-- A child that is there goes on. -/
theorem child_enabled (halive : s.child.alive = true) :
    ∃ s', HandshakeStep config env w₀ s .child s' := by
  cases hpc : s.child with
  | absent | gone | killed => simp [hpc, ChildPc.alive] at halive
  | closing => exact ⟨_, .childClose hpc⟩
  | forking => exact ⟨_, .childFork hpc⟩
  | failing e left =>
    cases left with
    | zero => exact ⟨_, .childFailed hpc⟩
    | succ left =>
      cases hread : s.readable with
      | true => exact ⟨_, .childWrite hpc hread⟩
      | false => exact ⟨_, .childSignal hpc hread⟩
  | leaving => exact ⟨_, .childLeave hpc⟩

/-- A daemon that has not yet reported, or whose start has failed, goes on. -/
theorem Hands.daemon_enabled (h : Hands config env w₀ v w₁ killed s)
    (hstart : (propdStart config env).run w₀ = .ok (v, w₁)) (halive : s.daemon.alive = true)
    (hsent : s.sent = [] ∨ v.ret ≠ 0) : ∃ s', HandshakeStep config env w₀ s .daemon s' := by
  obtain ⟨hd, -⟩ := h.daemon_wrote rfl halive
  cases hpc : s.daemon with
  | absent | exited | killed => simp [hpc, DaemonPc.alive] at halive
  | starting w =>
    rw [hpc] at hd
    generalize s.sent = sent at hd
    cases hd
    exact ⟨_, .start hpc hstart⟩
  | started v' w =>
    cases hread : s.readable with
    | true =>
      by_cases hret : v'.ret = 0
      · exact ⟨_, .report hpc hret hread⟩
      · exact ⟨_, .reportFailure hpc hret hread⟩
    | false => exact ⟨_, .reportSignal hpc hread⟩
  | pausing v' w =>
    -- a daemon that waits for a signal has reported `0`
    rw [hpc] at hd
    generalize s.sent = sent at hd hsent
    cases hd with
    | pausing hret => exact (hsent.resolve_left (List.cons_ne_nil _ _) hret).elim
  | cleaning v' w =>
    cases hrun : (propdStop config env v').run w with
    | ok r => exact ⟨_, .stop hpc hrun⟩
    | error e => exact ⟨_, .stopFault hpc hrun⟩
  | stopped v' w =>
    by_cases hret : v'.ret = 0
    · exact ⟨_, .exit hpc hret⟩
    · cases hread : s.readable with
      | true => exact ⟨_, .reportAgain hpc hret hread⟩
      | false => exact ⟨_, .reportAgainSignal hpc hret hread⟩

/-- Who may still write goes on, as long as no success was reported. -/
theorem Hands.writer_enabled (h : Hands config env w₀ v w₁ killed s)
    (hstart : (propdStart config env).run w₀ = .ok (v, w₁))
    (halive : s.child.alive = true ∨ s.daemon.alive = true)
    (hsent : ∀ x, s.sent[0]? = some x → x ≠ 0) :
    ∃ a s', (a = .caller ∨ a = .child ∨ a = .daemon) ∧ HandshakeStep config env w₀ s a s' := by
  rcases halive with hchild | hdaemon
  · obtain ⟨s', hs⟩ := child_enabled hchild
    exact ⟨.child, s', .inr (.inl rfl), hs⟩
  · have hfirst : s.sent = [] ∨ v.ret ≠ 0 := by
      cases hx : s.sent[0]? with
      | none => exact .inl (by simpa using hx)
      | some x => exact .inr ((h.daemon_wrote rfl hdaemon).1.first hx ▸ hsent x hx)
    obtain ⟨s', hs⟩ := h.daemon_enabled hstart hdaemon hfirst
    exact ⟨.daemon, s', .inr (.inr rfl), hs⟩

/-- A read gets something, or somebody may still write. -/
theorem Handshake.reads_or_writable (s : Handshake) :
    (∃ x, s.Reads x) ∨ s.sent[s.taken]? = none ∧ s.writable = true := by
  cases hx : s.sent[s.taken]? with
  | some x => exact .inl ⟨some x, .some hx⟩
  | none =>
    cases hwritable : s.writable with
    | false => exact .inl ⟨none, .none hx hwritable⟩
    | true => exact .inr ⟨rfl, rfl⟩

/-- **Progress**: as long as the caller has not returned, somebody goes on. -/
theorem Hands.enabled (h : Hands config env w₀ v w₁ killed s)
    (hstart : (propdStart config env).run w₀ = .ok (v, w₁)) (halive : s.caller.alive = true) :
    ∃ a s', (a = .caller ∨ a = .child ∨ a = .daemon) ∧ HandshakeStep config env w₀ s a s' := by
  have hr := h.read
  cases hpc : s.caller with
  | piping => exact ⟨.caller, _, .inl rfl, .pipe hpc⟩
  | forking => exact ⟨.caller, _, .inl rfl, .fork hpc⟩
  | closing => exact ⟨.caller, _, .inl rfl, .close hpc⟩
  | reading =>
    rcases s.reads_or_writable with ⟨_ | x, hread⟩ | ⟨hnone, hwritable⟩
    · exact ⟨.caller, _, .inl rfl, .readEnd hpc hread⟩
    · by_cases hzero : x = 0
      · exact ⟨.caller, _, .inl rfl, .readZero hpc (hzero ▸ hread)⟩
      · exact ⟨.caller, _, .inl rfl, .readStatus hpc hread hzero⟩
    · -- nothing was written yet
      rw [hpc] at hr
      cases hr with
      | reading _ htaken =>
        rw [htaken] at hnone
        exact h.writer_enabled hstart (by simpa [Handshake.writable, hpc] using hwritable)
          (by simp [hnone])
  | rereading ret =>
    rcases s.reads_or_writable with ⟨_ | x, hread⟩ | ⟨-, hwritable⟩
    · exact ⟨.caller, _, .inl rfl, .rereadEnd hpc hread⟩
    · exact ⟨.caller, _, .inl rfl, .rereadStatus hpc hread⟩
    · -- what was written is the failure that the caller has read
      rw [hpc] at hr
      cases hr with
      | rereading hret _ _ hsent =>
        exact h.writer_enabled hstart (by simpa [Handshake.writable, hpc] using hwritable)
          (by simp [hsent, hret])
  | returned | killed => simp [hpc, CallerPc.alive] at halive

/-- **`propd_run` returns**: no run of the three has more than 13 steps, and as long as the caller has
not returned, one of them can go on, without a signal to the node. -/
theorem propd_run_returns (h : w₀.Starts config) {trace : List (Handshake × Actor)}
    (hpath : (handshakeSystem config env w₀).Path .init trace s) :
    trace.length ≤ 13 ∧ (s.caller.alive = true →
      ∃ a s', (a = .caller ∨ a = .child ∨ a = .daemon) ∧ HandshakeStep config env w₀ s a s') := by
  obtain ⟨v, w₁, hstart, -⟩ := propdStart_spec env h
  refine ⟨?_, (Hands.run hstart hpath).enabled hstart⟩
  have hrank : trace.length + s.rank ≤ 13 := by
    refine hpath.invariant (I := fun trace s => trace.length + s.rank ≤ 13) (by decide) ?_
    intro trace s a s' hpath hle hs
    have hlt := (Hands.run hstart hpath).rank_lt hs
    rw [List.length_append, List.length_singleton]
    omega
  omega

end

end Propd.Launch
