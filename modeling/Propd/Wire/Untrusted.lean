import Propd.Core.Storage
import Propd.Wire.Worker

/-!
# Values from an untrusted client

The worker of the io server against a client that may send any bytes at all. The worker
takes the type and the length of a value from the package as they are: `set` compares the
length with what `recv` returned, and nothing compares it with the type. So the values it
hands on to `io_set`, and with it to `storage_set` and `value_fmt`, are well formed exactly
as long as the client sends well formed ones.
-/

namespace Propd

open Lib

/-- The client sends bytes, or the worker takes a step. -/
inductive ServerAction
  | feed (bytes : List UInt8)
  | worker (a : WorkerAction)

/-- One step of a worker and its client. -/
def serverStep (w : Worker) : ServerAction → Option (Except Fault Worker)
  | .feed bytes => some (.ok { w with inbox := w.inbox ++ bytes })
  | .worker a => workerStep w a

/-- A worker against any client. -/
def serverSystem : LTS Worker ServerAction :=
  LTS.ofSteps (· = Worker.start) serverStep

/-- The value a decoded request hands on to `io_set`. -/
def Decoded.value : Decoded → Option Value
  | .request r => r.req.value
  | _ => none

/-- The values the worker has handed on. -/
def Worker.handedOn (w : Worker) : List Value :=
  w.decoded.filterMap Decoded.value

/-- A value the rest of the program is safe with: it is well formed, a conversion copies the
whole of its destination and no more, and `storage_set` logs it without a fault. -/
structure SafeValue (v : Value) : Prop where
  wellFormed : v.WellFormed
  valueTo : ∀ typ size, typ.scalarSize = some size → v.type = typ → v.valueTo typ size = .ok v.data
  logged : ∀ (α : Type) (storage : StorageCtx) (call : ℕ → Except Fault α) (deny : Errno → α),
    storage.hasSet = true → storageSet storage v call deny = call storage.priv

/-- A head and the data behind it: the length is the one the type asks for, and a string
ends within the data. -/
def ValueHead.Matches (head : ValueHead) (data : List UInt8) : Prop :=
  (∀ size ∈ head.type.scalarSize, head.length.toNat = size) ∧
    (head.type = ValueType.cstring → (0 : UInt8) ∈ data)

/-- The condition on a step: where the `recv` of `set` returns the data in full, the head that
came in the package matches it. -/
def Worker.receivesMatching (w : Worker) : ServerAction → Prop
  | .worker (.recv n _ _) =>
    ∀ key head, w.pc = .data key head → n = head.length.toNat → head.Matches (w.inbox.take n)
  | _ => True

theorem Value.WellFormed.safe {v : Value} (h : v.WellFormed) : SafeValue v where
  wellFormed := h
  valueTo := by
    rintro typ size hsize rfl
    exact (valueTo_ok rfl).mpr (h.1 size hsize)
  logged _ _ _ _ hset := storageSet_wellFormed hset h

theorem safeValue_iff {v : Value} : SafeValue v ↔ v.WellFormed :=
  ⟨SafeValue.wellFormed, Value.WellFormed.safe⟩

/-- What `set` makes of a head and its data is safe exactly where they match. -/
theorem serverSet_safe {head : ValueHead} {data : List UInt8} {v : Value}
    (h : serverSet head data = .ok v) : SafeValue v ↔ head.Matches data := by
  obtain ⟨htype, hdata, hlen⟩ := serverSet_ok h
  rw [safeValue_iff, Value.WellFormed, ValueHead.Matches, Value.length, htype, hdata, hlen]

/-- A step hands on at most one value, and this one is safe exactly where the step meets the
condition. -/
theorem serverStep_handedOn {w w' : Worker} {a : ServerAction} (h : serverStep w a = some (.ok w')) :
    ∃ new, w'.handedOn = w.handedOn ++ new ∧
      ((∀ v ∈ new, SafeValue v) ↔ w.receivesMatching a) := by
  -- a step that hands nothing on
  have hquiet : w'.handedOn = w.handedOn → w.receivesMatching a →
      ∃ new, w'.handedOn = w.handedOn ++ new ∧
        ((∀ v ∈ new, SafeValue v) ↔ w.receivesMatching a) :=
    fun hsame hmatch => ⟨[], by rw [hsame, List.append_nil], iff_of_true nofun hmatch⟩
  have hnone : ∀ d : Decoded, d.value = none → w'.decoded = w.decoded ++ [d] →
      w'.handedOn = w.handedOn := by
    intro d hd hdec
    rw [Worker.handedOn, hdec, List.filterMap_append]
    simp [hd, Worker.handedOn]
  -- a step at another place than the data of a set
  have helse : ∀ {n stale alloc}, (∀ key head, w.pc ≠ .data key head) →
      w.receivesMatching (.worker (.recv n stale alloc)) :=
    fun hpc key head hdata => absurd hdata (hpc key head)
  cases a with
  | feed bytes =>
    cases h
    exact hquiet rfl trivial
  | worker a =>
    have hs := workerStep_ok h
    cases hs with
    | @request n stale alloc req key hpc _ _ _ hreq =>
      exact hquiet (hnone (.request ⟨req, key⟩) hreq rfl) (helse (by rw [hpc]; nofun))
    | setHead hpc => exact hquiet rfl (helse (by rw [hpc]; nofun))
    | setNoMemory hpc => exact hquiet (hnone _ rfl rfl) (helse (by rw [hpc]; nofun))
    | unknown hpc => exact hquiet (hnone _ rfl rfl) (helse (by rw [hpc]; nofun))
    | discardMore hpc => exact hquiet rfl (helse (by rw [hpc]; nofun))
    | discardEnd hpc => exact hquiet rfl (helse (by rw [hpc]; nofun))
    | @answered r ret hpc hfits =>
      refine hquiet ?_ trivial
      unfold Worker.answer
      split <;> rfl
    | sentValue hpc => exact hquiet rfl trivial
    | sentResult hpc => exact hquiet rfl trivial
    | @setShort n stale alloc key head hpc hrecv hset =>
      refine hquiet (hnone _ rfl rfl) fun key' head' hdata hn => ?_
      cases hpc.symm.trans hdata
      have hlen := (serverSet_error hset).2
      rw [List.length_take_of_le (recvOk_le hrecv)] at hlen
      exact absurd hn hlen
    | @setValue n stale alloc key head value hpc hrecv hset =>
      refine ⟨[value], ?_, ?_⟩
      · rw [Worker.handedOn, List.filterMap_append]
        rfl
      · rw [List.forall_mem_singleton, serverSet_safe hset]
        have hn : n = head.length.toNat := by
          have hlen := (serverSet_ok hset).2.2
          rwa [List.length_take_of_le (recvOk_le hrecv)] at hlen
        constructor
        · intro hmatch key' head' hdata _
          cases hpc.symm.trans hdata
          exact hmatch
        · intro hmatch
          exact hmatch key head hpc hn

/-- **The values a worker hands on**: along every run, against any client, they are all safe if
and only if every set request that came in full had a length that fits its type byte and,
for a string, a NUL in its data. -/
theorem server_handsOn_safe {w : Worker} {tr : List (Worker × ServerAction)}
    (h : serverSystem.Path Worker.start tr w) :
    (∀ v ∈ w.handedOn, SafeValue v) ↔ ∀ x ∈ tr, x.1.receivesMatching x.2 := by
  refine h.invariant (I := fun tr w =>
    (∀ v ∈ w.handedOn, SafeValue v) ↔ ∀ x ∈ tr, x.1.receivesMatching x.2) ?_ ?_
  · exact iff_of_true nofun nofun
  · intro tr w a w' _ ih hs
    obtain ⟨new, hnew, hiff⟩ := serverStep_handedOn hs
    rw [hnew, List.forall_mem_append, List.forall_mem_append, ih, hiff, List.forall_mem_singleton]

/-- A set of `exampleKey` as a client may write it: any type, any length, any data. -/
def exampleSet (head : ValueHead) (data : List UInt8) : List UInt8 :=
  byteCode.encode IoType.set ++ (int64Code.encode 0 ++
    (strncpy exampleKey NAME_MAX ++ valueHeadCode.encode head)) ++ data

/-- The client sends a set, and the worker reads it in full. -/
def exampleServe (head : ValueHead) (data : List UInt8) : List ServerAction :=
  [.feed (exampleSet head data), .worker (.recv 269 (List.replicate 269 0) true),
    .worker (.recv data.length [] true)]

/-- A `u32` of four bytes is handed on and safe. -/
theorem server_handsOn_safe_u32 :
    ∃ (w : Worker) (tr : List (Worker × ServerAction)), serverSystem.Path Worker.start tr w ∧
      w.handedOn = [exampleValue] ∧ ∀ x ∈ tr, x.1.receivesMatching x.2 := by
  obtain ⟨w, hrun, hhanded⟩ : ∃ w,
      LTS.exec (LTS.stepsOk serverStep) Worker.start
        (exampleServe ⟨ValueType.u32, 4⟩ [1, 0, 0, 0]) = some w ∧
      w.handedOn = [exampleValue] := by
    refine Option.map_eq_some_iff.mp ?_
    decide +kernel
  obtain ⟨tr, hpath, -⟩ := LTS.exec_path (M := serverSystem)
    (fun _ _ _ => LTS.stepsOk_eq_some) hrun
  refine ⟨w, tr, hpath, hhanded, (server_handsOn_safe hpath).mp fun v hv => ?_⟩
  rw [hhanded, List.mem_singleton] at hv
  subst hv
  exact Value.WellFormed.safe (by decide)

/-- An `i32` of 100 bytes is handed on as it is: `value_fmt` would copy them into an `int`. -/
theorem server_handsOn_i32 :
    ∃ w : Worker, serverSystem.Reachable w ∧ ∃ v, w.handedOn = [v] ∧
      v.type = ValueType.i32 ∧ v.length = 100 ∧ ¬ v.WellFormed ∧
      v.valueFmt = .error .outOfBounds := by
  obtain ⟨w, hrun, hhanded⟩ : ∃ w,
      LTS.exec (LTS.stepsOk serverStep) Worker.start
        (exampleServe ⟨ValueType.i32, 100⟩ (List.replicate 100 0)) = some w ∧
      w.handedOn = [⟨ValueType.i32, List.replicate 100 0, by decide⟩] := by
    refine Option.map_eq_some_iff.mp ?_
    decide +kernel
  exact ⟨w, LTS.exec_reachable (M := serverSystem) (fun _ _ _ => LTS.stepsOk_eq_some) rfl hrun,
    _, hhanded, by decide, by decide, by decide, by decide⟩

end Propd
