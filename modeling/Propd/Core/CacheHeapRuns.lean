import Propd.Core.CacheHeapRefines
import Propd.Tree.Fuel

/-!
# Runs of the cache in memory

Between the calls of the cache the rest of the process does what it likes with its own blocks, among
them the copies that `cache_get` handed over, and may use any address that is free. The cache stays
a map: every call ends, with the outcome that it has on a map which the calls so far lead to.
-/

namespace Propd

open Lib

section

variable {α : Type} [DecidableEq α]

/-! ## Fuel -/

namespace CacheMem

instance {β : Type} (f g : RbM α β) [h : Extends .fuel f g] :
    Extends (.inl .fuel) (liftM f : CacheM α β) (liftM g) where
  run_eq s := by
    change onLinks f s = _ ∨ onLinks g s = onLinks f s
    unfold onLinks
    rcases h.run_eq s.links with herr | heq
    · left
      rw [herr]
    · right
      rw [heq]

instance (fuel turns : ℕ) (body body' : α → CacheM α Unit) (x : Option α)
    [hbody : ∀ a, Extends (.inl .fuel) (body a) (body' a)] :
    Extends (.inl .fuel) (rbForeachSafe fuel body turns x)
      (rbForeachSafe (fuel + 1) body' (turns + 1) x) := by
  induction turns generalizing x with
  | zero => exact .stop _
  | succ turns ih =>
    cases x with
    | none => exact .refl _
    | some a =>
      rw [rbForeachSafe, rbForeachSafe]
      infer_instance

instance (fuel : ℕ) (key : CString) :
    Extends (.inl .fuel) (find fuel key : CacheM α (Option α)) (find (fuel + 1) key) := by
  unfold find
  infer_instance

/-- **More fuel changes nothing.** -/
instance (fuel : ℕ) (now : Timestamp) (call : MemCall α) :
    Extends (.inl .fuel) (respond fuel now call) (respond (fuel + 1) now call) := by
  cases call with
  | set key value duration env =>
    unfold respond cacheSet
    refine .andThen (.andThen inferInstance fun s => .andThen inferInstance fun r => ?_)
      fun r => inferInstance
    cases r with
    | none => exact .refl _
    | some a =>
      refine .andThen inferInstance fun s' => .andThen inferInstance fun old => ?_
      exact .refl _
  | get key al =>
    unfold respond cacheGet
    refine .andThen (.andThen inferInstance fun r => ?_) fun r => inferInstance
    exact .refl _
  | del key =>
    unfold respond cacheDel
    refine .andThen (.andThen inferInstance fun r => ?_) fun r => inferInstance
    cases r with
    | none => exact .refl _
    | some a =>
      dsimp only
      infer_instance
  | sweep =>
    unfold respond cleanerSweep
    infer_instance

end CacheMem

/-- A call of the cache, or a step of the rest of the process. -/
inductive MemAction (α : Type)
  | call (fuel : ℕ) (now : Timestamp) (call : MemCall α)
  | others

namespace CacheMem

/-- The blocks of the others after a reply: the copy has gone over to them. -/
def handed (s : CacheMem α) (out : α → Option (HeapBlock α)) :
    CacheReply α → α → Option (HeapBlock α)
  | .copy (.ok (p, _)) => Function.update out p (s.blocks p)
  | _ => out

/-- A step of the cache, or one of the others on blocks that are not those of the cache. The second
part of a state has the blocks of the others. -/
inductive Step : CacheMem α × (α → Option (HeapBlock α)) → MemAction α →
    CacheMem α × (α → Option (HeapBlock α)) → Prop
  | call {s s' : CacheMem α} {out : α → Option (HeapBlock α)} {fuel : ℕ} {now : Timestamp}
      {call : MemCall α} {r : CacheReply α} (h : (respond fuel now call).run s = .ok (r, s')) :
    Step (s, out) (.call fuel now call) (s', handed s' out r)
  | others {s : CacheMem α} {out blocks out' : α → Option (HeapBlock α)}
      (hown : ∀ p, s.blocks p ≠ none → out p = none → blocks p = s.blocks p ∧ out' p = none)
      (hout : ∀ p, s.blocks p = none ∨ out p ≠ none → out' p = blocks p) :
    Step (s, out) .others ({ s with blocks := blocks }, out')

end CacheMem

/-- The cache in memory, from `cache_create` on: all blocks that there are belong to others. -/
def cacheMemSystem (α : Type) [DecidableEq α] :
    LTS (CacheMem α × (α → Option (HeapBlock α))) (MemAction α) where
  init st := st.1.links .root = some (.plain none) ∧ st.1.blocks = st.2
  step := CacheMem.Step

namespace CacheMem

variable {s s' : CacheMem α} {out out' : α → Option (HeapBlock α)} {items : List α}
  {entry : α → OwnedItem α} {c : Cache} {fuel : ℕ}

theorem handed_eq {own : List (α × HeapBlock α)} {r : CacheReply α} {r' : CacheReply Value}
    (h : Hands out r r' out') (hs : Splits s.blocks out' own) : handed s out r = out' := by
  cases h with
  | status r => rfl
  | failed e => rfl
  | copied p v d hp =>
    have hblock : s.blocks p = some (.value v) := hs.eq_some.mpr (.inl (Function.update_self ..))
    rw [handed, hblock]
  | swept => rfl

/-- **A call** has the outcome of a call on the map. -/
theorem Represents.call (h : Represents s out items entry c) (now : Timestamp) (call : MemCall α)
    (hfuel : call.turns items.length ≤ fuel) :
    ∃ call', call.Stands call' ∧ Agrees ((respond fuel now call).run s) (c.respond now call') out := by
  cases call with
  | set key value duration env =>
    obtain ⟨a, hagrees⟩ : ∃ a, Agrees ((respond fuel now (.set key value duration env)).run s)
        (c.respond now (.set key value duration a)) out := h.set hfuel value duration env
    exact ⟨_, .set key value duration env a, hagrees⟩
  | get key al =>
    obtain ⟨alloc, hagrees⟩ : ∃ alloc, Agrees ((respond fuel now (.get key al)).run s)
        (c.respond now (.get key alloc)) out := h.get hfuel al
    exact ⟨_, .get key al alloc, hagrees⟩
  | del key => exact ⟨_, .del key, h.del hfuel⟩
  | sweep => exact ⟨_, .sweep, h.sweep hfuel⟩

theorem Agrees.ne_fuel {x : Except (RbFault ⊕ Fault) (CacheReply α × CacheMem α)}
    {y : Except Fault (Cache × CacheReply Value)} (h : Agrees x y out) : x ≠ .error (.inl .fuel) := by
  rintro rfl
  rcases h with ⟨f, hx, -⟩ | ⟨r, s', r', c', out', items', entry', hx, -⟩
  · cases hx
  · cases hx

/-- A call on the map is one of its system. -/
theorem reachable_respond {now : Timestamp} {call : CacheCall} {c' : Cache} {r : CacheReply Value}
    (h : cacheSystem.Reachable c) (hrun : c.respond now call = .ok (c', r)) :
    cacheSystem.Reachable c' := by
  have hstep : ∃ answer, c.perform now call = .ok (c', answer) := by
    cases call with
    | set key value duration a =>
      obtain ⟨x, hx, heq⟩ := exceptMap_ok hrun
      cases heq
      exact ⟨none, by rw [Cache.perform, hx]; rfl⟩
    | get key alloc =>
      obtain ⟨x, hx, heq⟩ := exceptMap_ok hrun
      cases heq
      exact ⟨some (key, x), by rw [Cache.perform, hx]; rfl⟩
    | del key =>
      cases hrun
      exact ⟨none, rfl⟩
    | sweep =>
      cases hrun
      exact ⟨none, rfl⟩
  exact h.tail (l := (now, call)) hstep

/-- **The invariant of the runs** -/
theorem represents_of_reachable {st : CacheMem α × (α → Option (HeapBlock α))}
    (h : (cacheMemSystem α).Reachable st) :
    ∃ c items entry, cacheSystem.Reachable c ∧ Represents st.1 st.2 items entry c := by
  refine LTS.invariant (I := fun st : CacheMem α × (α → Option (HeapBlock α)) =>
    ∃ c items entry, cacheSystem.Reachable c ∧ Represents st.1 st.2 items entry c) ?_ ?_ h
  · rintro ⟨s, out⟩ ⟨hroot, hblocks⟩
    obtain rfl : s.blocks = out := hblocks
    refine ⟨s.bare, [], fun a => ⟨⟨[], CString.nonul_nil⟩, a, none, 0, 0⟩, .of_init fun _ => rfl,
      ⟨.nil hroot, .nil _⟩, fun k it => ?_, rfl⟩
    exact iff_of_false (Option.some_ne_none it).symm (by simp)
  · rintro st l st' ⟨c, items, entry, hc, hrep⟩ hstep
    cases hstep with
    | @call s s' out fuel now call r hrun =>
      -- with more fuel the call does the same, and then it is one on the map
      have hmore : Extends (.inl .fuel) (respond fuel now call)
          (respond (max fuel (call.turns items.length)) now call) :=
        Extends.le (f := fun n => respond n now call) (fun n => inferInstance) (le_max_left ..)
      obtain ⟨call', -, hagrees⟩ := hrep.call now call (le_max_right fuel _)
      rw [hmore.run_of_ne (by rw [hrun]; simp), hrun] at hagrees
      rcases hagrees with ⟨f, hx, -⟩ | ⟨r₁, s₁, r', c', out', items', entry', hx, hy, hands, hrep'⟩
      · cases hx
      · cases hx
        refine ⟨c', items', entry', reachable_respond hc hy, ?_⟩
        rw [handed_eq hands hrep'.heap]
        exact hrep'
    | others hown hout =>
      exact ⟨c, items, entry, hc, ⟨hrep.tree, hrep.heap.others hown hout⟩, hrep.shows, hrep.bare⟩

end CacheMem

/-- **The cache in memory refines the map**: in every reachable state, and whatever the others do with
their blocks, the items show a map that calls lead to; every call ends, with the fuel that the
depth of the tree asks for, and has the reply or the fault of a call on the map. -/
theorem cacheMem_refines {s : CacheMem α} {out : α → Option (HeapBlock α)}
    (h : (cacheMemSystem α).Reachable (s, out)) :
    ∃ c items entry, cacheSystem.Reachable c ∧ s.Represents out items entry c ∧
      ∀ now call, ∃ call' x, call.Stands call' ∧ CacheMem.Agrees x (c.respond now call') out ∧
        ∀ fuel, call.turns items.length ≤ fuel → (CacheMem.respond fuel now call).run s = x := by
  obtain ⟨c, items, entry, hc, hrep⟩ := CacheMem.represents_of_reachable h
  refine ⟨c, items, entry, hc, hrep, fun now call => ?_⟩
  obtain ⟨call', hstands, hagrees⟩ := hrep.call now call le_rfl
  refine ⟨call', _, hstands, hagrees, fun fuel hfuel => ?_⟩
  have hmore : Extends (.inl .fuel) (CacheMem.respond (call.turns items.length) now call)
      (CacheMem.respond fuel now call) :=
    Extends.le (f := fun n => CacheMem.respond n now call) (fun n => inferInstance) hfuel
  exact hmore.run_of_ne hagrees.ne_fuel

/-- A cache that nothing has been put into. -/
def exampleCacheMem : CacheMem ℕ where
  links _ := some (.plain none)
  blocks _ := none
  minInterval := 1
  maxInterval := 10
  defaultDuration := 5
  minDuration := 1

theorem cacheMem_refines_created : ∃ c items entry, cacheSystem.Reachable c ∧
    exampleCacheMem.Represents (fun _ => none) items entry c ∧
      ∀ now call, ∃ call' x, call.Stands call' ∧
        CacheMem.Agrees x (c.respond now call') (fun _ => none) ∧
          ∀ fuel, call.turns items.length ≤ fuel →
            (CacheMem.respond fuel now call).run exampleCacheMem = x :=
  cacheMem_refines (.of_init ⟨rfl, rfl⟩)

/-- **`cache_destroy` leaves nothing behind**: in every reachable state it ends, and the blocks that
are left are those of the others. -/
theorem cacheMem_destroy {s : CacheMem α} {out : α → Option (HeapBlock α)}
    (h : (cacheMemSystem α).Reachable (s, out)) :
    ∃ n, ∀ fuel, n ≤ fuel → ∃ s', (CacheMem.cacheDestroy fuel).run s = .ok ((), s') ∧
      s'.blocks = out ∧ s'.links .root = some (.plain none) := by
  obtain ⟨c, items, entry, -, hrep⟩ := CacheMem.represents_of_reachable h
  refine ⟨max (items.length + 1) (levels items.length), fun fuel hfuel => ?_⟩
  obtain ⟨hturns, hlevels⟩ := max_le_iff.mp hfuel
  exact hrep.destroy hlevels hturns

theorem cacheMem_destroy_created : ∃ n, ∀ fuel, n ≤ fuel → ∃ s',
    (CacheMem.cacheDestroy fuel).run exampleCacheMem = .ok ((), s') ∧
      s'.blocks = (fun _ => none) ∧ s'.links .root = some (.plain none) :=
  cacheMem_destroy (.of_init ⟨rfl, rfl⟩)

end

end Propd
