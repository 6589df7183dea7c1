import Propd.Core.Value
import Propd.Infra.NamedMutex
import Propd.Lib.KeyLock

/-!
# Named mutexes are safe

The counter of an entry is the number of the calls that are between the first step of
`named_mutex_lock` and the last step of `named_mutex_unlock` for its name. From this it
follows that a thread never follows a pointer to an entry that is gone, and from the
mutex of the entry that a name has one holder.

Seen from outside a namespace is one lock a name, which is how the operations of a node
use it: only the second step of a lock and the second step of an unlock change it.
-/

namespace Propd

open Lib

/-! ## Positions -/

/-- The pointer a thread keeps, and the name it is for. -/
def LockerPc.target : LockerPc → Option (CString × ℕ)
  | out => none
  | waiting name addr | found name addr | released name addr => some (name, addr)

/-- The calls on `name` a position is in, apart from the mutex the thread may have. -/
def LockerPc.spans (name : CString) : LockerPc → ℕ
  | waiting n _ | released n _ => if n = name then 1 else 0
  | out | found _ _ => 0

/-- How many times a thread is between the first step of `named_mutex_lock` and the last
step of `named_mutex_unlock` for `name`. -/
def Locker.spans (name : CString) (l : Locker) : ℕ :=
  l.held.count name + l.pc.spans name

/-- A thread holds `name`, waits for it, or has just released it. -/
def Locker.Inside (name : CString) (l : Locker) : Prop :=
  name ∈ l.held ∨ ∃ addr, l.pc = .waiting name addr ∨ l.pc = .released name addr

/-- A thread in order: it has a name once, what it found is a name it has, and what it
released is not. -/
structure LockerOk (l : Locker) : Prop where
  once : l.held.Nodup
  found : ∀ name addr, l.pc = .found name addr → name ∈ l.held
  released : ∀ name addr, l.pc = .released name addr → name ∉ l.held

theorem LockerPc.spans_eq_zero {name : CString} {pc : LockerPc} :
    pc.spans name = 0 ↔ ∀ addr, pc ≠ .waiting name addr ∧ pc ≠ .released name addr := by
  cases pc with
  | out => simp [spans]
  | found n a => simp [spans]
  | waiting n a => simp [spans]
  | released n a => simp [spans]

theorem LockerPc.spans_le_one {name : CString} {pc : LockerPc} : pc.spans name ≤ 1 := by
  cases pc with
  | out => exact Nat.zero_le 1
  | found n a => exact Nat.zero_le 1
  | waiting n a =>
    rw [spans]
    split <;> decide
  | released n a =>
    rw [spans]
    split <;> decide

theorem Locker.spans_pos {name : CString} {l : Locker} : 0 < l.spans name ↔ l.Inside name := by
  rw [Nat.pos_iff_ne_zero, Ne, spans, Nat.add_eq_zero_iff, List.count_eq_zero,
    LockerPc.spans_eq_zero, Inside, not_and_or, not_not]
  simp only [ne_eq, not_forall, not_and_or, not_not]

/-- A pointer is kept inside a call. -/
theorem LockerOk.target_inside {l : Locker} (h : LockerOk l) {name : CString} {addr : ℕ}
    (ht : l.pc.target = some (name, addr)) : l.Inside name := by
  cases hpc : l.pc with
  | out =>
    rw [hpc] at ht
    cases ht
  | waiting n a =>
    rw [hpc] at ht
    cases ht
    exact .inr ⟨addr, .inl hpc⟩
  | found n a =>
    rw [hpc] at ht
    cases ht
    exact .inl (h.found name addr hpc)
  | released n a =>
    rw [hpc] at ht
    cases ht
    exact .inr ⟨addr, .inr hpc⟩

instance (name : CString) (l : Locker) : Decidable (l.Inside name) :=
  decidable_of_iff _ Locker.spans_pos

/-- Unless a thread waits for a name it has, it is in one call on a name at most. -/
theorem LockerOk.spans_le_one {l : Locker} (h : LockerOk l) {name : CString}
    (hfresh : ∀ addr, l.pc = .waiting name addr → name ∉ l.held) :
    l.spans name = if l.Inside name then 1 else 0 := by
  have hcount := List.nodup_iff_count_le_one.mp h.once name
  -- a call that waits or has released is on a name the thread does not have
  have hle : l.spans name ≤ 1 := by
    by_cases hpc : l.pc.spans name = 0
    · rw [Locker.spans, hpc]
      exact hcount
    · have hone : l.pc.spans name ≤ 1 := LockerPc.spans_le_one
      have hnot : name ∉ l.held := by
        rw [LockerPc.spans_eq_zero] at hpc
        simp only [ne_eq, not_forall, not_and_or, not_not] at hpc
        obtain ⟨addr, haddr | haddr⟩ := hpc
        · exact hfresh addr haddr
        · exact h.released name addr haddr
      rw [Locker.spans, List.count_eq_zero.mpr hnot]
      omega
  -- so the count says whether there is a call
  by_cases hin : l.Inside name
  · have hpos := Locker.spans_pos.mpr hin
    rw [if_pos hin]
    omega
  · rw [if_neg hin]
    exact Nat.eq_zero_of_not_pos (mt Locker.spans_pos.mp hin)

/-! ## The invariant -/

variable {ι : Type}

/-- The name and the address of an entry. -/
def Nmtx.key (e : Nmtx ι) : CString × ℕ :=
  (e.name, e.addr)

/-- A thread against the tree: what it is about is there, what it points to is there under
the name it called for, and it has a name where it has the mutex of the entry. -/
structure LockerInv (tree : List (Nmtx ι)) (t : ι) (l : Locker) : Prop where
  ok : LockerOk l
  present : ∀ name, l.Inside name → ∃ e ∈ tree, e.name = name
  pointer : ∀ name addr, l.pc.target = some (name, addr) → ∃ e ∈ tree, e.key = (name, addr)
  owner : ∀ e ∈ tree, e.owner = some t ↔ e.name ∈ l.held

/-- The tree: names and addresses are distinct, and a counter, which is not zero, is the
number of the calls under way for the name. -/
structure NmtxInv [Fintype ι] (s : NmtxState ι) : Prop where
  names : (s.tree.map Nmtx.name).Nodup
  addrs : (s.tree.map Nmtx.addr).Nodup
  bound : ∀ e ∈ s.tree, e.addr < s.nextAddr
  refs : ∀ e ∈ s.tree, e.nref = sumThreads (Locker.spans e.name) s.lockers
  alive : ∀ e ∈ s.tree, 0 < e.nref
  lockers : ∀ t, LockerInv s.tree t (s.lockers t)

namespace LockerInv

variable {tree tree' : List (Nmtx ι)} {t : ι} {l l' : Locker}

/-- A tree with the same entries where only the mutexes of others change. -/
theorem transport (h : LockerInv tree t l) (hkeys : tree'.map Nmtx.key = tree.map Nmtx.key)
    (howner : ∀ e ∈ tree', e.owner = some t ↔ e.name ∈ l.held) : LockerInv tree' t l := by
  -- every entry is still there under its name and address
  have hmem : ∀ e ∈ tree, ∃ e' ∈ tree', e'.key = e.key := by
    intro e he
    have hkey : e.key ∈ tree'.map Nmtx.key := by
      rw [hkeys]
      exact List.mem_map_of_mem he
    exact List.mem_map.mp hkey
  refine ⟨h.ok, fun name hin => ?_, fun name addr ht => ?_, howner⟩
  · obtain ⟨e, he, rfl⟩ := h.present name hin
    obtain ⟨e', he', hkey⟩ := hmem e he
    exact ⟨e', he', congrArg Prod.fst hkey⟩
  · obtain ⟨e, he, hkey⟩ := h.pointer name addr ht
    obtain ⟨e', he', hkey'⟩ := hmem e he
    exact ⟨e', he', hkey'.trans hkey⟩

end LockerInv

/-- A thread goes from `l` to `l'` and its entry from `e` to `e'`: it stays in order, keeps
to the entry, and the counter and the mutex follow it. -/
structure EntryMove (t : ι) (l l' : Locker) (e e' : Nmtx ι) : Prop where
  ok : LockerOk l'
  target : l'.pc.target = none ∨ l'.pc.target = some e.key
  others : ∀ name, name ≠ e.name →
    l'.spans name = l.spans name ∧ (name ∈ l'.held ↔ name ∈ l.held)
  nref : e'.nref + l.spans e.name = e.nref + l'.spans e.name
  alive : 0 < e'.nref
  mine : e'.owner = some t ↔ e.name ∈ l'.held
  theirs : ∀ t', t' ≠ t → (e'.owner = some t' ↔ e.owner = some t')

namespace NmtxInv

variable [Fintype ι] {s : NmtxState ι} {t : ι} {l : Locker} {e : Nmtx ι}

theorem eq_of_name (h : NmtxInv s) {e e' : Nmtx ι} (he : e ∈ s.tree) (he' : e' ∈ s.tree)
    (hname : e.name = e'.name) : e = e' :=
  List.inj_on_of_nodup_map h.names he he' hname

theorem eq_of_addr (h : NmtxInv s) {e e' : Nmtx ι} (he : e ∈ s.tree) (he' : e' ∈ s.tree)
    (haddr : e.addr = e'.addr) : e = e' :=
  List.inj_on_of_nodup_map h.addrs he he' haddr

/-- The entry a thread points to has the name it called for. -/
theorem target_name (h : NmtxInv s) (he : e ∈ s.tree) {name : CString}
    (ht : (s.lockers t).pc.target = some (name, e.addr)) : name = e.name := by
  obtain ⟨e', he', hkey⟩ := (h.lockers t).pointer _ _ ht
  obtain ⟨rfl, haddr⟩ := Prod.mk.inj hkey
  rw [h.eq_of_addr he' he haddr]

/-- A name without an entry is nobody's. -/
theorem outside (h : NmtxInv s) {name : CString} (hfree : ∀ e ∈ s.tree, e.name ≠ name) (t : ι) :
    ¬ (s.lockers t).Inside name := by
  intro hin
  obtain ⟨e, he, hname⟩ := (h.lockers t).present name hin
  exact hfree e he hname

variable [DecidableEq ι]

/-- A step that keeps the tree and the calls a thread is in. -/
theorem quiet (h : NmtxInv s) (hl : LockerInv s.tree t l)
    (hspans : ∀ name, l.spans name = (s.lockers t).spans name) :
    NmtxInv { s with lockers := Function.update s.lockers t l } where
  names := h.names
  addrs := h.addrs
  bound := h.bound
  refs e he := by
    have hmove := sumThreads_update (Locker.spans e.name) s.lockers t l
    have hold := h.refs e he
    rw [hspans] at hmove
    -- the thread counts as before, so every sum is the same
    show e.nref = (sumThreads (Locker.spans e.name) (Function.update s.lockers t l) : ℤ)
    omega
  alive := h.alive
  lockers := (Function.forall_update_iff s.lockers fun t l => LockerInv s.tree t l).mpr
    ⟨hl, fun t' _ => h.lockers t'⟩

omit [DecidableEq ι] in
/-- After a step of a thread an entry is the one that moved, or an old one with another name. -/
private theorem mem_moved (h : NmtxInv s) (he : e ∈ s.tree) {f : Nmtx ι → Nmtx ι} {x : Nmtx ι}
    (hx : x ∈ modifyAt Nmtx.addr e.addr f s.tree) : x = f e ∨ (x ∈ s.tree ∧ x.name ≠ e.name) := by
  rcases mem_modifyAt.mp hx with ⟨a, ha, hat, rfl⟩ | ⟨hx, hne⟩
  · rw [h.eq_of_addr ha he hat]
    exact .inl rfl
  · exact .inr ⟨hx, fun hn => hne (by rw [h.eq_of_name hx he hn])⟩

omit [DecidableEq ι] in
/-- The thread that takes the step is in order afterwards. -/
private theorem locker_moved (h : NmtxInv s) (he : e ∈ s.tree) {f : Nmtx ι → Nmtx ι}
    (hkey : ∀ e, (f e).key = e.key) (hmove : EntryMove t (s.lockers t) l e (f e)) :
    LockerInv (modifyAt Nmtx.addr e.addr f s.tree) t l where
  ok := hmove.ok
  present name hin := by
    have hmem : f e ∈ modifyAt Nmtx.addr e.addr f s.tree :=
      mem_modifyAt.mpr (.inl ⟨e, he, rfl, rfl⟩)
    by_cases hn : name = e.name
    · exact ⟨f e, hmem, by rw [hn]; exact congrArg Prod.fst (hkey e)⟩
    · -- it was inside any other name before, whose entry has not moved
      rw [← Locker.spans_pos, (hmove.others name hn).1, Locker.spans_pos] at hin
      obtain ⟨x, hx, rfl⟩ := (h.lockers t).present name hin
      exact ⟨x, mem_modifyAt.mpr (.inr ⟨hx, fun ha => hn (by rw [h.eq_of_addr hx he ha])⟩), rfl⟩
  pointer name addr ht := by
    rcases hmove.target with hnone | hsome
    · rw [hnone] at ht
      cases ht
    · rw [hsome] at ht
      exact ⟨f e, mem_modifyAt.mpr (.inl ⟨e, he, rfl, rfl⟩), (hkey e).trans (Option.some.inj ht)⟩
  owner x hx := by
    rcases h.mem_moved he hx with rfl | ⟨hx, hne⟩
    · rw [show (f e).name = e.name from congrArg Prod.fst (hkey e)]
      exact hmove.mine
    · rw [(hmove.others x.name hne).2]
      exact (h.lockers t).owner x hx

/-- A step of a thread on its entry. -/
theorem moved (h : NmtxInv s) (he : e ∈ s.tree) {f : Nmtx ι → Nmtx ι}
    (hkey : ∀ e, (f e).key = e.key) (hmove : EntryMove t (s.lockers t) l e (f e)) :
    NmtxInv (s.moved t l e.addr f) := by
  have hname : ∀ e, (f e).name = e.name := fun e => congrArg Prod.fst (hkey e)
  have haddr : ∀ e, (f e).addr = e.addr := fun e => congrArg Prod.snd (hkey e)
  have hkeys : (modifyAt Nmtx.addr e.addr f s.tree).map Nmtx.key = s.tree.map Nmtx.key :=
    map_modifyAt hkey _
  have hsum : ∀ name, sumThreads (Locker.spans name) (Function.update s.lockers t l) +
      (s.lockers t).spans name = sumThreads (Locker.spans name) s.lockers + l.spans name :=
    fun name => sumThreads_update _ _ _ _
  refine ⟨?_, ?_, fun x hx => ?_, fun x hx => ?_, fun x hx => ?_, ?_⟩
  · show (List.map _ (modifyAt _ _ _ _)).Nodup
    rw [map_modifyAt hname]
    exact h.names
  · show (List.map _ (modifyAt _ _ _ _)).Nodup
    rw [map_modifyAt haddr]
    exact h.addrs
  · rcases h.mem_moved he hx with rfl | ⟨hx, -⟩
    · rw [haddr]
      exact h.bound e he
    · exact h.bound x hx
  · show x.nref = (sumThreads (Locker.spans x.name) (Function.update s.lockers t l) : ℤ)
    rcases h.mem_moved he hx with rfl | ⟨hx, hne⟩
    · -- the counter of its own entry follows the thread
      have hold := h.refs e he
      have hnref := hmove.nref
      have hn := hsum e.name
      rw [hname]
      omega
    · -- for any other name the thread counts as before
      have hold := h.refs x hx
      have hn := hsum x.name
      rw [(hmove.others x.name hne).1] at hn
      omega
  · rcases h.mem_moved he hx with rfl | ⟨hx, -⟩
    · exact hmove.alive
    · exact h.alive x hx
  · refine (Function.forall_update_iff s.lockers
      fun t l => LockerInv (modifyAt Nmtx.addr e.addr f s.tree) t l).mpr ⟨?_, fun t' ht' => ?_⟩
    · exact h.locker_moved he hkey hmove
    · refine (h.lockers t').transport hkeys fun x hx => ?_
      rcases h.mem_moved he hx with rfl | ⟨hx, -⟩
      · rw [hname, hmove.theirs t' ht']
        exact (h.lockers t').owner e he
      · exact (h.lockers t').owner x hx

/-- The first thread that locks a name makes its entry. -/
theorem created (h : NmtxInv s) {name : CString} (hfree : ∀ e ∈ s.tree, e.name ≠ name)
    (hpc : (s.lockers t).pc = .out) :
    NmtxInv { tree := ⟨name, none, 1, s.nextAddr⟩ :: s.tree
              nextAddr := s.nextAddr + 1
              lockers := Function.update s.lockers t
                { s.lockers t with pc := .waiting name s.nextAddr } } := by
  -- nobody is in a call on the name yet
  have hnone : ∀ t', (s.lockers t').spans name = 0 := fun t' =>
    Nat.eq_zero_of_not_pos (mt Locker.spans_pos.mp (h.outside hfree t'))
  have hspans : ∀ n, Locker.spans n { s.lockers t with pc := .waiting name s.nextAddr } =
      (s.lockers t).spans n + if name = n then 1 else 0 := by
    intro n
    simp only [Locker.spans, hpc, LockerPc.spans, Nat.add_zero]
  -- so the thread is the only one that counts for it
  have hsum : ∀ n, sumThreads (Locker.spans n)
      (Function.update s.lockers t { s.lockers t with pc := .waiting name s.nextAddr }) =
      sumThreads (Locker.spans n) s.lockers + if name = n then 1 else 0 := by
    intro n
    have hmove := sumThreads_update (Locker.spans n) s.lockers t
      { s.lockers t with pc := .waiting name s.nextAddr }
    rw [hspans] at hmove
    omega
  have hheld : ∀ t', name ∉ (s.lockers t').held := fun t' hin => h.outside hfree t' (.inl hin)
  -- a new entry takes nothing from a thread that does not have the name
  have hthere : ∀ t' l, LockerInv s.tree t' l → name ∉ l.held →
      LockerInv (⟨name, none, 1, s.nextAddr⟩ :: s.tree) t' l := by
    intro t' l hl hnot
    refine ⟨hl.ok, fun n hin => ?_, fun n addr ht => ?_, fun e he => ?_⟩
    · obtain ⟨e, he, hname⟩ := hl.present n hin
      exact ⟨e, List.mem_cons_of_mem _ he, hname⟩
    · obtain ⟨e, he, hkey⟩ := hl.pointer n addr ht
      exact ⟨e, List.mem_cons_of_mem _ he, hkey⟩
    · rcases List.mem_cons.mp he with rfl | he
      · exact iff_of_false nofun hnot
      · exact hl.owner e he
  refine ⟨?_, ?_, fun e he => ?_, fun e he => ?_, fun e he => ?_, ?_⟩
  · -- the name was free
    refine List.nodup_cons.mpr ⟨fun hmem => ?_, h.names⟩
    obtain ⟨e, he, hname⟩ := List.mem_map.mp hmem
    exact hfree e he hname
  · -- the address is new
    refine List.nodup_cons.mpr ⟨fun hmem => ?_, h.addrs⟩
    obtain ⟨e, he, haddr⟩ := List.mem_map.mp hmem
    exact absurd (h.bound e he) (by rw [haddr]; exact lt_irrefl _)
  · rcases List.mem_cons.mp he with rfl | he
    · exact Nat.lt_succ_self _
    · exact Nat.lt_succ_of_lt (h.bound e he)
  · show e.nref = (sumThreads (Locker.spans e.name) (Function.update s.lockers t _) : ℤ)
    rw [hsum]
    rcases List.mem_cons.mp he with rfl | he
    · rw [if_pos rfl, sumThreads_eq_zero.mpr hnone]
      rfl
    · rw [if_neg (hfree e he).symm]
      exact h.refs e he
  · rcases List.mem_cons.mp he with rfl | he
    · exact Int.one_pos
    · exact h.alive e he
  · refine (Function.forall_update_iff s.lockers
      fun t l => LockerInv (⟨name, none, 1, s.nextAddr⟩ :: s.tree) t l).mpr
      ⟨?_, fun t' _ => hthere t' _ (h.lockers t') (hheld t')⟩
    -- the thread waits for the new entry
    have hold := hthere t _ (h.lockers t) (hheld t)
    refine ⟨⟨hold.ok.once, nofun, nofun⟩, fun n hin => ?_, fun n addr ht => ?_, hold.owner⟩
    · rcases hin with hin | ⟨addr, heq | heq⟩
      · exact hold.present n (.inl hin)
      · cases heq
        exact ⟨_, List.mem_cons_self, rfl⟩
      · cases heq
    · cases ht
      exact ⟨_, List.mem_cons_self, rfl⟩

/-- The last thread that is done with a name takes its entry away. -/
theorem destroyed (h : NmtxInv s) {name : CString} (he : e ∈ s.tree)
    (hpc : (s.lockers t).pc = .released name e.addr) (hlast : e.nref = 1)
    (hfree : e.owner = none) {ret : Except Errno Unit} :
    NmtxInv { s with
      tree := s.tree.filter fun e' => e'.addr ≠ e.addr
      lockers := Function.update s.lockers t { s.lockers t with pc := .out, ret := ret } } := by
  have hname : name = e.name := h.target_name he (t := t) (by rw [hpc]; rfl)
  subst hname
  have hnot : e.name ∉ (s.lockers t).held := by
    rw [← (h.lockers t).owner e he, hfree]
    nofun
  have hspans : ∀ n, Locker.spans n { s.lockers t with pc := .out, ret := ret } +
      (if e.name = n then 1 else 0) = (s.lockers t).spans n := by
    intro n
    simp only [Locker.spans, hpc, LockerPc.spans, Nat.add_zero]
  -- the thread leaves its last call on the name
  have hsum : ∀ n, sumThreads (Locker.spans n)
      (Function.update s.lockers t { s.lockers t with pc := .out, ret := ret }) +
      (if e.name = n then 1 else 0) = sumThreads (Locker.spans n) s.lockers := by
    intro n
    have hmove := sumThreads_update (Locker.spans n) s.lockers t
      { s.lockers t with pc := .out, ret := ret }
    have hn := hspans n
    omega
  -- nobody is inside the name any more
  have hgone : ∀ t', ¬ (Function.update s.lockers t
      { s.lockers t with pc := .out, ret := ret } t').Inside e.name := by
    intro t' hin
    have hcount := h.refs e he
    have hn := hsum e.name
    rw [if_pos rfl] at hn
    have hzero : sumThreads (Locker.spans e.name)
        (Function.update s.lockers t { s.lockers t with pc := .out, ret := ret }) = 0 := by
      omega
    exact absurd (Locker.spans_pos.mpr hin) (by rw [sumThreads_eq_zero.mp hzero t']; exact lt_irrefl _)
  -- the entries that are left are those of other names
  have hmem : ∀ x, x ∈ (s.tree.filter fun e' => e'.addr ≠ e.addr) ↔ x ∈ s.tree ∧ x.name ≠ e.name := by
    intro x
    rw [List.mem_filter, decide_eq_true_iff]
    constructor
    · rintro ⟨hx, hne⟩
      exact ⟨hx, fun hn => hne (by rw [h.eq_of_name hx he hn])⟩
    · rintro ⟨hx, hne⟩
      exact ⟨hx, fun ha => hne (by rw [h.eq_of_addr hx he ha])⟩
  -- a thread that is not inside the name loses nothing
  have hthere : ∀ t' l, LockerInv s.tree t' l → ¬ l.Inside e.name →
      LockerInv (s.tree.filter fun e' => e'.addr ≠ e.addr) t' l := by
    intro t' l hl hout
    refine ⟨hl.ok, fun n hin => ?_, fun n addr ht => ?_, fun x hx => hl.owner x ((hmem x).mp hx).1⟩
    · obtain ⟨x, hx, rfl⟩ := hl.present n hin
      exact ⟨x, (hmem x).mpr ⟨hx, fun hn => hout (hn ▸ hin)⟩, rfl⟩
    · obtain ⟨x, hx, hkey⟩ := hl.pointer n addr ht
      obtain ⟨rfl, -⟩ := Prod.mk.inj hkey
      exact ⟨x, (hmem x).mpr ⟨hx, fun hn => hout (hn ▸ hl.ok.target_inside ht)⟩, hkey⟩
  refine ⟨h.names.sublist (List.filter_sublist.map _), h.addrs.sublist (List.filter_sublist.map _),
    fun x hx => h.bound x ((hmem x).mp hx).1, fun x hx => ?_,
    fun x hx => h.alive x ((hmem x).mp hx).1, fun t' => ?_⟩
  · obtain ⟨hx, hne⟩ := (hmem x).mp hx
    have hn := hsum x.name
    rw [if_neg hne.symm] at hn
    rw [h.refs x hx, ← hn]
    rfl
  · refine hthere t' _ ?_ (hgone t')
    refine (Function.forall_update_iff s.lockers fun t l => LockerInv s.tree t l).mpr
      ⟨?_, fun t' _ => h.lockers t'⟩ t'
    have hold := h.lockers t
    refine ⟨⟨hold.ok.once, nofun, nofun⟩, fun n hin => ?_, nofun, hold.owner⟩
    rcases hin with hin | ⟨addr, heq | heq⟩
    · exact hold.present n (.inl hin)
    · cases heq
    · cases heq

omit [DecidableEq ι] in
/-- A thread that joins an entry counts once more. -/
private theorem entryMove_joined (h : NmtxInv s) (he : e ∈ s.tree)
    (hpc : (s.lockers t).pc = .out) :
    EntryMove t (s.lockers t) { s.lockers t with pc := .waiting e.name e.addr } e
      { e with nref := e.nref + 1 } where
  ok := ⟨(h.lockers t).ok.once, nofun, nofun⟩
  target := .inr rfl
  others name hne := by
    simp only [Locker.spans, LockerPc.spans, hpc, if_neg hne.symm, true_and]
  nref := by
    simp only [Locker.spans, LockerPc.spans, hpc, if_true]
    push_cast
    omega
  alive := Int.add_pos_of_pos_of_nonneg (h.alive e he) Int.one_nonneg
  mine := (h.lockers t).owner e he
  theirs _ _ := Iff.rfl

omit [DecidableEq ι] in
/-- A thread that takes the mutex of its entry has waited for it, and so counts as before. -/
private theorem entryMove_acquired (h : NmtxInv s) (he : e ∈ s.tree)
    (hpc : (s.lockers t).pc = .waiting e.name e.addr) (hfree : e.owner = none)
    {ret : Except Errno Unit} :
    EntryMove t (s.lockers t) ⟨e.name :: (s.lockers t).held, .out, ret⟩ e
      { e with owner := some t } := by
  have hl := h.lockers t
  have hnot : e.name ∉ (s.lockers t).held := by
    rw [← hl.owner e he, hfree]
    nofun
  refine ⟨⟨List.nodup_cons.mpr ⟨hnot, hl.ok.once⟩, nofun, nofun⟩, .inl rfl,
    fun name hne => ⟨?_, ?_⟩, ?_, h.alive e he, ?_, fun t' ht' => ?_⟩
  · simp only [Locker.spans, LockerPc.spans, hpc, if_neg hne.symm, List.count_cons_of_ne hne.symm]
  · exact List.mem_cons.trans (or_iff_right hne)
  · simp only [Locker.spans, LockerPc.spans, hpc, if_true, List.count_cons_self, Nat.add_zero]
  · exact iff_of_true rfl List.mem_cons_self
  · rw [hfree]
    exact iff_of_false (fun heq => ht' (Option.some.inj heq).symm) nofun

omit [DecidableEq ι] in
/-- A thread that releases its mutex is still in the call, and so counts as before. -/
private theorem entryMove_released (h : NmtxInv s) (he : e ∈ s.tree)
    (hpc : (s.lockers t).pc = .found e.name e.addr) :
    EntryMove t (s.lockers t)
      { s.lockers t with held := (s.lockers t).held.erase e.name, pc := .released e.name e.addr } e
      { e with owner := none } := by
  have hl := h.lockers t
  have hheld : e.name ∈ (s.lockers t).held := hl.ok.found _ _ hpc
  have howner : e.owner = some t := (hl.owner e he).mpr hheld
  have hnot : e.name ∉ (s.lockers t).held.erase e.name := hl.ok.once.not_mem_erase
  refine ⟨⟨hl.ok.once.erase _, nofun, fun n addr heq => ?_⟩, .inr rfl,
    fun name hne => ⟨?_, ?_⟩, ?_, h.alive e he, iff_of_false nofun hnot, fun t' ht' => ?_⟩
  · cases heq
    exact hnot
  · simp only [Locker.spans, LockerPc.spans, hpc, if_neg hne.symm, List.count_erase_of_ne hne]
  · exact List.mem_erase_of_ne hne
  · have hpos : 0 < (s.lockers t).held.count e.name := List.count_pos_iff.mpr hheld
    simp only [Locker.spans, LockerPc.spans, hpc, if_true, List.count_erase_self, Nat.add_zero]
    omega
  · rw [howner]
    exact iff_of_false nofun fun heq => ht' (Option.some.inj heq).symm

omit [DecidableEq ι] in
/-- A thread that is not the last one drops its reference. -/
private theorem entryMove_dropped (h : NmtxInv s) (he : e ∈ s.tree)
    (hpc : (s.lockers t).pc = .released e.name e.addr) (hlast : e.nref ≠ 1)
    {ret : Except Errno Unit} :
    EntryMove t (s.lockers t) { s.lockers t with pc := .out, ret := ret } e
      { e with nref := e.nref - 1 } where
  ok := ⟨(h.lockers t).ok.once, nofun, nofun⟩
  target := .inl rfl
  others name hne := by
    simp only [Locker.spans, LockerPc.spans, hpc, if_neg hne.symm, true_and]
  nref := by
    simp only [Locker.spans, LockerPc.spans, hpc, if_true]
    push_cast
    omega
  alive := by
    have halive := h.alive e he
    show 0 < e.nref - 1
    omega
  mine := (h.lockers t).owner e he
  theirs _ _ := Iff.rfl

/-- **Every step keeps the invariant.** -/
theorem step (h : NmtxInv s) {a : NmtxAction ι} {s' : NmtxState ι} (hs : NmtxStep s a s') :
    NmtxInv s' := by
  cases hs with
  | @lockFailed t name hpc =>
    have hl := h.lockers t
    exact h.quiet ⟨⟨hl.ok.once, hl.ok.found, hl.ok.released⟩, hl.present, hl.pointer, hl.owner⟩
      fun _ => rfl
  | created hpc hfree => exact h.created hfree hpc
  | @joined t e hpc he =>
    have hmoved := h.moved (f := fun e => { e with nref := e.nref + 1 }) he (fun _ => rfl)
      (h.entryMove_joined he hpc)
    -- the entry that was made for nothing has used up an address
    exact ⟨hmoved.names, hmoved.addrs, fun x hx => Nat.lt_succ_of_lt (hmoved.bound x hx),
      hmoved.refs, hmoved.alive, hmoved.lockers⟩
  | @acquired t name e hpc he hfree =>
    have hname : name = e.name := h.target_name he (t := t) (by rw [hpc]; rfl)
    subst hname
    exact h.moved he (fun _ => rfl) (h.entryMove_acquired he hpc hfree)
  | @notFound t name hpc hheld hfree =>
    -- a name that is held has its entry
    exact absurd (.inl hheld) (h.outside hfree t)
  | @found t e hpc hheld he =>
    have hl := h.lockers t
    have hspans : ∀ n, Locker.spans n { s.lockers t with pc := .found e.name e.addr } =
        (s.lockers t).spans n := by
      intro n
      simp only [Locker.spans, LockerPc.spans, hpc]
    refine h.quiet ⟨⟨hl.ok.once, fun n addr heq => ?_, nofun⟩, fun n hin => ?_, fun n addr ht => ?_,
      hl.owner⟩ hspans
    · cases heq
      exact hheld
    · rw [← Locker.spans_pos, hspans, Locker.spans_pos] at hin
      exact hl.present n hin
    · cases ht
      exact ⟨e, he, rfl⟩
  | @released t name e hpc he =>
    have hname : name = e.name := h.target_name he (t := t) (by rw [hpc]; rfl)
    subst hname
    exact h.moved he (fun _ => rfl) (h.entryMove_released he hpc)
  | @dropped t name e hpc he hlast =>
    have hname : name = e.name := h.target_name he (t := t) (by rw [hpc]; rfl)
    subst hname
    exact h.moved he (fun _ => rfl) (h.entryMove_dropped he hpc hlast)
  | destroyed hpc he hlast hfree => exact h.destroyed he hpc hlast hfree

omit [DecidableEq ι] in
theorem starts (h : s.Starts) : NmtxInv s := by
  have htree := h.1
  refine ⟨by simp [htree], by simp [htree], by simp [htree], by simp [htree], by simp [htree],
    fun t => ?_⟩
  obtain ⟨hheld, hpc⟩ := h.2 t
  refine ⟨⟨by simp [hheld], fun n a heq => ?_, fun n a heq => ?_⟩, fun n hin => ?_,
    fun n a ht => ?_, by simp [htree]⟩
  · cases hpc.symm.trans heq
  · cases hpc.symm.trans heq
  · rcases hin with hin | ⟨a, heq | heq⟩
    · rw [hheld] at hin
      cases hin
    · cases hpc.symm.trans heq
    · cases hpc.symm.trans heq
  · rw [hpc] at ht
    cases ht

end NmtxInv

/-- **The invariant holds in every reachable state.** -/
theorem nmtxInv_of_reachable [Fintype ι] [DecidableEq ι] {s : NmtxState ι}
    (h : (nmtxSystem ι).Reachable s) : NmtxInv s :=
  LTS.invariant (M := nmtxSystem ι) (fun _ h₀ => NmtxInv.starts h₀)
    (fun _ _ _ hi hs => hi.step (nmtxStep_ok hs)) h

/-! ## Safety -/

variable [Fintype ι] [DecidableEq ι] {s s' : NmtxState ι} {a : NmtxAction ι}

/-- No pointer dangles, and an entry that is destroyed is free. -/
theorem NmtxInv.no_fault (h : NmtxInv s) : ¬ NmtxFaults s a := by
  have hthere : ∀ t name addr, (s.lockers t).pc.target = some (name, addr) →
      ∃ e ∈ s.tree, e.addr = addr := by
    intro t name addr ht
    obtain ⟨e, he, hkey⟩ := (h.lockers t).pointer name addr ht
    exact ⟨e, he, congrArg Prod.snd hkey⟩
  rintro (⟨hpc, hgone⟩ | ⟨hpc, hgone⟩ | ⟨hpc, hgone⟩ | ⟨hpc, he, hlast, howner⟩)
  · -- a waiting thread
    obtain ⟨e, he, haddr⟩ := hthere _ _ _ (by rw [hpc]; rfl)
    exact hgone e he haddr
  · -- a thread that has found its entry
    obtain ⟨e, he, haddr⟩ := hthere _ _ _ (by rw [hpc]; rfl)
    exact hgone e he haddr
  · -- a thread that has released its mutex
    obtain ⟨e, he, haddr⟩ := hthere _ _ _ (by rw [hpc]; rfl)
    exact hgone e he haddr
  · rename_i t name e
    have hname : name = e.name := h.target_name he (t := t) (by rw [hpc]; rfl)
    subst hname
    obtain ⟨t', ht'⟩ := Option.ne_none_iff_exists'.mp howner
    have hheld := ((h.lockers t').owner e he).mp ht'
    -- the thread that has the name is another one, so two calls are under way
    have hne : t' ≠ t := by
      rintro rfl
      exact (h.lockers t').ok.released _ _ hpc hheld
    have hdrop := sumThreads_update (Locker.spans e.name) s.lockers t ⟨[], .out, .ok ()⟩
    have hmine : (s.lockers t).spans e.name ≠ 0 :=
      (Locker.spans_pos.mpr (.inr ⟨_, .inr hpc⟩)).ne'
    have htheirs : 0 < sumThreads (Locker.spans e.name)
        (Function.update s.lockers t ⟨[], .out, .ok ()⟩) := by
      refine sumThreads_pos (t := t') ?_
      rw [Function.update_of_ne hne]
      exact Locker.spans_pos.mpr (.inl hheld)
    have hcount := h.refs e he
    have hout : Locker.spans e.name ⟨[], .out, .ok ()⟩ = 0 := rfl
    omega

omit [DecidableEq ι] in
/-- Where nobody waits for a name it has, the counter counts threads. -/
theorem NmtxInv.nref_eq_count (h : NmtxInv s) {e : Nmtx ι} (he : e ∈ s.tree)
    (hfresh : ∀ t addr, (s.lockers t).pc = .waiting e.name addr → e.name ∉ (s.lockers t).held) :
    e.nref = countThreads (Locker.Inside e.name) s.lockers := by
  rw [h.refs e he, countThreads_eq_sum, sumThreads, sumThreads]
  congr 1
  exact Finset.sum_congr rfl fun t _ => (h.lockers t).ok.spans_le_one (hfresh t)

omit [DecidableEq ι] in
/-- Outside all calls there is no entry. -/
theorem NmtxInv.tree_empty (h : NmtxInv s) (hout : ∀ t name, ¬ (s.lockers t).Inside name) :
    s.tree = [] := by
  refine List.eq_nil_iff_forall_not_mem.mpr fun e he => ?_
  have halive := h.alive e he
  -- an entry without calls would have a counter of zero
  have hzero : sumThreads (Locker.spans e.name) s.lockers = 0 :=
    sumThreads_eq_zero.mpr fun t => Nat.eq_zero_of_not_pos (mt Locker.spans_pos.mp (hout t e.name))
  rw [h.refs e he, hzero] at halive
  exact absurd halive (by decide)

/-- **Named mutexes are safe**, in every reachable state: a name has one holder, the thread
that has the mutex of its entry; a name has one entry; the counter of an entry is the number
of the calls between the first step of a lock and the last step of an unlock, and the number
of the threads there where none of them waits for a name it has; no step faults; and when no
thread is in such a call the tree is empty, as `named_mutex_destroy_namespace` asserts. -/
theorem namedMutex_safe (h : (nmtxSystem ι).Reachable s) :
    (∀ name t t', name ∈ (s.lockers t).held → name ∈ (s.lockers t').held → t = t') ∧
    (∀ e ∈ s.tree, ∀ t, e.owner = some t ↔ e.name ∈ (s.lockers t).held) ∧
    (s.tree.map Nmtx.name).Nodup ∧
    (∀ e ∈ s.tree, e.nref = sumThreads (Locker.spans e.name) s.lockers ∧
      ((∀ t addr, (s.lockers t).pc = .waiting e.name addr → e.name ∉ (s.lockers t).held) →
        e.nref = countThreads (Locker.Inside e.name) s.lockers)) ∧
    (∀ a f, nmtxStep s a ≠ some (.error f)) ∧
    ((∀ t name, ¬ (s.lockers t).Inside name) →
      s.tree = [] ∧ namedMutexDestroyNamespace s.tree = .ok ()) := by
  have hinv := nmtxInv_of_reachable h
  refine ⟨fun name t t' ht ht' => ?_, fun e he t => (hinv.lockers t).owner e he, hinv.names,
    fun e he => ⟨hinv.refs e he, hinv.nref_eq_count he⟩, fun a f hf => ?_, fun hout => ?_⟩
  · -- two holders of a name have the mutex of one entry
    obtain ⟨e, he, rfl⟩ := (hinv.lockers t).present name (.inl ht)
    have howner := ((hinv.lockers t).owner e he).mpr ht
    have howner' := ((hinv.lockers t').owner e he).mpr ht'
    exact Option.some.inj (howner.symm.trans howner')
  · rcases nmtxStep_cases hf with ⟨s', heq, -⟩ | ⟨f', -, hfault⟩
    · cases heq
    · exact hinv.no_fault hfault
  · have htree := hinv.tree_empty hout
    exact ⟨htree, if_pos htree⟩

/-- Threads that have not called anything yet. -/
def exampleLockers (ι : Type) : NmtxState ι :=
  ⟨[], 0, fun _ => ⟨[], .out, .ok ()⟩⟩

omit [Fintype ι] [DecidableEq ι] in
theorem exampleLockers_starts : (exampleLockers ι).Starts :=
  ⟨rfl, fun _ => ⟨rfl, rfl⟩⟩

omit [Fintype ι] in
theorem exampleLockers_run {as : List (NmtxAction ι)}
    (h : LTS.exec (LTS.stepsOk nmtxStep) (exampleLockers ι) as = some s) :
    (nmtxSystem ι).Reachable s :=
  LTS.exec_reachable (M := nmtxSystem ι) (fun _ _ _ => LTS.stepsOk_eq_some) exampleLockers_starts h

/-- One thread has the name, and another waits for it: they are two. -/
theorem namedMutex_safe_waiting :
    ∃ s : NmtxState (Fin 2), (nmtxSystem (Fin 2)).Reachable s ∧
      exampleKey ∈ (s.lockers 0).held ∧ (s.lockers 1).Inside exampleKey ∧
      ∃ e ∈ s.tree, e.nref = 2 ∧ e.nref = countThreads (Locker.Inside e.name) s.lockers := by
  obtain ⟨s, hrun, hheld, hin, hfresh, e, htree, hnref⟩ : ∃ s,
      LTS.exec (LTS.stepsOk nmtxStep) (exampleLockers (Fin 2))
        [.lockInsert 0 exampleKey true, .lockInsert 1 exampleKey true, .lockAcquire 0] = some s ∧
      exampleKey ∈ (s.lockers 0).held ∧ (s.lockers 1).Inside exampleKey ∧
      (∀ t, (s.lockers t).pc ≠ .out → (s.lockers t).held = []) ∧
      ∃ e : Nmtx (Fin 2), s.tree = [e] ∧ e.nref = 2 :=
    ⟨_, rfl, by decide, by decide, by decide, _, rfl, rfl⟩
  have hreach := exampleLockers_run hrun
  have hmem : e ∈ s.tree := by
    rw [htree]
    exact List.mem_singleton_self e
  refine ⟨s, hreach, hheld, hin, e, hmem, hnref, ?_⟩
  refine ((namedMutex_safe hreach).2.2.2.1 e hmem).2 fun t addr hpc => ?_
  rw [hfresh t (by rw [hpc]; nofun)]
  exact List.not_mem_nil

/-- Between the last two steps of an unlock a thread neither has the name nor waits for it,
and the entry is still there; and a thread that locks a name it has, and then waits for
itself, counts twice. -/
theorem namedMutex_released_entry :
    (∃ s : NmtxState Unit, (nmtxSystem Unit).Reachable s ∧
      (∀ t name, name ∉ (s.lockers t).held ∧ ∀ addr, (s.lockers t).pc ≠ .waiting name addr) ∧
      s.tree ≠ [] ∧ namedMutexDestroyNamespace s.tree = .error .assertion) ∧
    (∃ s : NmtxState Unit, (nmtxSystem Unit).Reachable s ∧
      ∃ e ∈ s.tree, e.nref = 2 ∧ countThreads (Locker.Inside e.name) s.lockers = 1) := by
  constructor
  · obtain ⟨s, hrun, hheld, hpc, hne, hassert⟩ : ∃ s,
        LTS.exec (LTS.stepsOk nmtxStep) (exampleLockers Unit)
          [.lockInsert () exampleKey true, .lockAcquire (), .unlockFind () exampleKey,
            .unlockRelease ()] = some s ∧
        (s.lockers ()).held = [] ∧ (s.lockers ()).pc = .released exampleKey 0 ∧
        s.tree ≠ [] ∧ namedMutexDestroyNamespace s.tree = .error .assertion :=
      ⟨_, rfl, by decide, by decide, by decide, by decide⟩
    refine ⟨s, exampleLockers_run hrun, fun t name => ⟨?_, fun addr => ?_⟩, hne, hassert⟩
    · rw [hheld]
      exact List.not_mem_nil
    · rw [hpc]
      nofun
  · obtain ⟨s, hrun, e, htree, hnref, hcount⟩ : ∃ s,
        LTS.exec (LTS.stepsOk nmtxStep) (exampleLockers Unit)
          [.lockInsert () exampleKey true, .lockAcquire (), .lockInsert () exampleKey true] =
          some s ∧
        ∃ e : Nmtx Unit, s.tree = [e] ∧ e.nref = 2 ∧
          countThreads (Locker.Inside e.name) s.lockers = 1 :=
      ⟨_, rfl, _, rfl, by decide, by decide⟩
    refine ⟨s, exampleLockers_run hrun, e, ?_, hnref, hcount⟩
    rw [htree]
    exact List.mem_singleton_self e

/-! ## One lock a name -/

/-- Who has the mutex of the entry of a name. -/
def NmtxState.holder (s : NmtxState ι) (name : CString) : Option ι :=
  (nmtxFind s.tree name).bind Nmtx.owner

omit [DecidableEq ι] in
theorem NmtxInv.holder_eq_some (h : NmtxInv s) {name : CString} {t : ι} :
    s.holder name = some t ↔ name ∈ (s.lockers t).held := by
  constructor
  · intro hholder
    obtain ⟨e, hfind, howner⟩ := Option.bind_eq_some_iff.mp hholder
    obtain ⟨he, rfl⟩ := cellAt_eq_some hfind
    exact ((h.lockers t).owner e he).mp howner
  · intro hheld
    obtain ⟨e, he, rfl⟩ := (h.lockers t).present name (.inl hheld)
    rw [NmtxState.holder, nmtxFind, cellAt_of_mem h.names he, Option.bind_some]
    exact ((h.lockers t).owner e he).mpr hheld

omit [DecidableEq ι] in
/-- The holders follow the names the threads have. -/
theorem NmtxInv.holder_eq (h : NmtxInv s) {locks : CString → Option ι}
    (hheld : ∀ name t, name ∈ (s.lockers t).held ↔ locks name = some t) : s.holder = locks := by
  funext name
  refine Option.ext fun t => ?_
  rw [h.holder_eq_some, hheld]

/-- A step that leaves the names a thread has alone leaves the holders alone. -/
theorem NmtxInv.holder_update (h : NmtxInv s) (h' : NmtxInv s') {t : ι} {l : Locker}
    (hlockers : s'.lockers = Function.update s.lockers t l) (hheld : l.held = (s.lockers t).held) :
    s'.holder = s.holder := by
  refine h'.holder_eq fun name t' => ?_
  rw [h.holder_eq_some, hlockers]
  by_cases ht : t' = t
  · rw [ht, Function.update_self, hheld]
  · rw [Function.update_of_ne ht]

/-- **Named mutexes refine one lock a name.** The second step of `named_mutex_lock` takes the
lock, the second step of `named_mutex_unlock` gives it back, and no other step is seen. -/
theorem namedMutex_refines : (nmtxSystem ι).Refines (keyLocks CString ι) NmtxState.holder where
  init s h name := by
    rw [NmtxState.holder, h.1]
    rfl
  step s a s' h hs := by
    have hinv := nmtxInv_of_reachable h
    have hstep := nmtxStep_ok hs
    have hinv' := hinv.step hstep
    cases hstep with
    | lockFailed => exact .inl (hinv.holder_update hinv' rfl rfl)
    | created => exact .inl (hinv.holder_update hinv' rfl rfl)
    | joined => exact .inl (hinv.holder_update hinv' rfl rfl)
    | notFound => exact .inl (hinv.holder_update hinv' rfl rfl)
    | found => exact .inl (hinv.holder_update hinv' rfl rfl)
    | dropped => exact .inl (hinv.holder_update hinv' rfl rfl)
    | destroyed => exact .inl (hinv.holder_update hinv' rfl rfl)
    | @acquired t name e hpc he hfree =>
      have hname : name = e.name := hinv.target_name he (t := t) (by rw [hpc]; rfl)
      subst hname
      -- the lock is free: nobody has the mutex of the entry
      have hnone : s.holder e.name = none := by
        rw [NmtxState.holder, nmtxFind, cellAt_of_mem hinv.names he, Option.bind_some, hfree]
      refine .inr ⟨.acquire t e.name, ?_⟩
      rw [(hinv'.holder_eq fun name t' => ?_ :
        NmtxState.holder _ = Function.update s.holder e.name (some t))]
      · exact .acquire hnone
      · -- only this thread and this name change
        show name ∈ (Function.update s.lockers t _ t').held ↔ _
        by_cases hn : name = e.name
        · subst hn
          by_cases ht : t' = t
          · subst ht
            simp
          · rw [Function.update_of_ne ht, Function.update_self, ← hinv.holder_eq_some, hnone]
            simpa using Ne.symm ht
        · rw [Function.update_of_ne hn, hinv.holder_eq_some]
          by_cases ht : t' = t
          · subst ht
            simp [hn]
          · rw [Function.update_of_ne ht]
    | @released t name e hpc he =>
      have hname : name = e.name := hinv.target_name he (t := t) (by rw [hpc]; rfl)
      subst hname
      have hok := (hinv.lockers t).ok
      -- the thread has found the entry of a name that is its own
      have hmine : s.holder e.name = some t := hinv.holder_eq_some.mpr (hok.found _ _ hpc)
      refine .inr ⟨.release t e.name, ?_⟩
      rw [(hinv'.holder_eq fun name t' => ?_ :
        NmtxState.holder _ = Function.update s.holder e.name none)]
      · exact .release hmine
      · -- only this thread and this name change
        show name ∈ (Function.update s.lockers t _ t').held ↔ _
        by_cases hn : name = e.name
        · subst hn
          by_cases ht : t' = t
          · subst ht
            simpa using hok.once.not_mem_erase
          · rw [Function.update_of_ne ht, Function.update_self, ← hinv.holder_eq_some, hmine]
            simpa using Ne.symm ht
        · rw [Function.update_of_ne hn, hinv.holder_eq_some]
          by_cases ht : t' = t
          · subst ht
            simp [List.mem_erase_of_ne hn]
          · rw [Function.update_of_ne ht]

end Propd
