import Propd.Tree.Shape

/-!
# Links and rotations

What the macros for one link do, and what the rotations that restore the balance do. A single one
lifts the child `e` of `a`, a double one the grandchild `c` on the inner side; the bits are free, as
the insertion and the removal choose them differently.
-/

namespace Propd

open Lib RankTree

section

variable {α β γ : Type} {m : RbMem α} {a : α} {d : Dir} {w w' : RbWord α} {x y : Option α}
  {p : List (Frame α)}

@[simp] theorem pure_eq_ok (b : β) : (pure b : Except RbFault β) = .ok b := rfl

@[simp] theorem ok_bind (b : β) (f : β → Except RbFault γ) : (Except.ok b >>= f) = f b := rfl

theorem bind_run {f : RbM α β} {g : β → RbM α γ} {b : β} {m' : RbMem α}
    (h : f.run m = .ok (b, m')) : (f >>= g).run m = (g b).run m' := by
  rw [StateT.run_bind, h, ok_bind]

@[simp] theorem run_node : (node (some a) : RbM α α).run m = .ok (a, m) := rfl

@[simp] theorem run_load {l : RbLoc α} (h : m l = some w) : (load l).run m = .ok (w, m) := by
  simp [load, StateT.run, h]

@[simp] theorem run_asPtr_plain : (asPtr (.plain x)).run m = .ok (x, m) := rfl

theorem run_asPtr (h : w.any = false) : (asPtr w).run m = .ok (w.ptr, m) := by
  simp [asPtr, h]

@[simp] theorem run_rbUp (h : m (.up a) = some w) : (rbUp (some a)).run m = .ok (w, m) := by
  simp [rbUp, h]

@[simp] theorem run_rbParent (h : m (.up a) = some w) :
    (rbParent (some a)).run m = .ok (w.ptr, m) := by
  simp [rbParent, h]

@[simp] theorem run_rbLink (h : m (.link a d) = some (.plain x)) :
    (rbLink (some a) d).run m = .ok (x, m) := by
  simp [rbLink, h]

variable [DecidableEq α]

theorem run_store {l : RbLoc α} (h : m l = some w') :
    (store l w).run m = .ok ((), Function.update m l (some w)) := by
  simp [store, StateT.run, h]

@[simp] theorem run_rbSetUp (h : m (.up a) = some w') :
    (rbSetUp (some a) w).run m = .ok ((), m.setUp a w) := by
  simp [rbSetUp, run_store h, RbMem.setUp]

@[simp] theorem run_rbModUp {f : RbWord α → RbWord α} (h : m (.up a) = some w) :
    (rbModUp (some a) f).run m = .ok ((), m.setUp a (f w)) := by
  simp [rbModUp, h]

@[simp] theorem run_rbSetLink (h : m (.link a d) = some w) :
    (rbSetLink (some a) d x).run m = .ok ((), m.setLink a d x) := by
  simp [rbSetLink, run_store h, RbMem.setLink]

@[simp] theorem run_rbSetParent (h : m (.up a) = some w) :
    (rbSetParent (some a) x).run m = .ok ((), m.setUp a ⟨x, w.bits⟩) := by
  simp [rbSetParent, h]

theorem reparent_some (h : m (.up a) = some w) :
    m.reparent (some a) x = m.setUp a ⟨x, w.bits⟩ := by
  simp [RbMem.reparent, h, RbMem.setUp]

/-- A rotation: `x` moves from `c` to `a`, and `a` below of `c`. -/
theorem run_rbRotate {c : α} {t : RankTree α} {up : Option α}
    (hx : m (.link c d) = some (.plain t.ptr)) (ht : Holds m up t) (hat : a ∉ t.toList)
    (ha : m (.up a) = some w) (hlink : m (.link a d.flip) = some w') :
    (rbRotate (some a) (some c) d).run m = .ok ((), m.rotate a c d t.ptr w.bits) := by
  cases t with
  | nil => simp [rbRotate, RbMem.rotate, RbMem.reparent, hx, ha, hlink]
  | node b long l r =>
    have hb := ht.1
    have hab : a ≠ b := fun hab => hat (by simp [hab, toList])
    rw [RbMem.rotate, ptr_node, reparent_some (by simpa using hb)]
    simp [rbRotate, hx, ha, hlink, hb, hab]

@[simp] theorem run_store_hole (h : m (hole p) = some w) :
    (store (hole p) (.plain x)).run m = .ok ((), m.setHole p x) := by
  rw [run_store h]
  cases p <;> rfl

theorem IsTree.run_rbSwapChild {m' : RbMem α} {t : RankTree α} (h : IsTree m (plug p t))
    (ht : t.ptr = some a) (hoff : SameOff t.toList m m') :
    (rbSwapChild (above none p) (some a) y).run m' = .ok ((), m'.setHole p y) := by
  obtain ⟨hp, -⟩ := holds_plug.mp h.links
  obtain ⟨-, -, hdisj⟩ := nodup_plug.mp h.nodup
  have hroot := hoff.root_eq.trans h.root
  have hp := hoff.way hp hdisj
  cases p with
  | nil => simp [rbSwapChild, above, run_store hroot, RbMem.setHole]
  | cons F p =>
    obtain ⟨-, hd, hf, -, -⟩ := hp
    rw [ht] at hd
    -- the other child is none of the nodes in the place
    have hsib : F.sib.ptr ≠ some a := fun hsib =>
      hdisj (mem_of_ptr ht) (by simp [nodes, mem_of_ptr hsib])
    cases hdir : F.dir with
    | left =>
      rw [hdir] at hd
      simp [rbSwapChild, above, hd, RbMem.setHole, hdir]
    | right =>
      rw [hdir] at hd hf
      have hl : m' (.link F.elm .left) = some (.plain F.sib.ptr) := hf
      simp [rbSwapChild, above, hl, hd, RbMem.setHole, hdir, Ne.symm hsib]

theorem IsTree.run_rbSide {t t' : RankTree α} {long : Dir → Bool}
    (h : IsTree m (plug p (join d a long t t'))) (hne : ¬(t = .nil ∧ t' = .nil)) :
    (rbSide (some a) t.ptr).run m = .ok (d, m) := by
  have hptr := h.ptr_ne_ptr hne
  obtain ⟨-, hd, hf, -⟩ := holds_join.mp (holds_plug.mp h.links).2
  cases d with
  | left =>
    have hr : m (.link a .right) = some (.plain t'.ptr) := hf
    simp [rbSide, hr, hptr]
  | right => simp [rbSide, hd]

/-! ## Rotations -/

variable {m : RbMem α} {e c : α} {x y t u v : RankTree α} {long longe longc : Dir → Bool}

/-- **A single rotation.** -/
theorem IsTree.single (h : IsTree m (plug p (join d a long (join d.flip e longe x y) t)))
    (wa we : RbWord α) :
    ∃ M, (rbRotate (some a) (some e) d.flip).run ((m.setUp a wa).setUp e we) = .ok ((), M) ∧
      M (.up e) = some we ∧
      ∀ bits, ∃ m', (rbSwapChild (above none p) (some a) (some e)).run
          (M.setUp e ⟨above none p, bits⟩) = .ok ((), m') ∧
        IsTree m' (plug p (join d.flip e bits (join d a wa.bits x t) y)) := by
  have hlinks := (holds_plug.mp h.links).2
  simp only [holds_join, join_ptr, Dir.flip_flip] at hlinks
  obtain ⟨hau, had, haf, ⟨heu, hed, hef, hx, hy⟩, ht⟩ := hlinks
  have hnodup := (nodup_plug.mp h.nodup).1
  simp only [nodup_join, mem_join, not_or] at hnodup
  obtain ⟨⟨⟨hae, hax, hay⟩, hat⟩, ⟨⟨hex, hey⟩, hxn, -, hxy⟩, htn, hdisj⟩ := hnodup
  have hea : e ≠ a := Ne.symm hae
  have hxt : x.toList.Disjoint t.toList := fun b hb => hdisj (by simp [hb])
  have het : e ∉ t.toList := hdisj (by simp)
  have hx' : Holds ((m.setUp a wa).setUp e we) (some e) x := by simpa [hex, hax] using hx
  refine ⟨_, run_rbRotate (w := wa) hed hx' hax (by simp [hae]) (by simpa using had), ?_, ?_⟩
  · rw [RbMem.rotate_up_of_ne hea (ptr_ne hex)]
    simp
  · intro bits
    have hoff : SameOff (join d a long (join d.flip e longe x y) t).toList m
        ((((m.setUp a wa).setUp e we).rotate a e d.flip x.ptr wa.bits).setUp e
          ⟨above none p, bits⟩) := by
      refine (sameOff_setUp (by simp)).mpr
        ((sameOff_rotate (by simp) (by simp) fun b hb => ?_).mpr ?_)
      · simp [mem_of_ptr hb]
      · exact (sameOff_setUp (by simp)).mpr ((sameOff_setUp (by simp)).mpr (.refl _ _))
    refine ⟨_, h.run_rbSwapChild join_ptr hoff, h.replace hoff ?_ join_ptr ?_⟩
    · have hdown : Holds (((m.setUp a wa).setUp e we).rotate a e d.flip x.ptr wa.bits) (some e)
          (join d.flip.flip a wa.bits x t) := by
        refine holds_rotate_join hx' (by simpa [het, hat] using ht) haf ?_ ?_
        · simp [hax, hat, hxn, htn, hxt]
        · simp [hea, hex, het]
      rw [Dir.flip_flip] at hdown
      rw [holds_join, Dir.flip_flip, holds_setUp hey, holds_rotate hay hey (ptr_notMem hxy),
        holds_setUp hey, holds_setUp hay, holds_setUp (by simp [hea, hex, het])]
      exact ⟨by simp, by simp, by simp [hea, hef], hdown, hy⟩
    · rw [join_flip, join_flip, toList_rotate]

/-- **A double rotation.** -/
theorem IsTree.double
    (h : IsTree m (plug p (join d a long (join d e longe x (join d c longc u v)) t)))
    (w : RbWord α) :
    ∃ M₁, (rbRotate (some e) (some c) d).run (m.setUp a w) = .ok ((), M₁) ∧
      M₁ (.up a) = some w ∧ M₁ (.up e) = some ⟨some c, longe⟩ ∧ M₁ (.up c) = some ⟨some e, longc⟩ ∧
      ∀ wa be wc, ∃ M₂, (rbRotate (some a) (some c) d.flip).run
          (((M₁.setUp a wa).setUp e ⟨some c, be⟩).setUp c wc) = .ok ((), M₂) ∧
        M₂ (.up c) = some wc ∧
        ∀ bits, ∃ m', (rbSwapChild (above none p) (some a) (some c)).run
            (M₂.setUp c ⟨above none p, bits⟩) = .ok ((), m') ∧
          IsTree m' (plug p (join d c bits (join d e be x u) (join d a wa.bits v t))) := by
  have hlinks := (holds_plug.mp h.links).2
  simp only [holds_join, join_ptr] at hlinks
  obtain ⟨hau, had, haf, ⟨heu, hed, hef, hx, hcu, hcd, hcf, hu, hv⟩, ht⟩ := hlinks
  have hnodup := (nodup_plug.mp h.nodup).1
  simp only [nodup_join, mem_join, not_or] at hnodup
  obtain ⟨⟨⟨hae, hax, hac, hanu, hanv⟩, hat⟩, ⟨⟨hex, hec, henu, henv⟩, hxn,
    ⟨⟨hcnu, hcnv⟩, hun, hvn, huv⟩, hxc⟩, htn, hdisj⟩ := hnodup
  have hea : e ≠ a := Ne.symm hae
  have hca : c ≠ a := Ne.symm hac
  have hce : c ≠ e := Ne.symm hec
  have het : e ∉ t.toList := hdisj (by simp)
  have hct : c ∉ t.toList := hdisj (by simp)
  have hcx : c ∉ x.toList := fun hc => hxc hc (by simp)
  have hux : u.toList.Disjoint x.toList := fun b hb hb' => hxc hb' (by simp [hb])
  have hvx : v.toList.Disjoint x.toList := fun b hb hb' => hxc hb' (by simp [hb])
  have hut : u.toList.Disjoint t.toList := fun b hb => hdisj (by simp [hb])
  have hvt : v.toList.Disjoint t.toList := fun b hb => hdisj (by simp [hb])
  have hu' : Holds (m.setUp a w) (some c) u := (holds_setUp hanu).mpr hu
  -- `u` comes below of `e`, and `e` below of `c`
  have hdown : Holds ((m.setUp a w).rotate e c d u.ptr longe) (some c)
      (join d.flip e longe u x) := by
    refine holds_rotate_join hu' ((holds_setUp hax).mpr hx) hed ?_ ?_
    · simp [henu, hex, hun, hxn, hux]
    · simp [hce, hcnu, hcx]
  have hvM : Holds ((m.setUp a w).rotate e c d u.ptr longe) (some c) v := by
    rw [holds_rotate henv hcnv (ptr_notMem huv), holds_setUp hanv]
    exact hv
  refine ⟨_, run_rbRotate (w := ⟨some a, longe⟩) hcd hu' henu (by simp [hea, heu]) hef, ?_,
    by simp, ?_, ?_⟩
  · rw [RbMem.rotate_up_of_ne hae (ptr_ne hanu)]
    simp
  · rw [RbMem.rotate_up_of_ne hce (ptr_ne hcnu)]
    simp [hca, hcu]
  have hoffM : SameOff (join d a long (join d e longe x (join d c longc u v)) t).toList m
      ((m.setUp a w).rotate e c d u.ptr longe) := by
    refine (sameOff_rotate (by simp) (by simp) fun b hb => ?_).mpr ?_
    · simp [mem_of_ptr hb]
    · exact (sameOff_setUp (by simp)).mpr (.refl _ _)
  have htM : Holds ((m.setUp a w).rotate e c d u.ptr longe) (some a) t := by
    rw [holds_rotate het hct (ptr_notMem hut), holds_setUp hat]
    exact ht
  obtain ⟨hlad, hlaf, hlcd, hlcf⟩ :
      (((m.setUp a w).rotate e c d u.ptr longe) (.link a d) = some (.plain (some e)) ∧
      ((m.setUp a w).rotate e c d u.ptr longe) (.link a d.flip) = some (.plain t.ptr) ∧
      ((m.setUp a w).rotate e c d u.ptr longe) (.link c d) = some (.plain (some e)) ∧
      ((m.setUp a w).rotate e c d u.ptr longe) (.link c d.flip) = some (.plain v.ptr)) := by
    simp [hae, hac, hce, had, haf, hcf]
  generalize (m.setUp a w).rotate e c d u.ptr longe = M at hdown hvM htM hoffM hlad hlaf hlcd hlcf
  intro wa be wc
  have hvN : Holds (((M.setUp a wa).setUp e ⟨some c, be⟩).setUp c wc) (some c) v := by
    rw [holds_setUp hcnv, holds_setUp henv, holds_setUp hanv]
    exact hvM
  have htN : Holds (((M.setUp a wa).setUp e ⟨some c, be⟩).setUp c wc) (some a) t := by
    rw [holds_setUp hct, holds_setUp het, holds_setUp hat]
    exact htM
  refine ⟨_, run_rbRotate (w := wa) hlcf hvN hanv (by simp [hae, hac]) (by simpa using hlad),
    ?_, ?_⟩
  · rw [RbMem.rotate_up_of_ne hca (ptr_ne hcnv)]
    simp
  intro bits
  have hoff : SameOff (join d a long (join d e longe x (join d c longc u v)) t).toList m
      (((((M.setUp a wa).setUp e ⟨some c, be⟩).setUp c wc).rotate a c d.flip v.ptr wa.bits).setUp c
        ⟨above none p, bits⟩) := by
    refine (sameOff_setUp (by simp)).mpr
      ((sameOff_rotate (by simp) (by simp) fun b hb => ?_).mpr ?_)
    · simp [mem_of_ptr hb]
    · rw [sameOff_setUp (by simp), sameOff_setUp (by simp), sameOff_setUp (by simp)]
      exact hoffM
  refine ⟨_, h.run_rbSwapChild join_ptr hoff, h.replace hoff ?_ join_ptr ?_⟩
  · have hright : Holds ((((M.setUp a wa).setUp e ⟨some c, be⟩).setUp c wc).rotate a c d.flip v.ptr
        wa.bits) (some c) (join d.flip.flip a wa.bits v t) := by
      refine holds_rotate_join hvN htN (by simpa using hlaf) ?_ ?_
      · simp [hanv, hat, hvn, htn, hvt]
      · simp [hca, hcnv, hct]
    have hleft : Holds ((((M.setUp a wa).setUp e ⟨some c, be⟩).setUp c wc).rotate a c d.flip v.ptr
        wa.bits) (some c) (join d e be x u) := by
      rw [join_flip, holds_join] at hdown
      obtain ⟨-, hed, hef, hx, hu⟩ := hdown
      rw [holds_join, holds_rotate hax hcx (ptr_notMem hvx),
        holds_rotate hanu hcnu (ptr_notMem (List.disjoint_comm.mp huv)),
        RbMem.rotate_up_of_ne hea (ptr_ne henv)]
      simpa [hce, hec, hae, hcx, hex, hax, hcnu, henu, hanu, hea, hx, hu, hed] using hef
    rw [Dir.flip_flip] at hright
    rw [holds_join, holds_setUp, holds_setUp]
    · exact ⟨by simp, by simp [hca, hlcd], by simp, hleft, hright⟩
    · simp [hca, hcnv, hct]
    · simp [hce, hcx, hcnu]
  · rw [toList_rotate_double]

end

end Propd
