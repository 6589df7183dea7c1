import Propd.Tree.Traversal

/-!
# Removal

`RB_REMOVE` takes a node out, whose place its child takes, or its successor. The loop of
`RB_REMOVE_COLOR` then goes up as long as a subtree has lost a rank.
-/

namespace Propd

open Lib RankTree

section

variable {α : Type} [DecidableEq α] {m : RbMem α} {a b c : α} {d : Dir} {p : List (Frame α)}
  {t s x y u v : RankTree α} {long longb longc : Dir → Bool} {fuel k n : ℕ}

/-- The loop reads the word of the parent and finds the edge to the sibling, on side `d`, short and
the other one long. -/
theorem rbRemoveColorLoop_balanced {e : Dir}
    (h : IsTree m (plug p (join d a long (join e b longb x y) t))) (hd : long d = false)
    (hf : long d.flip = true) :
    (rbSide (some a) t.ptr).run m = .ok (d.flip, m) ∧ m (.up a) = some ⟨above none p, long⟩ ∧
      (⟨above none p, long⟩ : RbWord α).xor d.flip = .plain (above none p) ∧
      m (.link a d) = some (.plain (some b)) ∧ m (.up b) = some ⟨some a, longb⟩ ∧ b ≠ a := by
  obtain ⟨hau, had, -, hb, -⟩ := holds_join.mp (holds_plug.mp h.links).2
  refine ⟨?_, hau, ?_, by simpa using had, (holds_join.mp hb).1, ?_⟩
  · rw [← join_flip (d := d)] at h
    exact h.run_rbSide (by simp)
  · rw [RbWord.xor, RbWord.plain, Dir.ext_flip d (f := Function.update long d.flip _)] <;>
      simp [hd, hf]
  · rintro rfl
    simpa using (nodup_plug.mp h.nodup).1

/-- Both edges of the sibling are short, or its inner one is long. -/
theorem rbRemoveColorLoop_single
    (h : IsTree m (plug p (join d a long (join d.flip b longb x y) t))) (hp : Fits p (k + 3))
    (ht : Ranked t k) (hs : Ranked (join d.flip b longb x y) (k + 2)) (hd : long d = false)
    (hf : long d.flip = true) (hb : longb d = false) :
    Rebalances (rbRemoveColorLoop (fuel + 1) (some a) t.ptr) m
      (plug p (join d a long (join d.flip b longb x y) t)) := by
  obtain ⟨i, i', hx, hy, hi, hi', -⟩ := ranked_join.mp hs
  rw [Dir.flip_flip, hb, gap_false] at hi'
  obtain ⟨hside, hau, hxor, hlink, hbu, hba⟩ := rbRemoveColorLoop_balanced h hd hf
  have hany : (⟨some a, longb⟩ : RbWord α).xorBoth.any = true := by
    rw [RbWord.any_eq _ d]
    simp [hb]
  have hlist (l₁ l₂ l₃ l₄ : Dir → Bool) :
      (plug p (join d.flip b l₁ (join d a l₂ x t) y)).toList =
        (plug p (join d a l₃ (join d.flip b l₄ x y) t)).toList :=
    toList_plug_congr p (by rw [join_flip, join_flip, toList_rotate])
  have hbits : (⟨some a, longb⟩ : RbWord α).xor d =
      ⟨some a, Function.update (fun _ => longb d.flip) d true⟩ := by
    rw [RbWord.xor, Dir.ext_flip d (f := Function.update longb d _)] <;> simp [hb]
  cases hbf : longb d.flip with
  | true =>
    -- the parent is demoted
    obtain ⟨M, hrot, hMb, hrest⟩ :=
      h.single (.plain (above none p)) ((⟨some a, longb⟩ : RbWord α).xor d)
    obtain ⟨m', hswap, htree⟩ := hrest ((⟨some a, longb⟩ : RbWord α).xor d).bits
    refine ⟨some a, m', _, ?_, htree, hlist _ _ _ _, hp.plug ?_⟩
    · simp [rbRemoveColorLoop, hau, hside, hxor, hlink, hbu, hba, hany, hb, hbf, hrot, hMb, hswap]
    · rw [hbf, gap_true] at hi
      have ha : Ranked (join d a (fun _ => false) x t) (k + 1) :=
        ranked_join.mpr ⟨i, k, hx, ht, by simp; omega, rfl, by omega⟩
      rw [hbits]
      exact ranked_join.mpr ⟨k + 1, i', ha, hy, by simp [hbf], by simp; omega, by omega⟩
  | false =>
    obtain ⟨M, hrot, hMb, hrest⟩ := h.single ⟨above none p, long⟩ ((⟨some a, longb⟩ : RbWord α).xor d)
    rw [RbMem.setUp_self hau] at hrot
    obtain ⟨m', hswap, htree⟩ := hrest ((⟨some a, longb⟩ : RbWord α).xor d).bits
    refine ⟨some a, m', _, ?_, htree, hlist _ _ _ _, hp.plug ?_⟩
    · simp [rbRemoveColorLoop, hau, hside, hxor, hlink, hbu, hany, hb, hbf, hrot, hMb, hswap]
    · rw [hbf, gap_false] at hi
      have ha : Ranked (join d a long x t) (k + 2) :=
        ranked_join.mpr ⟨i, k, hx, ht, by simp [hd]; omega, by simp [hf], by omega⟩
      rw [hbits]
      exact ranked_join.mpr ⟨k + 2, i', ha, hy, by simp [hbf], by simp; omega, by omega⟩

/-- The outer edge of the sibling is long, and `c` behind the inner one. -/
theorem rbRemoveColorLoop_double
    (h : IsTree m (plug p (join d a long (join d b longb y (join d c longc u v)) t)))
    (hp : Fits p (k + 3)) (ht : Ranked t k)
    (hs : Ranked (join d b longb y (join d c longc u v)) (k + 2)) (hd : long d = false)
    (hf : long d.flip = true) (hb : longb d = true) (hbf : longb d.flip = false) :
    Rebalances (rbRemoveColorLoop (fuel + 1) (some a) t.ptr) m
      (plug p (join d a long (join d b longb y (join d c longc u v)) t)) := by
  obtain ⟨i, i', hy, hc, hi, hi', -⟩ := ranked_join.mp hs
  rw [hb, gap_true] at hi
  rw [hbf, gap_false] at hi'
  obtain ⟨j, j', hu, hv, hj, hj', -⟩ := ranked_join.mp hc
  obtain ⟨hside, hau, hxor, hlink, hbu, hba⟩ := rbRemoveColorLoop_balanced h hd hf
  obtain ⟨-, -, -, hlinks, -⟩ := holds_join.mp (holds_plug.mp h.links).2
  obtain ⟨-, -, hbc, -⟩ := holds_join.mp hlinks
  rw [join_ptr] at hbc
  have hany : (⟨some a, longb⟩ : RbWord α).xorBoth.any = true := by
    rw [RbWord.any_eq _ d]
    simp [hbf]
  have hnodup := (nodup_plug.mp h.nodup).1
  simp only [nodup_join, mem_join, not_or] at hnodup
  obtain ⟨⟨⟨-, -, hac, -⟩, -⟩, ⟨⟨-, hbc', -⟩, -⟩, -⟩ := hnodup
  have hca : c ≠ a := Ne.symm hac
  have hcb : c ≠ b := Ne.symm hbc'
  obtain ⟨M, hrot, hMa, hMb, hMc, hrest⟩ := h.double ⟨above none p, long⟩
  rw [RbMem.setUp_self hau] at hrot
  obtain ⟨N, hrot', hNc, hrest'⟩ := hrest
    ⟨above none p, Function.update (fun _ => false) d (longc d.flip)⟩
    (Function.update (fun _ => false) d.flip (longc d)) ⟨some b, fun _ => true⟩
  obtain ⟨m', hswap, htree⟩ := hrest' fun _ => true
  -- the bits of `a` and `b` follow those of `c`
  have hclear (e : Dir) : Function.update (fun _ : Dir => false) e false = fun _ => false :=
    Function.update_eq_self e _
  have hxor' : (⟨above none p, long⟩ : RbWord α).xorBoth =
      ⟨above none p, Function.update (fun _ => false) d true⟩ := by
    rw [RbWord.xorBoth, Dir.ext_flip d (f := fun d => !long d)] <;> simp [hd, hf]
  have hbits : (⟨some c, longb⟩ : RbWord α).xorBoth =
      ⟨some c, Function.update (fun _ => false) d.flip true⟩ := by
    rw [RbWord.xorBoth, Dir.ext_flip d (f := fun d => !longb d)] <;> simp [hb, hbf]
  have hbits' : (⟨some c, longb⟩ : RbWord α).xor d = ⟨some c, fun _ => false⟩ := by
    rw [RbWord.xor, Dir.ext_flip d (f := Function.update longb d _)] <;> simp [hb, hbf]
  have hplain : (⟨above none p, fun _ => false⟩ : RbWord α) = .plain (above none p) := rfl
  refine ⟨some a, m', _, ?_, htree, toList_plug_congr p toList_rotate_double, hp.plug ?_⟩
  · simp only [rbRemoveColorLoop, bind_pure_comp]
    cases hcf : longc d.flip <;> cases hcd : longc d <;>
      simp only [hcf, hcd, hclear, hplain] at hrot' <;>
      simp [hside, hau, hxor, hlink, hbu, hba, hany, hb, hbc, hrot, hMa, hMb, hMc, hcf, hcd, hrot',
        hNc, hswap, hxor', hbits, hbits', RbWord.orBoth, hca, hcb]
  · have hl : Ranked (join d b (Function.update (fun _ => false) d.flip (longc d)) y u) (k + 1) := by
      refine ranked_join.mpr ⟨i, j, hy, hu, by simp; omega, ?_, by omega⟩
      simp
      omega
    have hr : Ranked (join d a (Function.update (fun _ => false) d (longc d.flip)) v t) (k + 1) := by
      refine ranked_join.mpr ⟨j', k, hv, ht, ?_, by simp, by omega⟩
      simp
      omega
    exact ranked_join.mpr ⟨k + 1, k + 1, hl, hr, rfl, rfl, by omega⟩

/-- **The loop of the removal** restores the ranks. -/
theorem rbRemoveColorLoop_rebalances (h : IsTree m (plug p (join d a long t s)))
    (hfit : Fits (⟨d, a, long, s⟩ :: p) (k + 1)) (ht : Ranked t k) (hne : ¬(t = .nil ∧ s = .nil))
    (hfuel : p.length < fuel) :
    Rebalances (rbRemoveColorLoop fuel (some a) t.ptr) m (plug p (join d a long t s)) := by
  induction fuel generalizing m d a long s p t k with
  | zero => cases hfuel
  | succ fuel ih =>
    obtain ⟨j, n, hs, hk, hj, hleaf, hp⟩ := hfit
    simp only at hs hk hj
    have hside := h.run_rbSide hne
    obtain ⟨hau, -⟩ := holds_join.mp (holds_plug.mp h.links).2
    have hpos : k = 0 → j ≠ 0 := by
      rintro rfl rfl
      exact hne ⟨ht.eq_nil, hs.eq_nil⟩
    -- the rest of a run in which the rank of the parent shrinks too
    have hretry {m' : RbMem α} {T : RankTree α} (h' : IsTree m' (plug p T)) (hT : T.ptr = some a)
        (hrank : Ranked T (k + 2)) (hn : k + 3 = n)
        (hlist : (plug p T).toList = (plug p (join d a long t s)).toList)
        (hstep : (rbRemoveColorLoop (fuel + 1) (some a) t.ptr).run m =
          (if above none p = none then pure none
            else rbRemoveColorLoop fuel (above none p) (some a)).run m') :
        Rebalances (rbRemoveColorLoop (fuel + 1) (some a) t.ptr) m (plug p (join d a long t s)) := by
      cases p with
      | nil => exact ⟨none, _, _, hstep, h', hlist, _, hrank⟩
      | cons G p =>
        have h'' : IsTree m' (plug p (join G.dir G.elm G.long T G.sib)) := h'
        have hT' : T ≠ .nil := by
          rintro rfl
          cases hT
        have hrest := ih h'' (k := k + 2) (hn ▸ hp) hrank (fun hnil => hT' hnil.1) (by simpa using hfuel)
        rw [hT] at hrest
        exact hrest.of_run hstep hlist
    cases hd : long d with
    | false =>
      refine ⟨none, _, _, ?_, h.relabel (Function.update long d true), ?_, hp.plug ?_⟩
      · simp [rbRemoveColorLoop, hau, hside, hd, RbWord.xor]
      · exact toList_plug_congr p (toList_join_congr rfl rfl)
      · simp only [hd, gap_false] at hk
        exact ranked_join.mpr ⟨k, j, ht, hs, by simp; omega, by simpa using hj, by omega⟩
    | true =>
      simp only [hd, gap_true] at hk
      cases hf : long d.flip with
      | true =>
        -- the other edge is shortened
        simp only [hf, gap_true] at hj
        have hany : ((⟨above none p, long⟩ : RbWord α).xor d).any = true := by
          rw [RbWord.any_eq _ d]
          simp [RbWord.xor, hf]
        have hfalse : ((⟨above none p, long⟩ : RbWord α).xor d).bits d = false := by
          simp [RbWord.xor, hd]
        have hbits : ((⟨above none p, long⟩ : RbWord α).xor d).xorBoth =
            ⟨above none p, Function.update long d.flip false⟩ := by
          rw [RbWord.xor, RbWord.xorBoth,
            Dir.ext_flip d (f := fun e => !Function.update long d _ e)] <;> simp [hd, hf]
        have hrank : Ranked (join d a (Function.update long d.flip false) t s) (k + 2) :=
          ranked_join.mpr ⟨k, j, ht, hs, by simp [hd], by simp; omega, by omega⟩
        refine hretry (h.relabel (Function.update long d.flip false)) join_ptr hrank hk
          (toList_plug_congr p (toList_join_congr rfl rfl)) ?_
        simp [rbRemoveColorLoop, hau, hside, hfalse, hany, hbits]
      | false =>
        simp only [hf, gap_false] at hj
        cases s with
        | nil =>
          obtain rfl := ranked_nil.mp hs
          omega
        | node b longb l r =>
          obtain ⟨y, x, hs'⟩ := node_eq_join d.flip b longb l r
          rw [hs', ← join_flip] at h hretry ⊢
          rw [hs'] at hs
          obtain rfl : j = k + 2 := by omega
          rw [← hk] at hp
          cases hb : longb d.flip with
          | true =>
            cases hbf : longb d with
            | true =>
              -- the edges below of the sibling are shortened
              obtain ⟨-, -, hxor, hlink, hbu, -⟩ := rbRemoveColorLoop_balanced h hf (by simpa using hd)
              rw [Dir.flip_flip] at hxor
              have hany : (⟨some a, longb⟩ : RbWord α).xorBoth = .plain (some a) := by
                rw [RbWord.xorBoth, RbWord.plain, Dir.ext_flip d (f := fun e => !longb e)] <;>
                  simp [hb, hbf]
              obtain ⟨i, i', hy, hx, hi, hi', -⟩ := ranked_join.mp hs
              rw [Dir.flip_flip, hbf, gap_true] at hi'
              rw [hb, gap_true] at hi
              have hb' : IsTree m (plug (⟨d.flip, a, long, t⟩ :: p) (join d.flip b longb y x)) := h
              have hrank : Ranked (join d.flip a long (join d.flip b (fun _ => false) y x) t) (k + 2) :=
                ranked_join.mpr ⟨k + 1, k, ranked_join.mpr ⟨i, i', hy, hx, by simp; omega,
                  by simp; omega, by omega⟩, ht, by simp [hf], by simp [hd], by omega⟩
              refine hretry (hb'.relabel fun _ => false) join_ptr hrank hk
                (toList_plug_congr p (toList_join_congr (toList_join_congr rfl rfl) rfl)) ?_
              simp [rbRemoveColorLoop, hau, hside, hxor, hlink, hbu, hany]
              rfl
            | false =>
              cases x with
              | nil =>
                obtain ⟨i, i', -, hx, -, hi', -⟩ := ranked_join.mp hs
                obtain rfl := ranked_nil.mp hx
                simp [hbf] at hi'
              | node c longc l r =>
                obtain ⟨u, v, hx⟩ := node_eq_join d.flip c longc l r
                rw [hx] at h hs ⊢
                exact rbRemoveColorLoop_double h hp ht hs hf (by simpa using hd) hb
                  (by simpa using hbf)
          | false =>
            rw [← join_flip (a := b)] at h hs ⊢
            exact rbRemoveColorLoop_single h hp ht hs hf (by simpa using hd) hb

/-- `RB_REMOVE_COLOR`: an only child is taken from a leaf of rank 2, or the loop begins at once. -/
theorem rbRemoveColor_rebalances (h : IsTree m (plug p (join d a long t s)))
    (hfit : Fits (⟨d, a, long, s⟩ :: p) (k + 1)) (ht : Ranked t k) (hfuel : p.length < fuel) :
    Rebalances (rbRemoveColor fuel (some a) t.ptr) m (plug p (join d a long t s)) := by
  obtain ⟨hau, had, haf, -⟩ := holds_join.mp (holds_plug.mp h.links).2
  by_cases hnil : t = .nil ∧ s = .nil
  · obtain ⟨rfl, rfl⟩ := hnil
    obtain ⟨j, n, hs, hk, hj, -, hp⟩ := hfit
    obtain rfl := ranked_nil.mp ht
    obtain rfl := ranked_nil.mp hs
    have hn : n = 2 := by
      have hgap := gap_le (long d.flip)
      have hgap' := gap_pos (long d)
      simp only at hk hj
      omega
    subst hn
    have hrank : Ranked (join d a (fun _ => false) .nil .nil) 1 :=
      ranked_join.mpr ⟨0, 0, .nil, .nil, rfl, rfl, fun _ _ => rfl⟩
    have h' := h.relabel fun _ => false
    have hlist : (plug p (join d a (fun _ => false) .nil .nil)).toList =
        (plug p (join d a long .nil .nil)).toList := toList_plug_congr p (toList_join_congr rfl rfl)
    have hstep : (rbRemoveColor fuel (some a) none).run m = (if above none p = none then pure none
        else rbRemoveColorLoop fuel (above none p) (some a)).run
          (m.setUp a (.plain (above none p))) := by
      have hl : m (.link a .left) = some (.plain none) := by cases d <;> assumption
      have hr : m (.link a .right) = some (.plain none) := by cases d <;> assumption
      simp [rbRemoveColor, hau, hl, hr]
    cases p with
    | nil => exact ⟨none, _, _, hstep, h', hlist, _, hrank⟩
    | cons G p =>
      have h'' : IsTree _ (plug p (join G.dir G.elm G.long (join d a (fun _ => false) .nil .nil)
        G.sib)) := h'
      have hrest := rbRemoveColorLoop_rebalances h'' hp hrank (by simp)
        (show p.length < fuel by simp at hfuel; omega)
      rw [join_ptr] at hrest
      exact hrest.of_run hstep hlist
  · have hptr := h.ptr_ne_ptr hnil
    refine (rbRemoveColorLoop_rebalances h hfit ht hnil hfuel).of_run ?_ rfl
    cases d with
    | left =>
      have hr : m (.link a .right) = some (.plain s.ptr) := haf
      simp [rbRemoveColor, had, hr, hptr]
    | right =>
      have hl : m (.link a .left) = some (.plain s.ptr) := haf
      simp [rbRemoveColor, had, hl, hptr]

/-! ## The splice -/

/-- A child without a child of its own gets another parent. -/
theorem run_rbAdopt {up z : Option α} (ht : Ranked t k) (hk : k ≤ 1) (h : Holds m up t) :
    (rbAdopt t.ptr z).run m = .ok ((), m.reparent t.ptr z) := by
  cases t with
  | nil => rfl
  | node b long l r =>
    obtain rfl : k = 1 := Nat.le_antisymm hk (ht.pos (by simp))
    obtain ⟨c, hleaf⟩ := ht.eq_leaf
    cases hleaf
    obtain ⟨hup, -⟩ := h
    simp [rbAdopt, hup, reparent_some hup, RbWord.plain]

/-- A node with a missing child: the other child comes into its place. -/
theorem rbRemoveSplice_child (h : IsTree m (plug p (join d a long .nil t))) (ht : Ranked t k)
    (hk : k ≤ 1) :
    ∃ m', (rbRemoveSplice fuel (some a)).run m = .ok ((t.ptr, t.ptr, above none p), m') ∧
      IsTree m' (plug p t) := by
  obtain ⟨hau, hd, hf, -, hlinks⟩ := holds_join.mp (holds_plug.mp h.links).2
  obtain ⟨hnodup, -, hdisj⟩ := nodup_plug.mp h.nodup
  have hoff : SameOff (join d a long .nil t).toList m (m.reparent t.ptr (above none p)) :=
    (sameOff_reparent fun b hb => by simp [mem_of_ptr hb]).mpr (.refl _ _)
  have hswap := h.run_rbSwapChild (y := t.ptr) join_ptr (.refl _ _)
  have hchild := run_rbAdopt (z := above none p) ht hk
    (hlinks.setHole (x := t.ptr) fun b hb => hdisj (by simp [hb]))
  rw [RbMem.setHole_reparent] at hchild
  refine ⟨_, ?_, h.replace hoff (hlinks.reparent_self (nodup_join.mp hnodup).2.2.1) rfl ?_⟩
  · have hplain : (if t.ptr = none then (none : Option α) else t.ptr) = t.ptr := by
      split <;> simp_all
    cases d with
    | left =>
      have hr : m (.link a .right) = some (.plain t.ptr) := hf
      simp [rbRemoveSplice, hau, hd, hr, hplain, hswap, hchild]
    | right =>
      have hl : m (.link a .left) = some (.plain t.ptr) := hf
      simp [rbRemoveSplice, hau, hl, hd, hswap, hchild]
  · cases d <;> simp [join, toList]

/-- The successor is the right child. -/
theorem rbRemoveSplice_right (fuel : ℕ)
    (h : IsTree m (plug p (join .right a long (join .left b longb .nil t) s))) (hs : s ≠ .nil)
    (ht : Ranked t k) (hk : k ≤ 1) :
    ∃ m', (rbRemoveSplice (fuel + 1) (some a)).run m = .ok ((some b, t.ptr, some b), m') ∧
      IsTree m' (plug p (join .right b long t s)) := by
  obtain ⟨hau, har, hal, hb, hsl⟩ := holds_join.mp (holds_plug.mp h.links).2
  obtain ⟨hbu, hbl, hbr, -, htl⟩ := holds_join.mp hb
  rw [join_ptr] at har
  rw [ptr_nil] at hbl
  rw [Dir.flip_right] at hal
  rw [Dir.flip_left] at hbr
  obtain ⟨hnodup, -, hdisj⟩ := nodup_plug.mp h.nodup
  simp only [nodup_join, mem_join, not_or] at hnodup
  obtain ⟨⟨⟨hab, -, hat⟩, has⟩, ⟨⟨-, hbt⟩, -, htn, -⟩, hsn, hbs⟩ := hnodup
  have hbs' : b ∉ s.toList := hbs (by simp)
  have hts : t.toList.Disjoint s.toList := fun c hc => hbs (by simp [hc])
  have hoff : SameOff (join .right a long (join .left b longb .nil t) s).toList m
      ((((m.reparent s.ptr (some b)).setLink b .left s.ptr).setUp b ⟨above none p, long⟩).reparent
        t.ptr (some b)) := by
    rw [sameOff_reparent, sameOff_setUp (by simp), sameOff_setLink (by simp), sameOff_reparent]
    · exact .refl _ _
    · exact fun c hc => by simp [mem_of_ptr hc]
    · exact fun c hc => by simp [mem_of_ptr hc]
  have hoff' : SameOff (join .right a long (join .left b longb .nil t) s).toList m
      (((m.reparent s.ptr (some b)).setLink b .left s.ptr).setUp b ⟨above none p, long⟩) := by
    rw [sameOff_setUp (by simp), sameOff_setLink (by simp), sameOff_reparent]
    · exact .refl _ _
    · exact fun c hc => by simp [mem_of_ptr hc]
  have hswap := h.run_rbSwapChild (y := some b) join_ptr hoff'
  have htM : Holds (((m.reparent s.ptr (some b)).setLink b .left s.ptr).setUp b ⟨above none p, long⟩)
      (some b) t := by
    rw [holds_setUp hbt, holds_setLink hbt, holds_reparent]
    · exact htl
    · exact ptr_notMem (List.disjoint_comm.mp hts)
  have hchild := run_rbAdopt (z := some b) ht hk
    (htM.setHole (p := p) (x := some b) fun c hc => hdisj (by simp [hc]))
  rw [RbMem.setHole_reparent] at hchild
  refine ⟨_, ?_, h.replace hoff ?_ join_ptr ?_⟩
  · cases s with
    | nil => exact absurd rfl hs
    | node c longc l r =>
      have hcu := hsl.1
      have hbc : b ≠ c := by
        rintro rfl
        exact hbs' (by simp [toList])
      have hfar : (rbFarthest .left (fuel + 1) (some b)).run m = .ok (some b, m) := by
        simp [rbFarthest, hbl]
      rw [ptr_node] at hal
      rw [ptr_node, reparent_some hcu] at hswap hchild
      rw [ptr_node, reparent_some hcu]
      simp [rbRemoveSplice, hau, hal, har, hfar, hcu, hbc, hbu, hbl, hbr, hswap, hchild]
  · rw [holds_join, holds_reparent (ptr_notMem hts), holds_setUp hbs', holds_setLink hbs']
    exact ⟨by simp [RbMem.reparent_up, ptr_ne hbt], by simpa using hbr, by simp,
      htM.reparent_self htn, hsl.reparent_self hsn⟩
  · simp [join, toList]

/-- The successor is below of the right child. -/
theorem rbRemoveSplice_below {G : Frame α} {q : List (Frame α)}
    (h : IsTree m (plug p (join .right a long (plug (G :: q) (join .left b longb .nil t)) s)))
    (hs : s ≠ .nil) (ht : Ranked t k) (hk : k ≤ 1) (hq : ∀ F ∈ G :: q, F.dir = .left)
    (hfar : (rbFarthest .left fuel (plug (G :: q) (join .left b longb .nil t)).ptr).run m =
      .ok (some b, m)) :
    ∃ m', (rbRemoveSplice fuel (some a)).run m = .ok ((some b, t.ptr, some G.elm), m') ∧
      IsTree m' (plug p (join .right b long (plug (G :: q) t) s)) := by
  obtain ⟨hau, har, hal, hr, hsl⟩ := holds_join.mp (holds_plug.mp h.links).2
  obtain ⟨hway, hb⟩ := holds_plug.mp hr
  obtain ⟨hbu, hbl, hbr, -, htl⟩ := holds_join.mp hb
  rw [join_ptr] at hway
  rw [ptr_nil] at hbl
  rw [Dir.flip_right] at hal
  rw [Dir.flip_left] at hbr
  obtain ⟨hnodup, -, hdisj⟩ := nodup_plug.mp h.nodup
  obtain ⟨⟨har', has⟩, hrn, hsn, hrs⟩ := nodup_join.mp hnodup
  obtain ⟨hbn, hqn, hbq⟩ := nodup_plug.mp hrn
  obtain ⟨⟨-, hbt⟩, -, htn, -⟩ := nodup_join.mp hbn
  obtain ⟨c, hcq, hc⟩ := exists_plug_ptr G q (join .left b longb .nil t)
  obtain ⟨longc, hcu⟩ := hr.exists_up hc
  have hc' : (plug (G :: q) t).ptr = some c := (plug_ptr_cons G q _ _).trans hc
  obtain ⟨e, hes⟩ : ∃ e, s.ptr = some e := Option.ne_none_iff_exists'.mp (mt ptr_eq_none.mp hs)
  obtain ⟨longe, heu⟩ := hsl.exists_up hes
  have hrmem : ∀ c, (c = b ∨ c ∈ t.toList) ∨ c ∈ nodes (G :: q) →
      c ∈ (plug (G :: q) (join .left b longb .nil t)).toList := fun c hc => by
    rw [(toList_plug_perm _ _).mem_iff, List.mem_append, mem_join]
    simpa [toList] using hc
  have hbR := hrmem b (by simp)
  have hbs : b ∉ s.toList := hrs hbR
  have hGq : G.elm ∈ nodes (G :: q) := by simp [nodes]
  have hbnq : b ∉ nodes (G :: q) := hbq (by simp)
  have hGb : G.elm ≠ b := fun hGb => hbnq (hGb ▸ hGq)
  have hcb : c ≠ b := fun hcb => hbnq (hcb ▸ hcq)
  have hbe : b ≠ e := fun hbe => hbs (hbe ▸ mem_of_ptr hes)
  have hce : c ≠ e := fun hce => hrs (hrmem c (.inr hcq)) (hce ▸ mem_of_ptr hes)
  have hts : t.toList.Disjoint s.toList := fun x hx => hrs (hrmem x (.inl (.inr hx)))
  have hqs : (nodes (G :: q)).Disjoint s.toList := fun x hx => hrs (hrmem x (.inr hx))
  have htq : t.toList.Disjoint (nodes (G :: q)) := fun x hx => hbq (by simp [hx])
  obtain ⟨hGdir, hqdir⟩ := List.forall_mem_cons.mp hq
  obtain ⟨hGu, hGl, -⟩ := hway
  rw [hGdir] at hGl
  have hrun : (rbRemoveSplice fuel (some a)).run m = (do
      rbSwapChild (above none p) (some a) (some b)
      rbAdopt t.ptr (some G.elm)
      return (some b, t.ptr, some G.elm) : RbM α _).run
        ((((((m.reparent s.ptr (some b)).setLink b .left s.ptr).reparent (some c)
          (some b)).setLink b .right (some c)).setLink G.elm .left t.ptr).setUp b
            ⟨above none p, long⟩) := by
    rw [hc] at har hfar
    rw [hes] at hal
    rw [hes, reparent_some heu, reparent_some (by simpa [hce] using hcu)]
    simp [rbRemoveSplice, hau, har, hal, hfar, hcu, hbu, hbl, hbr, hGl, heu, hbe, hce, hcb, hGb,
      Ne.symm hcb]
  have hoff : SameOff (join .right a long (plug (G :: q) (join .left b longb .nil t)) s).toList m
      ((((((m.reparent s.ptr (some b)).setLink b .left s.ptr).reparent (some c)
        (some b)).setLink b .right (some c)).setLink G.elm .left t.ptr).setUp b
          ⟨above none p, long⟩) := by
    have hsub : ∀ x ∈ (plug (G :: q) (join .left b longb .nil t)).toList,
        x ∈ (join .right a long (plug (G :: q) (join .left b longb .nil t)) s).toList :=
      fun x hx => mem_join.mpr (.inr (.inl hx))
    rw [sameOff_setUp (hsub b hbR), sameOff_setLink (hsub _ (hrmem _ (.inr hGq))),
      sameOff_setLink (hsub b hbR), sameOff_reparent, sameOff_setLink (hsub b hbR),
      sameOff_reparent]
    · exact .refl _ _
    · exact fun x hx => mem_join.mpr (.inr (.inr (mem_of_ptr hx)))
    · simpa using hsub c (hrmem c (.inr hcq))
  -- `M` is the memory in which only the links to the two moved nodes are missing
  obtain ⟨M, hM⟩ : ∃ M, M = (((((m.reparent s.ptr (some b)).setLink b .left s.ptr).reparent (some c)
    (some b)).setLink b .right (some c)).setLink G.elm .left t.ptr).setUp b ⟨above none p, long⟩ :=
    ⟨_, rfl⟩
  rw [← hM] at hrun hoff
  have htM : Holds M (some b) t := by
    rw [hM, holds_setUp hbt, holds_setLink fun hx => htq hx hGq, holds_setLink hbt,
      holds_reparent, holds_setLink hbt, holds_reparent (ptr_notMem (List.disjoint_comm.mp hts))]
    · exact htl
    · simpa using fun hx => htq hx hcq
  have hsM : Holds M (some b) s := by
    rw [hM, holds_setUp hbs, holds_setLink fun hx => hqs hGq hx, holds_setLink hbs,
      holds_reparent, holds_setLink hbs]
    · exact hsl.reparent_self hsn
    · simpa using fun hx => hqs hcq hx
  have hqM : Way M (some b) (G :: q) t.ptr := by
    -- the root of the subtree gets its new parent, whatever else is written to `b`
    have hroot := hr.reparent_self hrn (y := some b)
    rw [hc] at hroot
    have hwayR := (holds_plug.mp hroot).1
    have hway' : Way ((((m.reparent s.ptr (some b)).setLink b .left s.ptr).reparent (some c)
        (some b)).setLink b .right (some c)) (some b) (G :: q) (some b) := by
      rw [join_ptr] at hwayR
      refine hwayR.congr (fun x hx => ?_) fun x hx e => ?_
      · simp [RbMem.reparent_up, ptr_ne fun hxs => hqs hx hxs]
      · have hxb : x ≠ b := fun hxb => hbnq (hxb ▸ hx)
        simp [hxb]
    have hhole := hway'.setHole hqn (y := t.ptr)
    rw [RbMem.setHole, hGdir] at hhole
    rw [hM]
    refine hhole.congr (fun x hx => ?_) fun _ _ _ => rfl
    rw [RbMem.setUp_up, if_neg]
    rintro rfl
    exact hbnq hx
  have hchild := run_rbAdopt (z := some G.elm) ht hk
    (htM.setHole (p := p) (x := some b) fun x hx =>
      hdisj (mem_join.mpr (.inr (.inl (hrmem x (by simp [hx]))))))
  rw [RbMem.setHole_reparent] at hchild
  have hoff' : SameOff (join .right a long (plug (G :: q) (join .left b longb .nil t)) s).toList m
      (M.reparent t.ptr (some G.elm)) := by
    rw [sameOff_reparent]
    · exact hoff
    · exact fun x hx => mem_join.mpr (.inr (.inl (hrmem x (by simp [mem_of_ptr hx]))))
  refine ⟨_, ?_, h.replace hoff' ?_ join_ptr ?_⟩
  · rw [hrun]
    simp [h.run_rbSwapChild (y := some b) join_ptr hoff, hchild]
  · rw [holds_join, holds_reparent (ptr_notMem hts), holds_plug]
    have hofft : SameOff t.toList M (M.reparent t.ptr (some G.elm)) :=
      (sameOff_reparent fun x hx => mem_of_ptr hx).mpr (.refl _ _)
    refine ⟨?_, ?_, ?_, ⟨hofft.way hqM htq, htM.reparent_self htn⟩, hsM⟩
    · simp [RbMem.reparent_up, ptr_ne hbt, hM]
    · simp [hc', hM, Ne.symm hGb]
    · simp [hM, Ne.symm hGb]
  · simp [join, toList, toList_plug, before_eq_nil hq]

/-- **The splice** takes the node out; where a rank is lost, the tree fits but for that. -/
theorem rbRemoveSplice_spec (h : IsTree m t) (hrank : Ranked t n) (ha : a ∈ t.toList)
    (hfuel : t.height ≤ fuel) :
    ∃ m' inn P c k, (rbRemoveSplice fuel (some a)).run m = .ok ((inn, c.ptr, above none P), m') ∧
      IsTree m' (plug P c) ∧ Fits P (k + 1) ∧ Ranked c k ∧
      (plug P c).toList = t.toList.erase a ∧ P.length ≤ fuel := by
  obtain ⟨p, long, l, r, rfl⟩ := exists_plug ha
  have herase := erase_plug h.nodup
  have hheight := length_le_height p (.node a long l r)
  simp only [height] at hheight
  by_cases hl : l = .nil
  · obtain rfl := hl
    obtain ⟨k₀, hp, hk₀⟩ := fits_of_plug hrank
    obtain ⟨k, rfl, hk, hr⟩ := ranked_join_nil (d := .left) hk₀
    obtain ⟨m', hrun, htree⟩ := rbRemoveSplice_child (d := .left) h hr hk
    refine ⟨m', _, p, r, k, hrun, htree, hp, hr, ?_, by omega⟩
    rw [herase]
    simp [toList_plug, toList]
  by_cases hr : r = .nil
  · obtain rfl := hr
    obtain ⟨k₀, hp, hk₀⟩ := fits_of_plug hrank
    obtain ⟨k, rfl, hk, hl'⟩ := ranked_join_nil (d := .right) hk₀
    obtain ⟨m', hrun, htree⟩ := rbRemoveSplice_child (d := .right) h hl' hk
    refine ⟨m', _, p, l, k, hrun, htree, hp, hl', ?_, by omega⟩
    rw [herase]
    simp [toList_plug, toList]
  · obtain ⟨-, -, -, -, hlinks⟩ := (holds_plug.mp h.links).2
    obtain ⟨q, b, longb, c, rfl, hq, hfar⟩ :=
      rbFarthest_spec (d := .left) hlinks hr (show r.height ≤ fuel by omega)
    have hwhole : plug p (.node a long l (plug q (join .left b longb .nil c))) =
        plug (q ++ ⟨.right, a, long, l⟩ :: p) (join .left b longb .nil c) := by
      rw [plug_append]
      rfl
    have hlen := length_le_height (q ++ ⟨.right, a, long, l⟩ :: p) (join .left b longb .nil c)
    rw [← hwhole, List.length_append, List.length_cons] at hlen
    have hlen' : (q ++ ⟨.right, b, long, l⟩ :: p).length ≤ fuel := by
      rw [List.length_append, List.length_cons]
      omega
    rw [hwhole] at hrank
    obtain ⟨k₀, hp, hk₀⟩ := fits_of_plug hrank
    obtain ⟨k, rfl, hk, hc⟩ := ranked_join_nil (d := .left) hk₀
    have hplug : plug (q ++ ⟨.right, b, long, l⟩ :: p) c = plug p (join .right b long (plug q c) l) := by
      rw [plug_append]
      rfl
    have hlist : (plug (q ++ ⟨.right, b, long, l⟩ :: p) c).toList =
        (plug p (.node a long l (plug q (join .left b longb .nil c)))).toList.erase a := by
      rw [herase, hplug]
      simp [toList_plug, toList, join, before_eq_nil hq]
    cases q with
    | nil =>
      obtain ⟨fuel, rfl⟩ : ∃ f, fuel = f + 1 := ⟨fuel - 1, by omega⟩
      obtain ⟨m', hrun, htree⟩ := rbRemoveSplice_right fuel h hl hc hk
      exact ⟨m', _, _, c, k, hrun, htree, hp.rename (q := []), hc, hlist, hlen'⟩
    | cons G q =>
      obtain ⟨m', hrun, htree⟩ := rbRemoveSplice_below h hl hc hk hq hfar
      rw [← hplug] at htree
      exact ⟨m', _, _, c, k, hrun, htree, hp.rename, hc, hlist, hlen'⟩

/-- **`RB_REMOVE`** takes the node out of the tree. -/
theorem rbRemove_spec (h : IsTree m t) (hrank : Ranked t n) (ha : a ∈ t.toList)
    (hfuel : t.height ≤ fuel) :
    ∃ m' t', (rbRemove fuel (some a)).run m = .ok ((), m') ∧ IsTree m' t' ∧ (∃ n, Ranked t' n) ∧
      t'.toList = t.toList.erase a := by
  obtain ⟨m₁, inn, P, c, k, hsplice, htree, hfit, hrank', hlist, hlen⟩ :=
    rbRemoveSplice_spec h hrank ha hfuel
  cases P with
  | nil =>
    refine ⟨m₁, c, ?_, htree, ⟨k, hrank'⟩, hlist⟩
    exact (bind_run hsplice).trans rfl
  | cons F P =>
    have htree' : IsTree m₁ (plug P (join F.dir F.elm F.long c F.sib)) := htree
    obtain ⟨r, m', t', hcolor, htree'', hlist', hrank''⟩ :=
      rbRemoveColor_rebalances htree' hfit hrank' hlen
    refine ⟨m', t', ?_, htree'', hrank'', hlist'.trans hlist⟩
    -- the parent that is looked at in the end is still in the tree
    have hF : F.elm ∈ t'.toList := by
      rw [hlist', (toList_plug_perm P _).mem_iff]
      simp
    obtain ⟨⟨w, hup⟩, hlink⟩ := htree''.links.exists_links hF
    obtain ⟨x, hx⟩ := hlink .left
    rw [above_cons] at hsplice
    by_cases hinn : some F.elm = inn
    · subst hinn
      cases x <;> simp [rbRemove, hsplice, hcolor, hx, hup]
    · simp [rbRemove, hsplice, hcolor, hinn]

end

end Propd
