import Propd.Tree.Rotation

/-!
# Insertion

`RB_INSERT` puts the new node below of the last one of its descent, and `RB_INSERT_COLOR` goes up as
long as a subtree has grown. What the comment in its source says of `child` is the invariant `Grown`:
the variable has a value whenever it is read.
-/

namespace Propd

open Lib RankTree

section

variable {α : Type} {m : RbMem α} {a : α} {d : Dir} {p : List (Frame α)} {t s : RankTree α}
  {long : Dir → Bool}

/-- A subtree that grew to rank `k + 1` is a new leaf, or exactly one of its edges is long, and
`child` is behind the other one. -/
def Grown (t : RankTree α) (k : ℕ) (child : Option (Option α)) : Prop :=
  k = 0 ∨ ∃ d e long x y, t = join d e long x y ∧ long d = true ∧ long d.flip = false ∧
    child = some y.ptr

/-- What an operation that keeps the nodes does. -/
def Rebalances (f : RbM α (Option α)) (m : RbMem α) (t : RankTree α) : Prop :=
  ∃ r m' t', f.run m = .ok (r, m') ∧ IsTree m' t' ∧ t'.toList = t.toList ∧ ∃ n, Ranked t' n

theorem Rebalances.of_run {f g : RbM α (Option α)} {m' : RbMem α} {t' : RankTree α}
    (h : Rebalances g m' t') (hrun : f.run m = g.run m') (hlist : t'.toList = t.toList) :
    Rebalances f m t := by
  obtain ⟨r, m₁, t₁, hg, htree, hlist', hrank⟩ := h
  exact ⟨r, m₁, t₁, hrun.trans hg, htree, hlist'.trans hlist, hrank⟩

variable [DecidableEq α]

/-- The long edge of `e` is on the inner side. -/
theorem rbInsertColor_single {e : α} {longe : Dir → Bool} {x y : RankTree α} {fuel j n : ℕ}
    {child : Option (Option α)} (h : IsTree m (plug p (join d a long (join d.flip e longe x y) s)))
    (hp : Fits p n) (ht : Ranked (join d.flip e longe x y) n) (hs : Ranked s j) (hj : j + 2 = n)
    (hd : long d = false) (hf : long d.flip = true) (hed : longe d = false)
    (hef : longe d.flip = true) :
    Rebalances (rbInsertColor (fuel + 1) (some a) (some e) child) m
      (plug p (join d a long (join d.flip e longe x y) s)) := by
  obtain ⟨i, i', hx, hy, hi, hi', -⟩ := ranked_join.mp ht
  rw [Dir.flip_flip, hed, gap_false] at hi'
  rw [hef, gap_true] at hi
  have hside := h.run_rbSide (by simp)
  rw [join_ptr] at hside
  obtain ⟨hau, -, -, hlinks, -⟩ := holds_join.mp (holds_plug.mp h.links).2
  obtain ⟨heu, -⟩ := holds_join.mp hlinks
  have hea : e ≠ a := by
    rintro rfl
    simpa using (nodup_plug.mp h.nodup).1
  have hany : (⟨above none p, long⟩ : RbWord α).any = true := by
    rw [RbWord.any_eq _ d]
    simp [hf]
  obtain ⟨M, hrot, hMe, hrest⟩ := h.single (.plain (above none p)) ⟨some a, longe⟩
  rw [RbMem.setUp_self (by simpa [hea] using heu)] at hrot
  obtain ⟨m', hswap, htree⟩ : ∃ m', (rbSwapChild (above none p) (some a) (some e)).run
      (M.setUp e (.plain (above none p))) = .ok ((), m') ∧ _ := hrest fun _ => false
  refine ⟨some e, m', _, ?_, htree, ?_, ?_⟩
  · simp [rbInsertColor, hau, hside, hd, heu, hed, hea, hany, hrot, hMe, hswap]
  · exact toList_plug_congr p (by rw [join_flip, join_flip, toList_rotate])
  · have hdown : Ranked (join d a (fun _ => false) x s) (i + 1) :=
      ranked_join.mpr ⟨i, j, hx, hs, rfl, by simp; omega, by omega⟩
    refine hp.plug (ranked_join.mpr ⟨i + 1, i', hdown, hy, ?_, ?_, ?_⟩) <;> simp <;> omega

/-- The long edge of `e` is on the outer side, and `c` behind the inner one. -/
theorem rbInsertColor_double {e c : α} {longe longc : Dir → Bool} {x u v : RankTree α}
    {fuel j n : ℕ}
    (h : IsTree m (plug p (join d a long (join d e longe x (join d c longc u v)) s)))
    (hp : Fits p n) (ht : Ranked (join d e longe x (join d c longc u v)) n) (hs : Ranked s j)
    (hj : j + 2 = n) (hd : long d = false) (hf : long d.flip = true) (hed : longe d = true)
    (hef : longe d.flip = false) :
    Rebalances (rbInsertColor (fuel + 1) (some a) (some e) (some (some c))) m
      (plug p (join d a long (join d e longe x (join d c longc u v)) s)) := by
  obtain ⟨i, i', hx, hc, hi, hi', -⟩ := ranked_join.mp ht
  rw [hef, gap_false] at hi'
  rw [hed, gap_true] at hi
  obtain ⟨k, k', hu, hv, hk, hk', hleafc⟩ := ranked_join.mp hc
  have hside := h.run_rbSide (by simp)
  rw [join_ptr] at hside
  obtain ⟨hau, -, -, hlinks, -⟩ := holds_join.mp (holds_plug.mp h.links).2
  obtain ⟨heu, -⟩ := holds_join.mp hlinks
  have hnodup := (nodup_plug.mp h.nodup).1
  simp only [nodup_join, mem_join, not_or] at hnodup
  obtain ⟨⟨⟨hae, -, hac, -⟩, -⟩, ⟨⟨-, hec, -⟩, -⟩, -⟩ := hnodup
  have hea : e ≠ a := Ne.symm hae
  have hany : (⟨above none p, long⟩ : RbWord α).any = true := by
    rw [RbWord.any_eq _ d]
    simp [hf]
  obtain ⟨M, hrot, hMa, hMe, hMc, hrest⟩ := h.double (.plain (above none p))
  obtain ⟨N, hrot', hNc, hrest'⟩ := hrest
    ⟨above none p, Function.update (fun _ => false) d (longc d.flip)⟩
    (Function.update (fun _ => false) d.flip (longc d)) ⟨some e, longc⟩
  obtain ⟨m', hswap, htree⟩ : ∃ m', (rbSwapChild (above none p) (some a) (some c)).run
      (N.setUp c (.plain (above none p))) = .ok ((), m') ∧ _ := hrest' fun _ => false
  have hce : c ≠ e := Ne.symm hec
  have hca : c ≠ a := Ne.symm hac
  rw [RbMem.setUp_self (by simpa [hce, hca] using hMc)] at hrot'
  -- the bits of `a` and `e` follow those of `c`
  have hset : (⟨above none p, Function.update (fun _ => false) d true⟩ : RbWord α) =
      (RbWord.plain (above none p)).xor d := by simp [RbWord.xor]
  have hclear (b : Dir) : Function.update (fun _ : Dir => false) b false = fun _ => false :=
    Function.update_eq_self b _
  have hself : M.setUp a ⟨above none p, fun _ => false⟩ = M := RbMem.setUp_self hMa
  have hbits : (⟨some c, longe⟩ : RbWord α).xorBoth =
      ⟨some c, Function.update (fun _ => false) d.flip true⟩ := by
    rw [RbWord.xorBoth, Dir.ext_flip d (f := fun d => !longe d)] <;> simp [hed, hef]
  have hbits' : (⟨some c, longe⟩ : RbWord α).xor d =
      ⟨some c, fun _ => false⟩ := by
    rw [RbWord.xor, Dir.ext_flip d (f := Function.update longe d _)] <;> simp [hed, hef]
  refine ⟨some c, m', _, ?_, htree, ?_, ?_⟩
  · simp only [rbInsertColor, bind_pure_comp]
    cases hcf : longc d.flip <;> cases hcd : longc d <;>
      simp only [hcf, hcd, hclear, hself, hset] at hrot' <;>
      simp [hau, hside, hd, heu, hed, hea, hany, hrot, hMa, hMe, hMc, hcf, hcd, hrot', hNc,
        hswap, hbits, hbits']
  · exact toList_plug_congr p toList_rotate_double
  · have hl : Ranked (join d e (Function.update (fun _ => false) d.flip (longc d)) x u) i' := by
      refine ranked_join.mpr ⟨i, k, hx, hu, by simp; omega, ?_, by omega⟩
      simp
      omega
    have hr : Ranked (join d a (Function.update (fun _ => false) d (longc d.flip)) v s) i' := by
      refine ranked_join.mpr ⟨k', j, hv, hs, ?_, by simp; omega, by omega⟩
      simp
      omega
    refine hp.plug (ranked_join.mpr ⟨i', i', hl, hr, by simp; omega, by simp; omega, by omega⟩)

/-- **The loop of the insertion** restores the ranks. -/
theorem rbInsertColor_rebalances {fuel k : ℕ} {child : Option (Option α)}
    (h : IsTree m (plug p (join d a long t s))) (hfit : Fits (⟨d, a, long, s⟩ :: p) k)
    (ht : Ranked t (k + 1)) (hchild : Grown t k child) (hfuel : p.length < fuel) :
    Rebalances (rbInsertColor fuel (some a) t.ptr child) m (plug p (join d a long t s)) := by
  induction fuel generalizing m d a long s p t k child with
  | zero => cases hfuel
  | succ fuel ih =>
    obtain ⟨j, n, hs, hk, hj, hleaf, hp⟩ := hfit
    simp only at hs hk hj
    have ht₀ : t ≠ .nil := by
      rintro rfl
      cases ranked_nil.mp ht
    have hside := h.run_rbSide fun hnil => ht₀ hnil.1
    obtain ⟨hau, -⟩ := holds_join.mp (holds_plug.mp h.links).2
    cases hd : long d with
    | true =>
      refine ⟨none, _, _, ?_, h.relabel (Function.update long d false), ?_, ?_⟩
      · simp [rbInsertColor, hau, hside, hd, RbWord.xor]
      · exact toList_plug_congr p (toList_join_congr rfl rfl)
      · refine hp.plug (ranked_join.mpr ⟨k + 1, j, ht, hs, ?_, ?_, ?_⟩)
        · simp [hd] at hk ⊢
          omega
        · simpa using hj
        · omega
    | false =>
      simp only [hd, gap_false] at hk
      cases hf : long d.flip with
      | false =>
        simp only [hf, gap_false] at hj
        have hany : (⟨above none p, long⟩ : RbWord α).any = false := by
          rw [RbWord.any_eq _ d]
          simp [hd, hf]
        have h' := h.relabel (Function.update long d.flip true)
        have hlist : (plug p (join d a (Function.update long d.flip true) t s)).toList =
            (plug p (join d a long t s)).toList := toList_plug_congr p (toList_join_congr rfl rfl)
        have hrank : Ranked (join d a (Function.update long d.flip true) t s) (k + 2) :=
          ranked_join.mpr ⟨k + 1, j, ht, hs, by simp [hd], by simp; omega, by omega⟩
        have hstep : (rbInsertColor (fuel + 1) (some a) t.ptr child).run m =
            (if above none p = none then pure none
              else rbInsertColor fuel (above none p) (some a) (some t.ptr)).run
                (m.setUp a ⟨above none p, Function.update long d.flip true⟩) := by
          simp [rbInsertColor, hau, hside, hd, hf, hany, run_asPtr, RbWord.xor]
        cases p with
        | nil => exact ⟨none, _, _, hstep, h', hlist, _, hrank⟩
        | cons G p =>
          have h'' : IsTree _ (plug p (join G.dir G.elm G.long
              (join d a (Function.update long d.flip true) t s) G.sib)) := h'
          have hgrown : Grown (join d a (Function.update long d.flip true) t s) (k + 1)
              (some t.ptr) :=
            .inr ⟨d.flip, a, _, s, t, join_flip.symm, by simp, by simp [hd], rfl⟩
          have hp' : Fits (G :: p) (k + 1) := hk ▸ hp
          have hrest := ih h'' hp' hrank hgrown (by simpa using hfuel)
          rw [join_ptr] at hrest
          exact hrest.of_run hstep hlist
      | true =>
        simp only [hf, gap_true] at hj
        obtain hk0 | ⟨d', e, longe, x, y, rfl, hlong, hshort, rfl⟩ := hchild
        · omega
        rcases Dir.eq_or_eq_flip d d' with rfl | rfl
        · obtain ⟨i, i', -, hy, -, hi', -⟩ := ranked_join.mp ht
          cases y with
          | nil =>
            obtain rfl := ranked_nil.mp hy
            simp [hshort] at hi'
            omega
          | node c longc l r =>
            obtain ⟨u, v, hcuv⟩ := node_eq_join d' c longc l r
            rw [hcuv] at h ht ⊢
            rw [join_ptr, join_ptr]
            exact rbInsertColor_double h hp (hk ▸ ht) hs hj hd hf hlong hshort
        · rw [Dir.flip_flip] at hshort
          rw [join_ptr]
          exact rbInsertColor_single h hp (hk ▸ ht) hs hj hd hf hshort hlong

/-! ## The descent -/

variable {κ : Type} [LinearOrder κ] {key : α → κ} {x : κ} {cmp : α → Except RbFault Ordering}

/-- The comparison with one of the nodes is that of `x` with its key. -/
def Compares (cmp : α → Except RbFault Ordering) (key : α → κ) (x : κ) (s : List α) : Prop :=
  ∀ b ∈ s, cmp b = .ok (compare x (key b))

omit [DecidableEq α] in
/-- **The descent** ends at the node with the key, or at the place where one belongs. -/
theorem rbDescend_spec {fuel : ℕ} (h : IsTree m (plug p t)) (hcmp : Compares cmp key x t.toList)
    (hsort : Sorted key t) (hfuel : t.height < fuel) :
    (∃ q, (rbDescend cmp fuel (hole p) (above none p)).run m =
        .ok (.inl (hole (q ++ p), above none (q ++ p)), m) ∧
      plug (q ++ p) .nil = plug p t ∧ (∀ b ∈ before q, key b < x) ∧ ∀ b ∈ after q, x < key b) ∨
    ∃ b ∈ t.toList, key b = x ∧
      (rbDescend cmp fuel (hole p) (above none p)).run m = .ok (.inr b, m) := by
  induction t generalizing p fuel with
  | nil =>
    obtain ⟨fuel, rfl⟩ := Nat.exists_eq_add_of_lt hfuel
    refine .inl ⟨[], ?_, rfl, by simp [before], by simp [after]⟩
    simp [rbDescend, h.hole]
  | node b long l r ihl ihr =>
    obtain ⟨fuel, rfl⟩ : ∃ f, fuel = f + 1 := ⟨fuel - 1, by omega⟩
    simp only [height] at hfuel
    obtain ⟨hl, hr, hlb, hbr⟩ := sorted_node.mp hsort
    have hb := hcmp b (by simp [toList])
    cases hcase : compare x (key b) with
    | eq =>
      refine .inr ⟨b, by simp [toList], (compare_eq_iff_eq.mp hcase).symm, ?_⟩
      simp [rbDescend, h.hole, hb, hcase]
    | lt =>
      have hx := compare_lt_iff_lt.mp hcase
      have hstep : (rbDescend cmp (fuel + 1) (hole p) (above none p)).run m =
          (rbDescend cmp fuel (.link b .left) (some b)).run m := by
        simp [rbDescend, h.hole, hb, hcase]
      rw [hstep]
      have hl' : IsTree m (plug (⟨.left, b, long, r⟩ :: p) l) := h
      rcases ihl hl' (fun c hc => hcmp c (by simp [toList, hc])) hl (show l.height < fuel by omega)
        with ⟨q, hrun, hplug, hlo, hhi⟩ | ⟨c, hc, hkey, hrun⟩
      · refine .inl ⟨q ++ [⟨.left, b, long, r⟩], ?_, ?_, ?_, ?_⟩
        · rw [List.append_assoc]
          exact hrun
        · rw [List.append_assoc]
          exact hplug
        · simpa [before_append, before] using hlo
        · simp only [after_append, after, List.append_nil, List.mem_append, List.mem_cons]
          rintro c (hc | rfl | hc)
          · exact hhi c hc
          · exact hx
          · exact hx.trans (hbr c hc)
      · exact .inr ⟨c, by simp [toList, hc], hkey, hrun⟩
    | gt =>
      have hx := compare_gt_iff_gt.mp hcase
      have hstep : (rbDescend cmp (fuel + 1) (hole p) (above none p)).run m =
          (rbDescend cmp fuel (.link b .right) (some b)).run m := by
        simp [rbDescend, h.hole, hb, hcase]
      rw [hstep]
      have hr' : IsTree m (plug (⟨.right, b, long, l⟩ :: p) r) := h
      rcases ihr hr' (fun c hc => hcmp c (by simp [toList, hc])) hr (show r.height < fuel by omega)
        with ⟨q, hrun, hplug, hlo, hhi⟩ | ⟨c, hc, hkey, hrun⟩
      · refine .inl ⟨q ++ [⟨.right, b, long, l⟩], ?_, ?_, ?_, ?_⟩
        · rw [List.append_assoc]
          exact hrun
        · rw [List.append_assoc]
          exact hplug
        · simp only [before_append, before, List.nil_append, List.mem_append, List.mem_singleton]
          rintro c ((hc | rfl) | hc)
          · exact (hlb c hc).trans hx
          · exact hx
          · exact hlo c hc
        · simpa [after_append, after] using hhi
      · exact .inr ⟨c, by simp [toList, hc], hkey, hrun⟩

/-! ## The whole -/

/-- The links of a node are allocated. -/
def Allocated (m : RbMem α) (a : α) : Prop := (m (.up a)).isSome ∧ ∀ d, (m (.link a d)).isSome

/-- **`RB_INSERT_FINISH`** puts the node in its place and restores the ranks. -/
theorem rbInsertFinish_spec {fuel n : ℕ} (h : IsTree m (plug p .nil)) (hrank : Ranked (plug p .nil) n)
    (ha : a ∉ nodes p) (halloc : Allocated m a) (hfuel : p.length ≤ fuel) :
    ∃ m' t', (rbInsertFinish fuel (above none p) (hole p) a).run m = .ok ((), m') ∧ IsTree m' t' ∧
      t'.toList = before p ++ a :: after p ∧ ∃ n, Ranked t' n := by
  obtain ⟨hup, hlink⟩ := halloc
  obtain ⟨wu, hwu⟩ := Option.isSome_iff_exists.mp hup
  obtain ⟨wl, hwl⟩ := Option.isSome_iff_exists.mp (hlink .left)
  obtain ⟨wr, hwr⟩ := Option.isSome_iff_exists.mp (hlink .right)
  obtain ⟨k, hfit, hk⟩ := fits_of_plug hrank
  obtain rfl := ranked_nil.mp hk
  -- the leaf
  have hoff : SameOff [a] m
      (((m.setUp a (.plain (above none p))).setLink a .left none).setLink a .right none) := by
    simp
  have hleaf : IsTree ((((m.setUp a (.plain (above none p))).setLink a .left none).setLink a .right
      none).setHole p (some a)) (plug p (.node a (fun _ => false) .nil .nil)) := by
    refine h.place hoff (by simpa using ha) ?_ rfl (by simp [toList]) (by simp [toList])
    simp [Holds, RbWord.plain]
  have hrank' : Ranked (.node a (fun _ => false) .nil .nil) 1 := .node .nil .nil rfl rfl fun _ _ => rfl
  have hlist : (plug p (.node a (fun _ => false) .nil .nil)).toList = before p ++ a :: after p := by
    simp [toList_plug, toList]
  have hhole : (((m.setUp a (.plain (above none p))).setLink a .left none).setLink a .right none)
      (hole p) = some (.plain none) := by
    refine Eq.trans (hoff (hole p) fun b hb hba => ?_) h.hole
    cases p with
    | nil => cases hb
    | cons F p =>
      obtain rfl := List.mem_singleton.mp hba
      cases hb
      exact ha (by simp [nodes])
  have hrun : (rbInsertFinish fuel (above none p) (hole p) a).run m =
      (if above none p = none then pure ()
        else rbInsertColor fuel (above none p) (some a) none >>= fun _ => pure ()).run
        ((((m.setUp a (.plain (above none p))).setLink a .left none).setLink a .right none).setHole
          p (some a)) := by
    simp [rbInsertFinish, hwu, hwl, hwr, hhole]
  cases p with
  | nil => exact ⟨_, _, hrun, hleaf, hlist, 1, hrank'⟩
  | cons F p =>
    have hleaf' : IsTree _ (plug p (join F.dir F.elm F.long (.node a (fun _ => false) .nil .nil)
      F.sib)) := hleaf
    obtain ⟨r, m', t', hrun', htree, hlist', hrank''⟩ :=
      rbInsertColor_rebalances hleaf' hfit hrank' (.inl rfl) hfuel
    refine ⟨m', t', hrun.trans ?_, htree, hlist'.trans hlist, hrank''⟩
    rw [if_neg (by simp [above])]
    exact (bind_run hrun').trans rfl

/-- **`RB_INSERT`** adds the node, or finds the one with its key. -/
theorem rbInsert_spec {fuel n : ℕ} (h : IsTree m t) (hrank : Ranked t n) (hsort : Sorted key t)
    (hcmp : Compares cmp key (key a) t.toList) (ha : a ∉ t.toList) (halloc : Allocated m a)
    (hfuel : t.height < fuel) :
    (∃ m' t', (rbInsert fuel cmp a).run m = .ok (none, m') ∧ IsTree m' t' ∧ (∃ n, Ranked t' n) ∧
      Sorted key t' ∧ t'.toList.Perm (a :: t.toList) ∧ ∀ b ∈ t.toList, key b ≠ key a) ∨
    ∃ b ∈ t.toList, key b = key a ∧ (rbInsert fuel cmp a).run m = .ok (some b, m) := by
  rcases rbDescend_spec (p := []) h hcmp hsort hfuel with
    ⟨q, hrun, hplug, hlo, hhi⟩ | ⟨b, hb, hkey, hrun⟩
  · left
    simp only [List.append_nil, plug] at hrun hplug
    subst hplug
    have hlen : q.length ≤ fuel := by
      have h := length_le_height q (.nil : RankTree α)
      omega
    have hlist : (plug q (.nil : RankTree α)).toList = before q ++ after q := by
      simp [toList_plug, toList]
    have hq : a ∉ nodes q := fun haq => ha ((toList_plug_perm q .nil).mem_iff.mpr (by simp [haq]))
    obtain ⟨m', t', hfinish, htree, hlist', hrank'⟩ := rbInsertFinish_spec h hrank hq halloc hlen
    refine ⟨m', t', ?_, htree, hrank', ?_, ?_, ?_⟩
    · exact (bind_run hrun).trans ((bind_run hfinish).trans rfl)
    · rw [Sorted, hlist, List.pairwise_append] at hsort
      rw [Sorted, hlist', List.pairwise_append, List.pairwise_cons]
      refine ⟨hsort.1, ⟨hhi, hsort.2.1⟩, fun b hb c hc => ?_⟩
      rcases List.mem_cons.mp hc with rfl | hc
      · exact hlo b hb
      · exact hsort.2.2 b hb c hc
    · rw [hlist', hlist]
      exact List.perm_middle
    · rw [hlist]
      intro b hb
      rcases List.mem_append.mp hb with hb | hb
      · exact (hlo b hb).ne
      · exact (hhi b hb).ne'
  · right
    exact ⟨b, hb, hkey, (bind_run hrun).trans rfl⟩

end

end Propd
