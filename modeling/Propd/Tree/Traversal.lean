import Propd.Tree.Insert

/-!
# Search and traversal

What these operations return, in terms of the nodes in their order; they change nothing.
-/

namespace Propd

open Lib RankTree

section

variable {α : Type} {m : RbMem α} {a : α} {d : Dir} {p : List (Frame α)} {t : RankTree α}
  {up : Option α} {fuel : ℕ}

section Find

variable {κ : Type} [LinearOrder κ] {key : α → κ} {x : κ} {cmp : α → Except RbFault Ordering}

theorem rbFindLoop_spec (h : Holds m up t)
    (hcmp : Compares cmp key x t.toList) (hsort : Sorted key t) (hfuel : t.height < fuel) :
    ∃ r, (rbFindLoop cmp fuel t.ptr).run m = .ok (r, m) ∧
      (∀ b ∈ r, b ∈ t.toList ∧ key b = x) ∧ (r = none → ∀ b ∈ t.toList, key b ≠ x) := by
  induction t generalizing fuel up with
  | nil =>
    obtain ⟨fuel, rfl⟩ := Nat.exists_eq_add_of_lt hfuel
    exact ⟨none, by simp [rbFindLoop], by simp, by simp [toList]⟩
  | node b long l r ihl ihr =>
    obtain ⟨fuel, rfl⟩ : ∃ f, fuel = f + 1 := ⟨fuel - 1, by omega⟩
    simp only [height] at hfuel
    obtain ⟨hl, hr, hlb, hbr⟩ := sorted_node.mp hsort
    obtain ⟨-, hlink, hlink', hhl, hhr⟩ := h
    have hb := hcmp b (by simp [toList])
    cases hcase : compare x (key b) with
    | eq =>
      have hx := compare_eq_iff_eq.mp hcase
      refine ⟨some b, ?_, by simp [toList, hx], by simp⟩
      simp [rbFindLoop, hb, hcase]
    | lt =>
      have hx := compare_lt_iff_lt.mp hcase
      obtain ⟨c, hrun, hsome, hnone⟩ := ihl hhl (fun c hc => hcmp c (by simp [toList, hc])) hl
        (show l.height < fuel by omega)
      refine ⟨c, ?_, fun d hd => ?_, fun hc d hd => ?_⟩
      · simpa [rbFindLoop, hb, hcase, hlink] using hrun
      · obtain ⟨hmem, hkey⟩ := hsome d hd
        exact ⟨by simp [toList, hmem], hkey⟩
      · simp only [toList, List.mem_append, List.mem_cons] at hd
        rcases hd with hd | rfl | hd
        · exact hnone hc d hd
        · exact hx.ne'
        · exact (hx.trans (hbr d hd)).ne'
    | gt =>
      have hx := compare_gt_iff_gt.mp hcase
      obtain ⟨c, hrun, hsome, hnone⟩ := ihr hhr (fun c hc => hcmp c (by simp [toList, hc])) hr
        (show r.height < fuel by omega)
      refine ⟨c, ?_, fun d hd => ?_, fun hc d hd => ?_⟩
      · simpa [rbFindLoop, hb, hcase, hlink'] using hrun
      · obtain ⟨hmem, hkey⟩ := hsome d hd
        exact ⟨by simp [toList, hmem], hkey⟩
      · simp only [toList, List.mem_append, List.mem_cons] at hd
        rcases hd with hd | rfl | hd
        · exact ((hlb d hd).trans hx).ne
        · exact hx.ne
        · exact hnone hc d hd

/-- **`RB_FIND`** finds the node with the key, if there is one. -/
theorem rbFind_spec (h : IsTree m t) (hcmp : Compares cmp key x t.toList) (hsort : Sorted key t)
    (hfuel : t.height < fuel) :
    ∃ r, (rbFind fuel cmp).run m = .ok (r, m) ∧ (∀ b ∈ r, b ∈ t.toList ∧ key b = x) ∧
      (r = none → ∀ b ∈ t.toList, key b ≠ x) := by
  obtain ⟨r, hrun, hr⟩ := rbFindLoop_spec h.links hcmp hsort hfuel
  exact ⟨r, by simp [rbFind, h.root, hrun], hr⟩

end Find

/-- The node at the end of the edges on one side. -/
theorem rbFarthest_spec (h : Holds m up t) (ht : t ≠ .nil) (hfuel : t.height ≤ fuel) :
    ∃ q b long s, t = plug q (join d b long .nil s) ∧ (∀ F ∈ q, F.dir = d) ∧
      (rbFarthest d fuel t.ptr).run m = .ok (some b, m) := by
  induction t generalizing up fuel with
  | nil => exact absurd rfl ht
  | node a long l r ihl ihr =>
    obtain ⟨fuel, rfl⟩ : ∃ f, fuel = f + 1 := ⟨fuel - 1, by simp [height] at hfuel; omega⟩
    obtain ⟨t, s, heq, ih⟩ : ∃ t s, RankTree.node a long l r = join d a long t s ∧
        ∀ {up : Option α} {fuel : ℕ}, Holds m up t → t ≠ .nil → t.height ≤ fuel →
          ∃ q b long s, t = plug q (join d b long .nil s) ∧ (∀ F ∈ q, F.dir = d) ∧
            (rbFarthest d fuel t.ptr).run m = .ok (some b, m) := by
      cases d
      · exact ⟨l, r, rfl, ihl⟩
      · exact ⟨r, l, rfl, ihr⟩
    rw [heq] at h hfuel ⊢
    obtain ⟨-, hlink, -, hholds, -⟩ := holds_join.mp h
    rw [height_join] at hfuel
    cases t with
    | nil =>
      refine ⟨[], a, long, s, rfl, by simp, ?_⟩
      simp [rbFarthest, hlink]
    | node c longc l' r' =>
      obtain ⟨q, b, longb, s', hq, hdir, hrun⟩ := ih hholds (by simp) (show _ ≤ fuel by omega)
      refine ⟨q ++ [⟨d, a, long, s⟩], b, longb, s', ?_, ?_, ?_⟩
      · rw [plug_append, ← hq]
        rfl
      · rintro F hF
        rcases List.mem_append.mp hF with hF | hF
        · exact hdir F hF
        · rw [List.mem_singleton.mp hF]
      · simpa [rbFarthest, hlink] using hrun

/-- The way up from the root of a subtree ends at the node behind it. -/
theorem rbClimb_spec [DecidableEq α] (h : IsTree m (plug p t)) (ht : t.ptr = some a)
    (hfuel : p.length < fuel) :
    (rbClimb fuel (some a)).run m = .ok ((after p).head?, m) := by
  induction p generalizing t a fuel with
  | nil =>
    obtain ⟨fuel, rfl⟩ : ∃ f, fuel = f + 1 := ⟨fuel - 1, by omega⟩
    cases t with
    | nil => cases ht
    | node b long l r =>
      cases ht
      obtain ⟨hup, -⟩ := h.links
      simp [rbClimb, hup, after]
  | cons F p ih =>
    obtain ⟨fuel, rfl⟩ : ∃ f, fuel = f + 1 := ⟨fuel - 1, by omega⟩
    have h' : IsTree m (plug p (join F.dir F.elm F.long t F.sib)) := h
    have hptr := h'.ptr_ne_ptr (by rintro ⟨rfl, -⟩; cases ht)
    obtain ⟨hway, hlinks⟩ := holds_plug.mp h.links
    obtain ⟨-, hd, hf, -, -⟩ := hway
    cases t with
    | nil => cases ht
    | node b long l r =>
      cases ht
      obtain ⟨hup, -⟩ := hlinks
      cases hdir : F.dir with
      | left =>
        rw [hdir] at hf
        have hr : m (.link F.elm .right) = some (.plain F.sib.ptr) := hf
        rw [ptr_node] at hptr
        simp [rbClimb, hup, after, hdir, hr, Ne.symm hptr]
      | right =>
        rw [hdir] at hd
        have h' : IsTree m (plug p (join F.dir F.elm F.long (.node a long l r) F.sib)) := h
        simpa [rbClimb, hup, after, hdir, hd] using ih h' join_ptr (by simpa using hfuel)

theorem rbMinmaxLoop_spec [DecidableEq α] {parent : Option α} (h : Holds m up t)
    (hfuel : t.height < fuel) :
    (rbMinmaxLoop .left fuel t.ptr parent).run m = .ok (t.toList.head?.or parent, m) := by
  induction t generalizing up fuel parent with
  | nil =>
    obtain ⟨fuel, rfl⟩ := Nat.exists_eq_add_of_lt hfuel
    simp [rbMinmaxLoop, toList]
  | node a long l r ihl =>
    obtain ⟨fuel, rfl⟩ : ∃ f, fuel = f + 1 := ⟨fuel - 1, by omega⟩
    obtain ⟨-, hlink, -, hl, -⟩ := h
    rw [height] at hfuel
    rw [rbMinmaxLoop, ptr, if_neg (Option.some_ne_none a), bind_run (run_rbLink hlink),
      ihl hl (by omega)]
    simp [toList, List.head?_append]

/-- **`RB_MIN`** returns the first node. -/
theorem rbMin_spec [DecidableEq α] (h : IsTree m t) (hfuel : t.height < fuel) :
    (rbMin fuel).run m = .ok (t.toList.head?, m) := by
  simp [rbMin, h.root, rbMinmaxLoop_spec h.links hfuel]

/-- **`RB_NEXT`** returns the node behind. -/
theorem rbNext_spec [DecidableEq α] {xs ys : List α} (h : IsTree m t)
    (hlist : t.toList = xs ++ a :: ys) (hfuel : t.height ≤ fuel) :
    (rbNext fuel (some a)).run m = .ok (ys.head?, m) := by
  obtain ⟨p, long, l, r, rfl⟩ := exists_plug (show a ∈ t.toList by simp [hlist])
  have hheight := length_le_height p (.node a long l r)
  simp only [height] at hheight
  have hys : ys = r.toList ++ after p := by
    have hmid : (plug p (.node a long l r)).toList = before p ++ l.toList ++ a :: (r.toList ++ after p) := by
      simp [toList_plug, toList]
    have hnodup := h.nodup
    rw [hmid, List.nodup_middle, List.nodup_cons, List.mem_append, not_or] at hnodup
    rw [hmid] at hlist
    exact ((List.append_cons_inj_of_notMem hnodup.1.1 hnodup.1.2).mp hlist).2.2.symm
  obtain ⟨-, hlinks⟩ := holds_plug.mp h.links
  obtain ⟨hup, -, hright, -, hr⟩ := hlinks
  cases r with
  | nil =>
    have hclimb := rbClimb_spec h rfl (show p.length < fuel by omega)
    simpa [rbNext, hright, hys, toList] using hclimb
  | node b longb l' r' =>
    obtain ⟨q, c, longc, s, hq, hdir, hrun⟩ :=
      rbFarthest_spec (d := .left) hr (by simp) (show _ ≤ fuel by omega)
    have hhead : (RankTree.node b longb l' r').toList = c :: (s.toList ++ after q) := by
      rw [hq, toList_plug, before_eq_nil hdir]
      simp [join, toList]
    rw [hys, hhead]
    simpa [rbNext, hright] using hrun

end

end Propd
