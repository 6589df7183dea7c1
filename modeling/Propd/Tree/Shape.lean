import Propd.Tree.Model

/-!
# Trees in memory

`IsTree m t` says that the links in `m` are those of the tree `t`. What an operation does is said as
a change of `t`: `IsTree.place` puts another subtree in a place, once the links in it are right.
-/

namespace Propd

open Lib RankTree

section

variable {α : Type}

/-- The node that the link is in. -/
def RbLoc.owner : RbLoc α → Option α
  | root => none
  | up a => some a
  | link a _ => some a

@[simp] theorem RbWord.plain_ptr (p : Option α) : (RbWord.plain p).ptr = p := rfl

@[simp] theorem RbWord.plain_bits (p : Option α) : (RbWord.plain p).bits = fun _ => false := rfl

@[simp] theorem RbWord.plain_any (p : Option α) : (RbWord.plain p).any = false := rfl

@[simp] theorem RbWord.xorBoth_bits (w : RbWord α) (d : Dir) : w.xorBoth.bits d = !w.bits d := rfl

theorem RbWord.any_eq (w : RbWord α) (d : Dir) : w.any = (w.bits d || w.bits d.flip) := by
  cases d
  · rfl
  · exact Bool.or_comm _ _

@[simp] theorem RbWord.plain_inj {p q : Option α} : RbWord.plain p = .plain q ↔ p = q := by
  simp [RbWord.plain]

section

variable [DecidableEq α]

namespace RbMem

def setUp (m : RbMem α) (a : α) (w : RbWord α) : RbMem α := Function.update m (.up a) (some w)

def setLink (m : RbMem α) (a : α) (d : Dir) (x : Option α) : RbMem α :=
  Function.update m (.link a d) (some (.plain x))

/-- The root gets another parent. -/
def reparent (m : RbMem α) (x up : Option α) : RbMem α :=
  match x with
  | none => m
  | some a => Function.update m (.up a) ((m (.up a)).map fun w => { w with ptr := up })

/-- What `RB_ROTATE` leaves, with the bits of `a`. -/
def rotate (m : RbMem α) (a c : α) (d : Dir) (x : Option α) (bits : Dir → Bool) : RbMem α :=
  (((m.setLink a d.flip x).reparent x (some a)).setLink c d (some a)).setUp a ⟨some c, bits⟩

/-- The link to a place. -/
def setHole (m : RbMem α) (p : List (Frame α)) (x : Option α) : RbMem α :=
  match p with
  | [] => Function.update m .root (some (.plain x))
  | F :: _ => m.setLink F.elm F.dir x

variable {m : RbMem α} {a b c : α} {d e : Dir} {w w' : RbWord α} {x y : Option α}
  {bits : Dir → Bool}

@[simp] theorem setUp_root : m.setUp a w .root = m .root := rfl

@[simp] theorem setUp_link : m.setUp a w (.link b d) = m (.link b d) := rfl

@[simp] theorem setUp_up : m.setUp a w (.up b) = if b = a then some w else m (.up b) := by
  simp [setUp, Function.update_apply]

@[simp] theorem setUp_setUp : (m.setUp a w).setUp a w' = m.setUp a w' := Function.update_idem ..

theorem setUp_self (h : m (.up a) = some w) : m.setUp a w = m := by
  rw [setUp, ← h, Function.update_eq_self]

@[simp] theorem setLink_root : m.setLink a d x .root = m .root := rfl

@[simp] theorem setLink_up : m.setLink a d x (.up b) = m (.up b) := rfl

@[simp] theorem setLink_link :
    m.setLink a d x (.link b e) = if b = a ∧ e = d then some (.plain x) else m (.link b e) := by
  simp [setLink, Function.update_apply]

@[simp] theorem reparent_root : m.reparent x y .root = m .root := by cases x <;> rfl

@[simp] theorem reparent_link : m.reparent x y (.link b d) = m (.link b d) := by cases x <;> rfl

theorem reparent_up : m.reparent x y (.up b) =
    if x = some b then (m (.up b)).map fun w => { w with ptr := y } else m (.up b) := by
  cases x with
  | none => rfl
  | some a =>
    by_cases h : b = a
    · simp [reparent, h]
    · simp [reparent, h, Ne.symm h]

theorem setHole_reparent {p : List (Frame α)} {z : Option α} :
    (m.setHole p x).reparent y z = (m.reparent y z).setHole p x := by
  cases y with
  | none => rfl
  | some a =>
    cases p with
    | nil => exact Function.update_comm (by simp) _ _ _
    | cons F p => exact Function.update_comm (by simp) _ _ _

@[simp] theorem rotate_link : m.rotate a c d x bits (.link b e) =
    if b = c ∧ e = d then some (.plain (some a))
    else if b = a ∧ e = d.flip then some (.plain x) else m (.link b e) := by
  simp [rotate]

@[simp] theorem rotate_up_self : m.rotate a c d x bits (.up a) = some ⟨some c, bits⟩ := by
  simp [rotate]

theorem rotate_up_of_ne (h : b ≠ a) (hx : x ≠ some b) :
    m.rotate a c d x bits (.up b) = m (.up b) := by
  simp [rotate, reparent_up, h, hx]

end RbMem

end

open RbMem

/-- The links of a tree whose root is below of `up`. -/
def Holds (m : RbMem α) : Option α → RankTree α → Prop
  | _, .nil => True
  | up, .node a long l r =>
    m (.up a) = some ⟨up, long⟩ ∧ m (.link a .left) = some (.plain l.ptr) ∧
      m (.link a .right) = some (.plain r.ptr) ∧ Holds m (some a) l ∧ Holds m (some a) r

/-- The node above of a place in a tree whose root is below of `up`. -/
def above (up : Option α) : List (Frame α) → Option α
  | [] => up
  | F :: _ => some F.elm

/-- Where the link to a place is. -/
def hole : List (Frame α) → RbLoc α
  | [] => .root
  | F :: _ => .link F.elm F.dir

/-- The links of the frames above of a place with the root `x`. -/
def Way (m : RbMem α) (up : Option α) : List (Frame α) → Option α → Prop
  | [], _ => True
  | F :: p, x =>
    m (.up F.elm) = some ⟨above up p, F.long⟩ ∧ m (.link F.elm F.dir) = some (.plain x) ∧
      m (.link F.elm F.dir.flip) = some (.plain F.sib.ptr) ∧ Holds m (some F.elm) F.sib ∧
      Way m up p (some F.elm)

/-- The memory holds the tree. -/
structure IsTree (m : RbMem α) (t : RankTree α) : Prop where
  root : m .root = some (.plain t.ptr)
  links : Holds m none t
  nodup : t.toList.Nodup

/-- The memories differ in links of these nodes only. -/
def SameOff (s : List α) (m m' : RbMem α) : Prop :=
  ∀ l : RbLoc α, (∀ a ∈ l.owner, a ∉ s) → m' l = m l

variable {m m' : RbMem α} {s : List α} {up : Option α} {t t' : RankTree α} {a : α} {d : Dir}
  {long : Dir → Bool} {w : RbWord α} {x : Option α} {p : List (Frame α)} {F : Frame α}

@[simp] theorem above_cons : above up (F :: p) = some F.elm := rfl

@[simp] theorem holds_nil : Holds m up .nil := trivial

theorem holds_join : Holds m up (join d a long t t') ↔
    m (.up a) = some ⟨up, long⟩ ∧ m (.link a d) = some (.plain t.ptr) ∧
      m (.link a d.flip) = some (.plain t'.ptr) ∧ Holds m (some a) t ∧ Holds m (some a) t' := by
  cases d with
  | left => rfl
  | right =>
    simp only [join, Holds, Dir.flip]
    tauto

theorem Holds.exists_up (h : Holds m up t) (ht : t.ptr = some a) :
    ∃ long, m (.up a) = some ⟨up, long⟩ := by
  cases t with
  | nil => cases ht
  | node b long l r =>
    cases ht
    exact ⟨long, h.1⟩

theorem holds_plug : Holds m up (plug p t) ↔ Way m up p t.ptr ∧ Holds m (above up p) t := by
  induction p generalizing t with
  | nil => simp [plug, Way, above]
  | cons F p ih =>
    rw [plug, ih, holds_join, join_ptr, Way, above]
    tauto

/-- The links of a node of a tree. -/
theorem Holds.exists_links (h : Holds m up t) (ha : a ∈ t.toList) :
    (∃ w, m (.up a) = some w) ∧ ∀ d, ∃ x, m (.link a d) = some (.plain x) := by
  obtain ⟨p, long, l, r, rfl⟩ := exists_plug ha
  obtain ⟨hup, hl, hr, -⟩ := (holds_plug.mp h).2
  refine ⟨⟨_, hup⟩, fun d => ?_⟩
  cases d
  · exact ⟨_, hl⟩
  · exact ⟨_, hr⟩

/-- Only the links of its nodes matter to a tree. -/
theorem Holds.congr (h : Holds m up t) (hup : ∀ a ∈ t.toList, m' (.up a) = m (.up a))
    (hlink : ∀ a ∈ t.toList, ∀ d, m' (.link a d) = m (.link a d)) : Holds m' up t := by
  induction t generalizing up with
  | nil => trivial
  | node a long l r ihl ihr =>
    obtain ⟨hu, hl, hr, hhl, hhr⟩ := h
    have ha : a ∈ (RankTree.node a long l r).toList := by simp [toList]
    refine ⟨by rw [hup a ha, hu], by rw [hlink a ha, hl], by rw [hlink a ha, hr], ?_, ?_⟩
    · refine ihl hhl (fun b hb => hup b ?_) fun b hb => hlink b ?_ <;> simp [toList, hb]
    · refine ihr hhr (fun b hb => hup b ?_) fun b hb => hlink b ?_ <;> simp [toList, hb]

theorem holds_congr (hup : ∀ a ∈ t.toList, m' (.up a) = m (.up a))
    (hlink : ∀ a ∈ t.toList, ∀ d, m' (.link a d) = m (.link a d)) :
    Holds m' up t ↔ Holds m up t :=
  ⟨fun h => h.congr (fun a ha => (hup a ha).symm) fun a ha d => (hlink a ha d).symm,
    fun h => h.congr hup hlink⟩

theorem Way.congr (h : Way m up p x) (hup : ∀ a ∈ nodes p, m' (.up a) = m (.up a))
    (hlink : ∀ a ∈ nodes p, ∀ d, m' (.link a d) = m (.link a d)) : Way m' up p x := by
  induction p generalizing x with
  | nil => trivial
  | cons F p ih =>
    obtain ⟨hu, hd, hf, hs, hp⟩ := h
    have hF : F.elm ∈ nodes (F :: p) := by simp [nodes]
    refine ⟨by rw [hup _ hF, hu], by rw [hlink _ hF, hd], by rw [hlink _ hF, hf], ?_, ?_⟩
    · refine hs.congr (fun b hb => hup b ?_) fun b hb => hlink b ?_ <;> simp [nodes, hb]
    · refine ih hp (fun b hb => hup b ?_) fun b hb => hlink b ?_ <;> simp [nodes, hb]

theorem SameOff.up_eq (h : SameOff s m m') (ha : a ∉ s) : m' (.up a) = m (.up a) :=
  h (.up a) (by simpa [RbLoc.owner] using ha)

theorem SameOff.link_eq (h : SameOff s m m') (ha : a ∉ s) : m' (.link a d) = m (.link a d) :=
  h (.link a d) (by simpa [RbLoc.owner] using ha)

theorem SameOff.root_eq (h : SameOff s m m') : m' .root = m .root := h .root (by simp [RbLoc.owner])

@[simp] theorem SameOff.refl (s : List α) (m : RbMem α) : SameOff s m m := fun _ _ => rfl

theorem SameOff.way (h : SameOff s m m') (hp : Way m up p x) (hs : s.Disjoint (nodes p)) :
    Way m' up p x :=
  hp.congr (fun _ ha => h.up_eq fun has => hs has ha) fun _ ha _ => h.link_eq fun has => hs has ha

theorem SameOff.holds (h : SameOff s m m') (ht : Holds m up t) (hs : s.Disjoint t.toList) :
    Holds m' up t :=
  ht.congr (fun _ ha => h.up_eq fun has => hs has ha) fun _ ha _ => h.link_eq fun has => hs has ha

theorem IsTree.hole (h : IsTree m (plug p t)) : m (hole p) = some (.plain t.ptr) := by
  cases p with
  | nil => exact h.root
  | cons F p => exact (holds_plug.mp h.links).1.2.1

/-- The children of a node are different, unless both are missing. -/
theorem IsTree.ptr_ne_ptr (h : IsTree m (plug p (join d a long t t')))
    (hne : ¬(t = .nil ∧ t' = .nil)) : t'.ptr ≠ t.ptr := by
  obtain ⟨-, -, -, hdisj⟩ := nodup_join.mp (nodup_plug.mp h.nodup).1
  intro hptr
  cases ht : t.ptr with
  | none => exact hne ⟨ptr_eq_none.mp ht, ptr_eq_none.mp (hptr.trans ht)⟩
  | some b => exact hdisj (mem_of_ptr ht) (mem_of_ptr (hptr.trans ht))

variable [DecidableEq α]

@[simp] theorem holds_setUp (ha : a ∉ t.toList) : Holds (m.setUp a w) up t ↔ Holds m up t := by
  refine holds_congr (fun b hb => ?_) fun _ _ _ => rfl
  rw [setUp_up, if_neg (ne_of_mem_of_not_mem hb ha)]

@[simp] theorem holds_setLink (ha : a ∉ t.toList) :
    Holds (m.setLink a d x) up t ↔ Holds m up t := by
  refine holds_congr (fun _ _ => rfl) fun b hb e => ?_
  rw [setLink_link, if_neg fun hba => ne_of_mem_of_not_mem hb ha hba.1]

@[simp] theorem holds_reparent {y : Option α} (hx : ∀ a ∈ x, a ∉ t.toList) :
    Holds (m.reparent x y) up t ↔ Holds m up t := by
  refine holds_congr (fun b hb => ?_) fun _ _ _ => reparent_link
  rw [reparent_up, if_neg]
  rintro rfl
  exact hx b rfl hb

/-- The root of a subtree gets another parent. -/
theorem Holds.reparent_self (h : Holds m up t) (hnodup : t.toList.Nodup) {y : Option α} :
    Holds (m.reparent t.ptr y) y t := by
  cases t with
  | nil => trivial
  | node a long l r =>
    obtain ⟨hu, hl, hr, hhl, hhr⟩ := h
    have hnodup' : (join .left a long l r).toList.Nodup := hnodup
    obtain ⟨⟨hal, har⟩, -⟩ := nodup_join.mp hnodup'
    refine ⟨by simp [reparent_up, ptr, hu], by simpa using hl, by simpa using hr, ?_, ?_⟩
    · exact (holds_reparent (by simpa [ptr] using hal)).mpr hhl
    · exact (holds_reparent (by simpa [ptr] using har)).mpr hhr

theorem Way.setHole {y : Option α} (h : Way m up p x) (hp : (nodes p).Nodup) :
    Way (m.setHole p y) up p y := by
  cases p with
  | nil => trivial
  | cons F p =>
    obtain ⟨hu, hd, hf, hs, hp'⟩ := h
    simp only [nodes, List.nodup_cons, List.mem_append, not_or] at hp
    refine ⟨hu, by simp [RbMem.setHole], by simpa [RbMem.setHole] using hf, ?_, ?_⟩
    · exact (holds_setLink hp.1.1).mpr hs
    · refine hp'.congr (fun _ _ => rfl) fun b hb e => ?_
      rw [RbMem.setHole, setLink_link, if_neg]
      rintro ⟨rfl, -⟩
      exact hp.1.2 hb

theorem Holds.setHole (h : Holds m up t) (hp : t.toList.Disjoint (nodes p)) :
    Holds (m.setHole p x) up t := by
  cases p with
  | nil => exact h.congr (fun _ _ => rfl) fun _ _ _ => rfl
  | cons F p => exact (holds_setLink fun hF => hp hF (by simp [nodes])).mpr h

@[simp] theorem sameOff_setUp (ha : a ∈ s) : SameOff s m (m'.setUp a w) ↔ SameOff s m m' := by
  refine forall_congr' fun l => imp_congr_right fun hl => ?_
  rw [RbMem.setUp, Function.update_of_ne]
  rintro rfl
  exact hl a rfl ha

@[simp] theorem sameOff_setLink (ha : a ∈ s) :
    SameOff s m (m'.setLink a d x) ↔ SameOff s m m' := by
  refine forall_congr' fun l => imp_congr_right fun hl => ?_
  rw [RbMem.setLink, Function.update_of_ne]
  rintro rfl
  exact hl a rfl ha

@[simp] theorem sameOff_reparent {y : Option α} (hx : ∀ a ∈ x, a ∈ s) :
    SameOff s m (m'.reparent x y) ↔ SameOff s m m' := by
  cases x with
  | none => rfl
  | some a =>
    refine forall_congr' fun l => imp_congr_right fun hl => ?_
    rw [RbMem.reparent, Function.update_of_ne]
    rintro rfl
    exact hl a rfl (hx a rfl)

@[simp] theorem holds_rotate {c : α} {bits : Dir → Bool} (ha : a ∉ t.toList) (hc : c ∉ t.toList)
    (hx : ∀ b ∈ x, b ∉ t.toList) : Holds (m.rotate a c d x bits) up t ↔ Holds m up t := by
  rw [RbMem.rotate, holds_setUp ha, holds_setLink hc, holds_reparent hx, holds_setLink ha]

@[simp] theorem sameOff_rotate {c : α} {bits : Dir → Bool} (ha : a ∈ s) (hc : c ∈ s)
    (hx : ∀ b ∈ x, b ∈ s) : SameOff s m (m'.rotate a c d x bits) ↔ SameOff s m m' := by
  rw [RbMem.rotate, sameOff_setUp ha, sameOff_setLink hc, sameOff_reparent hx, sameOff_setLink ha]

/-- The node that goes down in a rotation. -/
theorem holds_rotate_join {c : α} {x : RankTree α} (hx : Holds m up x) (ht : Holds m (some a) t)
    (hlink : m (.link a d) = some (.plain t.ptr)) (hnodup : (join d.flip a long x t).toList.Nodup)
    (hc : c ∉ (join d.flip a long x t).toList) :
    Holds (m.rotate a c d x.ptr long) (some c) (join d.flip a long x t) := by
  simp only [nodup_join, mem_join, not_or] at hnodup hc
  obtain ⟨⟨hax, hat⟩, hxn, -, hxt⟩ := hnodup
  obtain ⟨hca, hcx, hct⟩ := hc
  rw [holds_join, Dir.flip_flip, holds_rotate hat hct (ptr_notMem hxt)]
  refine ⟨by simp, by simp [Ne.symm hca], by simpa [Ne.symm hca] using hlink, ?_, ht⟩
  rw [RbMem.rotate, holds_setUp hax, holds_setLink hcx]
  exact ((holds_setLink hax).mpr hx).reparent_self hxn

/-- Another subtree comes into a place; its links are right once the link to it is set. -/
theorem IsTree.place (h : IsTree m (plug p t)) (hoff : SameOff s m m') (hs : s.Disjoint (nodes p))
    (ht' : Holds m' (above none p) t') (hx : t'.ptr = x) (hnodup : t'.toList.Nodup)
    (hsub : t'.toList ⊆ s) : IsTree (m'.setHole p x) (plug p t') := by
  subst hx
  obtain ⟨-, hp, -⟩ := nodup_plug.mp h.nodup
  have hdisj : t'.toList.Disjoint (nodes p) := fun _ ha => hs (hsub ha)
  refine ⟨?_, holds_plug.mpr ⟨?_, ht'.setHole hdisj⟩, nodup_plug.mpr ⟨hnodup, hp, hdisj⟩⟩
  · cases p with
    | nil => simp [RbMem.setHole, plug]
    | cons F p =>
      rw [RbMem.setHole, setLink_root, hoff.root_eq, h.root, plug_ptr_cons]
  · exact (hoff.way (holds_plug.mp h.links).1 hs).setHole hp

/-- **A subtree is replaced** by one of the same nodes, or of some of them. -/
theorem IsTree.replace (h : IsTree m (plug p t)) (hoff : SameOff t.toList m m')
    (ht' : Holds m' (above none p) t') (hx : t'.ptr = x)
    (hsub : List.Sublist t'.toList t.toList) : IsTree (m'.setHole p x) (plug p t') := by
  obtain ⟨hnodup, -, hdisj⟩ := nodup_plug.mp h.nodup
  exact h.place hoff hdisj ht' hx (hnodup.sublist hsub) hsub.subset

/-- The edges of a node get other lengths. -/
theorem IsTree.relabel (h : IsTree m (plug p (join d a long t t'))) (long' : Dir → Bool) :
    IsTree (m.setUp a ⟨above none p, long'⟩) (plug p (join d a long' t t')) := by
  obtain ⟨hnodup, -, hdisj⟩ := nodup_plug.mp h.nodup
  obtain ⟨hp, hlinks⟩ := holds_plug.mp h.links
  obtain ⟨⟨hat, hat'⟩, -⟩ := nodup_join.mp hnodup
  obtain ⟨-, hd, hf, ht, ht'⟩ := holds_join.mp hlinks
  have hoff : SameOff [a] m (m.setUp a ⟨above none p, long'⟩) :=
    (sameOff_setUp (List.mem_singleton_self a)).mpr (.refl _ _)
  refine ⟨?_, holds_plug.mpr ⟨?_, ?_⟩, ?_⟩
  · rw [setUp_root, h.root, plug_ptr_congr p (join_ptr.trans join_ptr.symm)]
  · rw [join_ptr] at hp ⊢
    exact hoff.way hp fun b hb => by
      rw [List.mem_singleton.mp hb]
      exact hdisj (by simp)
  · rw [holds_join, holds_setUp hat, holds_setUp hat']
    exact ⟨by simp, hd, hf, ht, ht'⟩
  · rw [toList_plug_congr p (toList_join_congr rfl rfl)]
    exact h.nodup

end

end Propd
