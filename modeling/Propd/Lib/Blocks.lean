import Mathlib.Data.List.Nodup
import Mathlib.Data.List.Perm.Basic
import Mathlib.Logic.Function.Basic

/-!
# Heaps of blocks

A heap is what is at each address. `Splits h out own` divides it between an owner, who has the
listed blocks, and the others, who have the blocks of `out`. The rules say what an allocation, a
write and a release do to the division; nobody touches what is not his own.
-/

namespace Propd.Lib

universe u v

variable {α : Type u} {β : Type v}

/-- The blocks of the heap are those of `out` and the listed ones, and no address is listed twice. -/
structure Splits (h out : α → Option β) (own : List (α × β)) : Prop where
  nodup : (own.map Prod.fst).Nodup
  apart : ∀ x ∈ own, out x.1 = none
  eq_some : ∀ {p b}, h p = some b ↔ out p = some b ∨ (p, b) ∈ own

namespace Splits

variable {h out : α → Option β} {own own' : List (α × β)} {p : α} {b : β}

theorem fst_mem (h : (p, b) ∈ own) : p ∈ own.map Prod.fst := List.mem_map.mpr ⟨(p, b), h, rfl⟩

theorem nil (h : α → Option β) : Splits h h [] :=
  ⟨List.nodup_nil, by simp, by simp⟩

theorem perm (hs : Splits h out own) (hperm : own.Perm own') : Splits h out own' :=
  ⟨(hperm.map _).nodup_iff.mp hs.nodup, fun x hx => hs.apart x (hperm.mem_iff.mpr hx),
    hs.eq_some.trans (or_congr_right hperm.mem_iff)⟩

/-- The owner's blocks are in the heap. -/
theorem get (hs : Splits h out own) (hmem : (p, b) ∈ own) : h p = some b :=
  hs.eq_some.mpr (.inr hmem)

theorem eq_none (hs : Splits h out own) : h p = none ↔ out p = none ∧ p ∉ own.map Prod.fst := by
  constructor
  · intro hp
    refine ⟨?_, fun hmem => ?_⟩
    · refine Option.eq_none_iff_forall_ne_some.mpr fun b hb => ?_
      exact Option.some_ne_none b ((hs.eq_some.mpr (.inl hb)).symm.trans hp)
    · obtain ⟨⟨q, b⟩, hb, rfl⟩ := List.mem_map.mp hmem
      exact Option.some_ne_none b ((hs.get hb).symm.trans hp)
  · rintro ⟨hout, hown⟩
    refine Option.eq_none_iff_forall_ne_some.mpr fun b hb => ?_
    rcases hs.eq_some.mp hb with hb | hb
    · exact Option.some_ne_none b (hb.symm.trans hout)
    · exact hown (fst_mem hb)

/-- An owner without blocks leaves the heap to the others. -/
theorem eq_of_nil (hs : Splits h out []) : h = out := by
  funext p
  refine Option.ext fun b => ?_
  simpa using hs.eq_some

/-- The others do what they like with their blocks, and with addresses that are not in use. -/
theorem others {h' out' : α → Option β} (hs : Splits h out own)
    (hown : ∀ p, h p ≠ none → out p = none → h' p = h p ∧ out' p = none)
    (hout : ∀ p, h p = none ∨ out p ≠ none → out' p = h' p) : Splits h' out' own := by
  have hmine : ∀ {p b}, (p, b) ∈ own → h' p = some b ∧ out' p = none := fun {p b} hmem => by
    have hp := hs.get hmem
    obtain ⟨heap, hnone⟩ := hown p (by simp [hp]) (hs.apart _ hmem)
    exact ⟨heap.trans hp, hnone⟩
  refine ⟨hs.nodup, fun x hx => (hmine hx).2, fun {p b} => ⟨fun hp => ?_, ?_⟩⟩
  · by_cases hin : h p ≠ none ∧ out p = none
    · obtain ⟨heap, -⟩ := hown p hin.1 hin.2
      rw [heap] at hp
      rcases hs.eq_some.mp hp with hpo | hmem
      · exact absurd (hin.2.symm.trans hpo) (Option.some_ne_none b).symm
      · exact .inr hmem
    · rw [hout p (by tauto)]
      exact .inl hp
  · rintro (hp | hmem)
    · by_cases hin : h p ≠ none ∧ out p = none
      · rw [(hown p hin.1 hin.2).2] at hp
        cases hp
      · rw [← hout p (by tauto)]
        exact hp
    · exact (hmine hmem).1

variable [DecidableEq α]

theorem update_eq_some (hs : Splits h out ((p, b) :: own)) {q : α} {c : β} {x : Option β} :
    Function.update h p x q = some c ↔ out q = some c ∨ (q, c) ∈ own ∨ (q = p ∧ x = some c) := by
  obtain ⟨hp, -⟩ := List.nodup_cons.mp hs.nodup
  have hout : out p = none := hs.apart _ List.mem_cons_self
  by_cases hq : q = p
  · subst hq
    have hown : (q, c) ∉ own := fun hmem => hp (fst_mem hmem)
    simp [hout, hown]
  · simp [hs.eq_some, hq]

/-- The owner writes to one of his blocks. -/
theorem write (hs : Splits h out ((p, b) :: own)) (b' : β) :
    Splits (Function.update h p (some b')) out ((p, b') :: own) := by
  refine ⟨hs.nodup, fun x hx => ?_, fun {q c} => ?_⟩
  · rcases List.mem_cons.mp hx with rfl | hx
    · exact hs.apart (p, b) List.mem_cons_self
    · exact hs.apart x (List.mem_cons_of_mem _ hx)
  · rw [hs.update_eq_some, List.mem_cons, Prod.mk.injEq, Option.some.injEq, or_comm (a := _ ∧ _),
      eq_comm (a := b')]

/-- He releases it. -/
theorem free (hs : Splits h out ((p, b) :: own)) : Splits (Function.update h p none) out own := by
  refine ⟨(List.nodup_cons.mp hs.nodup).2, fun x hx => hs.apart x (List.mem_cons_of_mem _ hx), ?_⟩
  intro q c
  simp [hs.update_eq_some]

/-- A block that is not in use becomes his. -/
theorem alloc (hs : Splits h out own) (hp : h p = none) (b : β) :
    Splits (Function.update h p (some b)) out ((p, b) :: own) := by
  obtain ⟨hout, hown⟩ := hs.eq_none.mp hp
  refine ⟨List.nodup_cons.mpr ⟨hown, hs.nodup⟩, ?_, fun {q c} => ?_⟩
  · rintro x hx
    rcases List.mem_cons.mp hx with rfl | hx
    · exact hout
    · exact hs.apart x hx
  · by_cases hq : q = p
    · subst hq
      have hmem : (q, c) ∉ own := fun hmem => hown (fst_mem hmem)
      simp [hout, hmem, eq_comm]
    · simp [hs.eq_some, hq]

/-- He hands a block over to the others. -/
theorem give (hs : Splits h out ((p, b) :: own)) :
    Splits h (Function.update out p (some b)) own := by
  obtain ⟨hp, hnodup⟩ := List.nodup_cons.mp hs.nodup
  refine ⟨hnodup, fun x hx => ?_, fun {q c} => ?_⟩
  · have hne : x.1 ≠ p := fun heq => hp (heq ▸ fst_mem hx)
    rw [Function.update_of_ne hne]
    exact hs.apart x (List.mem_cons_of_mem _ hx)
  · have hout : out p = none := hs.apart _ List.mem_cons_self
    by_cases hq : q = p
    · subst hq
      have hmem : (q, c) ∉ own := fun hmem => hp (fst_mem hmem)
      simp [hs.eq_some, hout, hmem, eq_comm]
    · simp [hs.eq_some, hq]

end Splits

end Propd.Lib
