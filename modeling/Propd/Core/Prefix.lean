import Propd.Core.Misc
import Propd.Core.Route

/-!
# Patterns

A pattern that ends in `*` is meant for every key with the prefix in front of it, any other
pattern for itself. `prefix_match` compares character by character and looks for the `*` only
where the two differ first, so a `*` in the key can hide the one of the pattern.
-/

namespace Propd

/-- **What the scan decides**: the two are equal, or the pattern goes on with `*` where the
strings differ first. -/
theorem prefixMatchLoop_iff {p s : List UInt8} :
    prefixMatchLoop p s = true ↔
      s = p ∨ ∃ front tail rest, p = front ++ star :: tail ∧ s = front ++ rest ∧
        rest.head? ≠ some star := by
  induction p generalizing s with
  | nil => cases s <;> simp [prefixMatchLoop]
  | cons c p ih =>
    cases s with
    | nil =>
      -- the string is at its end: the pattern must go on with `*` right here
      simp only [prefixMatchLoop, beq_iff_eq]
      constructor
      · rintro rfl
        exact .inr ⟨[], p, [], rfl, rfl, by simp⟩
      · rintro (h | ⟨front, tail, rest, hp, hs, -⟩)
        · cases h
        · obtain ⟨rfl, rfl⟩ := List.append_eq_nil_iff.mp hs.symm
          exact (List.cons.inj hp).1
    | cons d s =>
      by_cases hcd : c = d
      · -- the same character: what differs first differs behind it
        subst hcd
        simp only [prefixMatchLoop, if_true, ih]
        constructor
        · rintro (rfl | ⟨front, tail, rest, rfl, rfl, hrest⟩)
          · exact .inl rfl
          · exact .inr ⟨c :: front, tail, rest, rfl, rfl, hrest⟩
        · rintro (h | ⟨front, tail, rest, hp, hs, hrest⟩)
          · exact .inl (List.cons.inj h).2
          · cases front with
            | nil =>
              -- it would have to differ here
              obtain ⟨rfl, -⟩ := List.cons.inj hp
              cases hs
              exact absurd rfl hrest
            | cons x front =>
              obtain ⟨-, rfl⟩ := List.cons.inj hp
              obtain ⟨-, rfl⟩ := List.cons.inj hs
              exact .inr ⟨front, tail, rest, rfl, rfl, hrest⟩
      · -- different characters: only a `*` of the pattern counts
        simp only [prefixMatchLoop, if_neg hcd, beq_iff_eq]
        constructor
        · rintro rfl
          refine .inr ⟨[], p, d :: s, rfl, rfl, ?_⟩
          rw [List.head?_cons, ne_eq, Option.some.injEq]
          exact Ne.symm hcd
        · rintro (h | ⟨front, tail, rest, hp, hs, -⟩)
          · exact absurd (List.cons.inj h).1.symm hcd
          · cases front with
            | nil => exact (List.cons.inj hp).1
            | cons x front =>
              obtain ⟨rfl, -⟩ := List.cons.inj hp
              exact absurd (List.cons.inj hs).1.symm hcd

/-- A pattern followed by `*`. -/
def starred (p : CString) : CString :=
  p.append ⟨[star], by decide⟩

/-- A pattern without `*` is for itself. -/
theorem prefixMatch_exact {p s : CString} (hp : star ∉ p.bytes) :
    prefixMatch p s = true ↔ s = p := by
  rw [prefixMatch, prefixMatchLoop_iff, CString.ext_iff]
  refine or_iff_left ?_
  rintro ⟨front, tail, rest, heq, -⟩
  rw [heq] at hp
  exact hp List.mem_append_cons_self

/-- The key goes on behind the prefix with a `*` of its own, and something behind it. -/
def HidesStar (p s : CString) : Prop :=
  ∃ c tail, s.bytes = p.bytes ++ star :: c :: tail

/-- **What a pattern `p*` is for**: the keys with this prefix that do not hide its `*`. -/
theorem prefixMatch_starred {p s : CString} (hp : star ∉ p.bytes) :
    prefixMatch (starred p) s = true ↔ p.bytes <+: s.bytes ∧ ¬HidesStar p s := by
  rw [prefixMatch, prefixMatchLoop_iff]
  constructor
  · rintro (heq | ⟨front, tail, rest, hpat, hs, hrest⟩)
    · -- the key is the pattern
      rw [heq]
      refine ⟨List.prefix_append _ _, ?_⟩
      rintro ⟨c, tail, hhide⟩
      rw [heq] at hhide
      cases List.append_cancel_left hhide
    · -- the `*` they differ at is the last character of the pattern
      have hfront : front = p.bytes := by
        rcases List.eq_nil_or_concat tail with rfl | ⟨tail, c, rfl⟩
        · exact (List.append_inj_left' hpat rfl).symm
        · rw [List.concat_eq_append] at hpat
          refine absurd ?_ hp
          have hlast : p.bytes ++ [star] = (front ++ star :: tail) ++ [c] := by
            rw [List.append_assoc]
            exact hpat
          rw [List.append_inj_left' hlast rfl]
          exact List.mem_append_cons_self
      subst hfront
      refine ⟨hs ▸ List.prefix_append _ _, ?_⟩
      rintro ⟨c, tail', hhide⟩
      rw [List.append_cancel_left (hs.symm.trans hhide)] at hrest
      exact hrest rfl
  · rintro ⟨⟨rest, hs⟩, hhide⟩
    cases rest with
    | nil => exact .inr ⟨p.bytes, [], [], rfl, hs.symm, by simp⟩
    | cons c rest =>
      by_cases hc : c = star
      · subst hc
        cases rest with
        | nil => exact .inl hs.symm
        | cons d rest => exact absurd ⟨d, rest, hs.symm⟩ hhide
      · refine .inr ⟨p.bytes, [], c :: rest, rfl, hs.symm, ?_⟩
        rw [List.head?_cons, ne_eq, Option.some.injEq]
        exact hc

/-- The pattern `p*` is for exactly the keys with prefix `p`, the pattern `p` for exactly the key
`p`, and an item registered for `p*` receives a key with prefix `p` unless an earlier one does. -/
structure PrefixAgrees (p s : CString) : Prop where
  starred : prefixMatch (starred p) s = true ↔ p.bytes <+: s.bytes
  exact : prefixMatch p s = true ↔ s = p
  receives : ∀ (front : RouteList) (item : RouteItem) (back : RouteList),
    Propd.starred p ∈ item.prefixes → p.bytes <+: s.bytes →
      (∀ earlier ∈ front, earlier.serves s = false) →
        ∃ list, routeMatch (front ++ item :: back) s = .ok (list, item)

/-- The first item that serves a key receives it. -/
theorem routeMatch_append {front back : RouteList} {item : RouteItem} {key : CString}
    (hfront : ∀ earlier ∈ front, earlier.serves key = false) (hitem : item.serves key = true) :
    routeMatch (front ++ item :: back) key =
      .ok ((front ++ item :: back).addRef item.addr 1, item) := by
  have hnone : front.find? (fun it => it.serves key) = none := by
    rw [List.find?_eq_none]
    intro earlier hmem
    rw [hfront earlier hmem]
    exact Bool.false_ne_true
  have hfind : (front ++ item :: back).find? (fun it => it.serves key) = some item := by
    rw [List.find?_append, hnone, Option.none_or, List.find?_cons, hitem]
  rw [routeMatch, hfind]

/-- **Prefixes are matched as they are meant exactly for the keys that do not hide the `*`.** -/
theorem prefix_match_iff {p s : CString} (hp : star ∉ p.bytes) :
    PrefixAgrees p s ↔ ¬HidesStar p s := by
  constructor
  · intro h hhide
    obtain ⟨c, tail, hs⟩ := hhide
    -- such a key starts with the prefix, and the pattern is not for it
    have hprefix : p.bytes <+: s.bytes := ⟨_, hs.symm⟩
    exact ((prefixMatch_starred hp).mp (h.starred.mpr hprefix)).2 ⟨c, tail, hs⟩
  · intro hhide
    have hstarred : prefixMatch (starred p) s = true ↔ p.bytes <+: s.bytes := by
      rw [prefixMatch_starred hp]
      exact and_iff_left hhide
    refine ⟨hstarred, prefixMatch_exact hp, ?_⟩
    intro front item back hmem hprefix hfront
    have hserves : item.serves s = true :=
      List.any_eq_true.mpr ⟨starred p, hmem, hstarred.mpr hprefix⟩
    exact ⟨_, routeMatch_append hfront hserves⟩

/-- `ab*` and the key `abc`. -/
theorem prefix_match_iff_abc :
    PrefixAgrees ⟨[97, 98], by decide⟩ ⟨[97, 98, 99], by decide⟩ := by
  refine (prefix_match_iff (by decide)).mpr ?_
  rintro ⟨c, tail, h⟩
  cases h

/-- `a*` is not for the key `a*b`. -/
theorem prefix_match_hidden :
    prefixMatch (starred ⟨[97], by decide⟩) ⟨[97, 42, 98], by decide⟩ = false ∧
      ¬PrefixAgrees ⟨[97], by decide⟩ ⟨[97, 42, 98], by decide⟩ := by
  refine ⟨by decide, fun h => ?_⟩
  have hmatch := h.starred.mpr (by decide)
  revert hmatch
  decide

end Propd
