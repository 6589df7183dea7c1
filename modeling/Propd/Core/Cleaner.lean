import Propd.Core.CacheTimes
import Propd.Lib.Transition

/-!
# The cleaner

The loop of `cache_cleaner`. It waits for a notice until a deadline, and sweeps the cache, unless
the notice comes too soon after the last sweep. An ignored notice arms a new deadline, like a sweep.

There is one clock, it does not go back, and a reading of it and a deadline fit 64 bits. A wait ends
when the notice is given, or at the deadline, and a turn of the loop takes no time.
-/

namespace Propd

open Lib

/-- `feature`; the product is one of 64-bit numbers. -/
def feature (now : Timestamp) (ms : UInt32) : Timestamp := now + ms.toUInt64.toInt64 * 1000000

/-- The loop at `sem_timedwait`: the cache, its variables, and the time. -/
structure Cleaner where
  cache : Cache
  last : Timestamp
  deadline : Timestamp
  clock : ClockReading

/-- The end of a wait: whether there is a notice, the time, and the items that the other threads
have left in the cache. -/
structure Wakeup where
  notice : Bool
  now : ClockReading
  tree : CString → Option CacheItem

namespace Cleaner

/-- The notice comes too soon. -/
def ignores (s : Cleaner) (w : Wakeup) : Bool :=
  w.notice && decide (w.now.1 - s.last < s.cache.minInterval)

/-- One turn of the loop, up to the next wait. -/
def turn (s : Cleaner) (w : Wakeup) : Cleaner :=
  let cache := { s.cache with tree := w.tree }
  let deadline := feature w.now.1 (cleanerMs cache)
  if s.ignores w then ⟨cache, s.last, deadline, w.now⟩
  -- `last` is what the items are compared with
  else ⟨cache.cleanerSweep w.now.1, w.now.1, deadline, w.now⟩

/-- A deadline that is armed now fits 64 bits. -/
def InRange (c : Cache) (now : ClockReading) : Prop :=
  now.1.toInt + (cleanerMs c).toNat * 1000000 < 2 ^ 63

end Cleaner

/-- The cleaner of a cache with the intervals of `c`. -/
def cleanerSystem (c : Cache) : LTS Cleaner Wakeup where
  init s := s.cache.minInterval = c.minInterval ∧ s.cache.maxInterval = c.maxInterval ∧
    s.last = 0 ∧ s.deadline = feature s.clock.1 (cleanerMs c) ∧ Cleaner.InRange c s.clock
  step s w s' := s.clock.1 ≤ w.now.1 ∧ w.now.1 ≤ s.deadline ∧
    (w.notice = false → w.now.1 = s.deadline) ∧ Cleaner.InRange c w.now ∧ s' = s.turn w

/-- The turn sweeps the cache. -/
def Sweeps (x : Cleaner × Wakeup) : Prop := x.1.ignores x.2 = false

/-! ## Times -/

section Times

variable {c : Cache}

/-- In range the deadline is exact. -/
theorem feature_toInt {now : ClockReading} {ms : UInt32}
    (h : now.1.toInt + ms.toNat * 1000000 < 2 ^ 63) :
    (feature now.1 ms).toInt = now.1.toInt + ms.toNat * 1000000 := by
  have hnow : 0 ≤ now.1.toInt := Int64.le_iff_toInt_le.mp now.2
  have hms : ms.toNat < 2 ^ 32 := ms.toNat_lt
  have hword : (ms.toUInt64.toInt64).toInt = ms.toNat := by
    rw [toInt_toInt64 (by rw [UInt32.toNat_toUInt64]; omega), UInt32.toNat_toUInt64]
  have hconst : (1000000 : Int64).toInt = 1000000 := by decide
  have hmul : (ms.toUInt64.toInt64 * 1000000).toInt = ms.toNat * 1000000 := by
    rw [Int64.toInt_mul, hword, hconst]
    exact Cache.bmod_of_range (by omega) (by omega)
  rw [feature, Int64.toInt_add, hmul]
  exact Cache.bmod_of_range (by omega) (by omega)

/-- The milliseconds of an interval are not longer than it. -/
theorem cleanerMs_le (hmax : 0 ≤ c.maxInterval) :
    ((cleanerMs c).toNat * 1000000 : ℤ) ≤ c.maxInterval.toInt := by
  have hpos : 0 ≤ c.maxInterval.toInt := Int64.le_iff_toInt_le.mp hmax
  have hlt := Int64.toInt_lt c.maxInterval
  have hconst : (1000000 : Int64).toInt = 1000000 := by decide
  have hms : (timestampToMs c.maxInterval).toInt = c.maxInterval.toInt / 1000000 := by
    rw [timestampToMs, Int64.toInt_div, hconst, Int.tdiv_eq_ediv_of_nonneg hpos]
    exact Cache.bmod_of_range (by omega) (by omega)
  have hmspos : (0 : Int64) ≤ timestampToMs c.maxInterval := by
    rw [Int64.le_iff_toInt_le, hms]
    exact Int.ediv_nonneg hpos (by decide)
  have hnat : (timestampToMs c.maxInterval).toNatClampNeg =
      (c.maxInterval.toInt / 1000000).toNat := by
    show (timestampToMs c.maxInterval).toInt.toNat = _
    rw [hms]
  have hle : (cleanerMs c).toNat ≤ (c.maxInterval.toInt / 1000000).toNat := by
    rw [cleanerMs, UInt64.toNat_toUInt32, Int64.toNat_toUInt64_of_le hmspos, hnat]
    exact Nat.mod_le _ _
  omega

/-! ## One turn -/

/-- The intervals are those of `c`, and the last sweep is not in the future. -/
structure Cleaner.Fits (c : Cache) (s : Cleaner) : Prop where
  min : s.cache.minInterval = c.minInterval
  max : s.cache.maxInterval = c.maxInterval
  nonneg : 0 ≤ s.last.toInt
  past : s.last.toInt ≤ s.clock.1.toInt

variable {s s' : Cleaner} {w : Wakeup}

/-- The age of the last sweep is exact. -/
theorem Cleaner.Fits.age (h : s.Fits c) (hclock : s.clock.1 ≤ w.now.1) :
    (w.now.1 - s.last).toInt = w.now.1.toInt - s.last.toInt := by
  have hnow := Int64.le_iff_toInt_le.mp hclock
  have hlast := h.nonneg
  have hpast := h.past
  have hlt := Int64.toInt_lt w.now.1
  rw [Int64.toInt_sub]
  exact Cache.bmod_of_range (by omega) (by omega)

/-- What a turn does to the variables of the loop. -/
structure Turned (c : Cache) (s : Cleaner) (w : Wakeup) (s' : Cleaner) : Prop where
  fits : s'.Fits c
  armed : s'.deadline.toInt ≤ w.now.1.toInt + c.maxInterval.toInt
  last : (Sweeps (s, w) ∧ s'.last = w.now.1 ∧
      (w.notice = true → c.minInterval.toInt ≤ w.now.1.toInt - s.last.toInt)) ∨
    (¬ Sweeps (s, w) ∧ s'.last = s.last ∧ w.notice = true ∧
      w.now.1.toInt - s.last.toInt < c.minInterval.toInt)

/-- **A turn sweeps, or there was a notice that came too soon.** -/
theorem turned (hmax : 0 ≤ c.maxInterval) (h : s.Fits c) (hs : (cleanerSystem c).step s w s') :
    Turned c s w s' := by
  obtain ⟨hclock, -, -, hrange, rfl⟩ := hs
  have hage := h.age hclock
  have hnow := Int64.le_iff_toInt_le.mp hclock
  have hnonneg := h.nonneg
  have hpast := h.past
  have hms : cleanerMs { s.cache with tree := w.tree } = cleanerMs c := by
    rw [cleanerMs, cleanerMs, h.max]
  have harmed : (feature w.now.1 (cleanerMs c)).toInt ≤ w.now.1.toInt + c.maxInterval.toInt := by
    rw [feature_toInt hrange]
    exact Int.add_le_add_left (cleanerMs_le hmax) _
  unfold Cleaner.turn
  simp only [hms]
  cases hignore : s.ignores w with
  | true =>
    rw [if_pos rfl]
    obtain ⟨hnotice, hsoon⟩ := Bool.and_eq_true_iff.mp hignore
    rw [decide_eq_true_iff, Int64.lt_iff_toInt_lt, hage, h.min] at hsoon
    have hkept : ¬ Sweeps (s, w) := fun hsweep => by
      rw [Sweeps, hignore] at hsweep
      cases hsweep
    exact ⟨⟨h.min, h.max, hnonneg, Int.le_trans hpast hnow⟩, harmed,
      .inr ⟨hkept, rfl, hnotice, hsoon⟩⟩
  | false =>
    rw [if_neg (by decide)]
    have hlate : w.notice = true → c.minInterval.toInt ≤ w.now.1.toInt - s.last.toInt := by
      intro hnotice
      rw [Cleaner.ignores, hnotice, Bool.true_and, decide_eq_false_iff_not, Int64.lt_iff_toInt_lt,
        hage, h.min] at hignore
      exact Int.not_lt.mp hignore
    exact ⟨⟨h.min, h.max, Int.le_trans hnonneg (Int.le_trans hpast hnow), Int.le_refl _⟩, harmed,
      .inl ⟨hignore, rfl, hlate⟩⟩

/-! ## Runs -/

/-- What holds of the sweeps so far, and of the deadline if there is one. -/
structure Swept (c : Cache) (tr : List (Cleaner × Wakeup)) (s : Cleaner) : Prop where
  fits : s.Fits c
  past : ∀ x ∈ tr, Sweeps x → x.2.now.1.toInt ≤ s.last.toInt
  apart : tr.Pairwise fun x y => Sweeps x → Sweeps y → y.2.notice = true →
    c.minInterval.toInt ≤ y.2.now.1.toInt - x.2.now.1.toInt
  armed : (∃ x ∈ tr, Sweeps x) →
    s.deadline.toInt ≤ s.last.toInt + c.minInterval.toInt + c.maxInterval.toInt

/-- **A turn keeps it.** -/
theorem Swept.turn {tr : List (Cleaner × Wakeup)} (hmin : 0 ≤ c.minInterval)
    (hmax : 0 ≤ c.maxInterval) (h : Swept c tr s) (hs : (cleanerSystem c).step s w s') :
    Swept c (tr ++ [(s, w)]) s' := by
  have hmin' : 0 ≤ c.minInterval.toInt := Int64.le_iff_toInt_le.mp hmin
  have hnow := Int64.le_iff_toInt_le.mp hs.1
  have hpast := h.fits.past
  obtain ⟨hfits, harmed, hlast⟩ := turned hmax h.fits hs
  refine ⟨hfits, ?_, ?_, fun _ => ?_⟩
  · -- the sweeps before this turn, and this one
    intro x hx hsweep
    rcases List.mem_append.mp hx with hx | hx
    · have hx' := h.past x hx hsweep
      rcases hlast with ⟨-, heq, -⟩ | ⟨-, heq, -⟩ <;> rw [heq] <;> omega
    · obtain rfl := List.mem_singleton.mp hx
      rcases hlast with ⟨-, heq, -⟩ | ⟨hno, -⟩
      · exact Int.le_of_eq (congrArg Int64.toInt heq.symm)
      · exact absurd hsweep hno
  · refine List.pairwise_append.mpr ⟨h.apart, List.pairwise_singleton _ _, ?_⟩
    intro x hx y hy hsweep hsweep' hnotice
    obtain rfl := List.mem_singleton.mp hy
    have hx' := h.past x hx hsweep
    rcases hlast with ⟨-, -, hlate⟩ | ⟨hno, -⟩
    · have hlate' := hlate hnotice
      simp only
      omega
    · exact absurd hsweep' hno
  · rcases hlast with ⟨-, heq, -⟩ | ⟨-, heq, -, hsoon⟩ <;> rw [heq] <;> omega

/-- A loop that starts has not swept. -/
theorem Swept.start (h : (cleanerSystem c).init s) : Swept c [] s := by
  obtain ⟨hmin, hmax, hlast, -, -⟩ := h
  have hclock : 0 ≤ s.clock.1.toInt := Int64.le_iff_toInt_le.mp s.clock.2
  have hzero : s.last.toInt = 0 := by
    rw [hlast]
    rfl
  refine ⟨⟨hmin, hmax, Int.le_of_eq hzero.symm, hzero ▸ hclock⟩,
    fun x hx => absurd hx List.not_mem_nil,
    .nil, ?_⟩
  rintro ⟨x, hx, -⟩
  exact absurd hx List.not_mem_nil

/-- **Notices neither hurry nor starve the cleaner.** In every run two sweeps of which the later
follows a notice are at least the minimal interval apart; and from the first sweep on the armed
deadline is at most both intervals after the last sweep, so the next wait ends by then, and it ends
with a sweep unless a notice ended it. -/
theorem cleaner_sweeps (c : Cache) (hmin : 0 ≤ c.minInterval) (hmax : 0 ≤ c.maxInterval)
    {s₀ s : Cleaner} {tr : List (Cleaner × Wakeup)} (h₀ : (cleanerSystem c).init s₀)
    (hp : (cleanerSystem c).Path s₀ tr s) :
    (tr.Pairwise fun x y => Sweeps x → Sweeps y → y.2.notice = true →
      c.minInterval.toInt ≤ y.2.now.1.toInt - x.2.now.1.toInt) ∧
    ((∃ x ∈ tr, Sweeps x) →
      s.deadline.toInt ≤ s.last.toInt + c.minInterval.toInt + c.maxInterval.toInt ∧
      ∀ w s', (cleanerSystem c).step s w s' →
        w.now.1.toInt ≤ s.last.toInt + c.minInterval.toInt + c.maxInterval.toInt ∧
          (w.notice = false → Sweeps (s, w))) := by
  have hswept : Swept c tr s :=
    hp.invariant (.start h₀) fun tr s w s' _ h hs => h.turn hmin hmax hs
  refine ⟨hswept.apart, fun hsome => ⟨hswept.armed hsome, fun w s' hs => ⟨?_, fun hnotice => ?_⟩⟩⟩
  · exact Int.le_trans (Int64.le_iff_toInt_le.mp hs.2.1) (hswept.armed hsome)
  · rw [Sweeps, Cleaner.ignores, hnotice, Bool.false_and]

end Times

/-- A cleaner that starts: half a second, and one second. -/
def exampleCleaner : Cleaner :=
  ⟨cacheCreate (timestampFromMs 500) (timestampFromS 1) 0 0, 0, 1000000000, ⟨0, by decide⟩⟩

def exampleTimeout : Wakeup := ⟨false, ⟨1000000000, by decide⟩, fun _ => none⟩

/-- A notice after less than half a second. -/
def exampleNotice : Wakeup := ⟨true, ⟨1200000000, by decide⟩, fun _ => none⟩

/-- The ignored notice arms a later deadline. -/
theorem cleaner_sweeps_ignored :
    ((exampleCleaner.turn exampleTimeout).turn exampleNotice).deadline.toInt = 2200000000 ∧
      ((exampleCleaner.turn exampleTimeout).turn exampleNotice).deadline.toInt ≤ 2500000000 := by
  have hsweep : (cleanerSystem exampleCleaner.cache).step exampleCleaner exampleTimeout
      (exampleCleaner.turn exampleTimeout) :=
    ⟨by decide, by decide, by decide, by unfold Cleaner.InRange; decide, rfl⟩
  have hignore : (cleanerSystem exampleCleaner.cache).step (exampleCleaner.turn exampleTimeout)
      exampleNotice ((exampleCleaner.turn exampleTimeout).turn exampleNotice) :=
    ⟨by decide, by decide, by decide, by unfold Cleaner.InRange; decide, rfl⟩
  have hrun := (cleaner_sweeps exampleCleaner.cache (by decide) (by decide)
    ⟨rfl, rfl, rfl, by decide, by unfold Cleaner.InRange; decide⟩ (.snoc (.snoc .nil hsweep) hignore)).2
  refine ⟨by decide, (hrun ⟨(exampleCleaner, exampleTimeout), by simp, ?_⟩).1⟩
  rw [Sweeps]
  decide

end Propd
