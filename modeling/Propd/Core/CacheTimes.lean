import Propd.Core.TimedMap

/-!
# The times of the cache in 64 and in 32 bits

The options give seconds as `unsigned long`, a storage gives nanoseconds as `int64_t`, and the
cleaner's deadline is computed from `unsigned int` milliseconds. The functions compute with these
widths; `TimesExact` says that nothing is lost in them.
-/

namespace Propd

/-- A reading of the monotonic clock. -/
abbrev ClockReading := { now : Timestamp // 0 ≤ now }

def timestampFromMs (ms : Int64) : Timestamp := ms * 1000000

def timestampFromS (s : Int64) : Timestamp := s * 1000000000

def timestampToMs (t : Timestamp) : Int64 := t / 1000000

/-- The fields of `propd_config_t` for the cache, in seconds. -/
structure CacheConfig where
  cacheInterval : Timestamp
  cacheDefaultDuration : Timestamp

/-- `propd_config_parse`, on what `strtoul` makes of `--enable-cache` and
`--default-duration`. -/
def cacheConfigParse (enable default : UInt64) : CacheConfig :=
  ⟨enable.toInt64, default.toInt64⟩

/-- `cache_create` -/
def cacheCreate (minInterval maxInterval defaultDuration minDuration : Timestamp) : Cache :=
  ⟨fun _ => none, minInterval, maxInterval, defaultDuration, minDuration⟩

/-- The cache `propd_run` creates, if any. -/
def CacheConfig.cache (config : CacheConfig) : Option Cache :=
  if config.cacheInterval ≠ 0 then
    some (cacheCreate (timestampFromMs 500) (timestampFromS config.cacheInterval)
      (timestampFromS config.cacheDefaultDuration) (timestampFromMs 100))
  else none

/-- The `unsigned int` that `cache_cleaner` passes to `feature`. -/
def cleanerMs (c : Cache) : UInt32 := (timestampToMs c.maxInterval).toUInt64.toUInt32

/-- The durations as the options give them. -/
def exactTimes (default : UInt64) : TimedMap := ⟨default.toNat * 10 ^ 9, 10 ^ 8⟩

/-- The fixed-width times of a cache are the exact ones: of its intervals, and of an item that is
set for `duration` when the clock shows `since`. The item is found until it has lasted, and not
longer. -/
structure TimesExact (c : Cache) (enable default : UInt64) (duration : Timestamp)
    (since : ClockReading) : Prop where
  interval : c.maxInterval.toInt = enable.toNat * 10 ^ 9
  fallback : c.defaultDuration.toInt = default.toNat * 10 ^ 9
  cleaner : ((cleanerMs c).toNat : ℤ) = enable.toNat * 1000
  deadline : (exactTimes default).lasts duration.toInt ≠ DURATION_INF.toInt →
    (since.1 + c.clampDuration duration).toInt =
      since.1.toInt + (exactTimes default).lasts duration.toInt
  left : (exactTimes default).lasts duration.toInt ≠ DURATION_INF.toInt →
    ∀ now : ClockReading, since ≤ now →
      (c.clampDuration duration - (now.1 - since.1)).toInt =
        (exactTimes default).lasts duration.toInt - (now.1.toInt - since.1.toInt)
  found : ∀ key value, ∃ c', c.cacheSet key value duration since.1 .all = .ok (c', .ok ()) ∧
    ∀ now : ClockReading, since ≤ now →
      ((∃ left, c'.cacheGet key now.1 true = .ok (.ok (value, left))) ↔
        (exactTimes default).lasts duration.toInt = DURATION_INF.toInt ∨
          now.1.toInt - since.1.toInt < (exactTimes default).lasts duration.toInt)

/-- The options and the duration stay in their ranges: milliseconds below `2 ^ 32`, nanoseconds
and the end of the item below `2 ^ 63`. -/
def TimesInRange (enable default : UInt64) (duration : Timestamp) (since : ClockReading) : Prop :=
  enable.toNat ≤ 4294967 ∧ default.toNat ≤ 9223372036 ∧
    ((exactTimes default).lasts duration.toInt = DURATION_INF.toInt ∨
      since.1.toInt + (exactTimes default).lasts duration.toInt < 2 ^ 63)

/-! ## Conversions -/

theorem toInt_toInt64 {n : UInt64} (h : n.toNat < 2 ^ 63) : n.toInt64.toInt = n.toNat := by
  have hcast : n.toInt64.toInt = (n.toNat : ℤ).bmod (2 ^ 64) := BitVec.toInt_eq_toNat_bmod _
  rw [hcast]
  exact Cache.bmod_of_range (by omega) (by omega)

/-- Seconds become nanoseconds without loss exactly up to 9223372036 of them. -/
theorem timestampFromS_toInt {n : UInt64} :
    (timestampFromS n.toInt64).toInt = n.toNat * 10 ^ 9 ↔ n.toNat ≤ 9223372036 := by
  constructor
  · intro h
    have hlt := Int64.toInt_lt (timestampFromS n.toInt64)
    rw [h] at hlt
    omega
  · intro h
    have hconst : (1000000000 : Int64).toInt = 10 ^ 9 := by decide
    rw [timestampFromS, Int64.toInt_mul, toInt_toInt64 (by omega), hconst]
    exact Cache.bmod_of_range (by omega) (by omega)

/-- The milliseconds of a number of seconds that is in range fit 32 bits exactly up to 4294967
seconds. -/
theorem cleanerMs_toNat {c : Cache} {n : UInt64} (h : c.maxInterval.toInt = n.toNat * 10 ^ 9) :
    ((cleanerMs c).toNat : ℤ) = n.toNat * 1000 ↔ n.toNat ≤ 4294967 := by
  constructor
  · intro hms
    have hlt := (cleanerMs c).toNat_lt
    omega
  · intro hle
    -- the division is exact
    have hms : (timestampToMs c.maxInterval).toInt = n.toNat * 1000 := by
      have hdiv : (n.toNat * 10 ^ 9 : ℤ).tdiv 1000000 = n.toNat * 1000 := by
        have hmul : (n.toNat * 10 ^ 9 : ℤ) = n.toNat * 1000 * 1000000 := by omega
        rw [hmul, Int.mul_tdiv_cancel _ (by decide)]
      have hconst : (1000000 : Int64).toInt = 1000000 := by decide
      rw [timestampToMs, Int64.toInt_div, h, hconst, hdiv]
      exact Cache.bmod_of_range (by omega) (by omega)
    have hpos : (0 : Int64) ≤ timestampToMs c.maxInterval := by
      have hzero : (0 : Int64).toInt = 0 := rfl
      rw [Int64.le_iff_toInt_le, hms, hzero]
      omega
    have hnat : (timestampToMs c.maxInterval).toNatClampNeg = n.toNat * 1000 := by
      show (timestampToMs c.maxInterval).toInt.toNat = _
      omega
    rw [cleanerMs, UInt64.toNat_toUInt32, Int64.toNat_toUInt64_of_le hpos, hnat,
      Nat.mod_eq_of_lt (by omega)]
    omega

/-! ## Items -/

section Item

variable {c : Cache} {default : UInt64} {duration : Timestamp} {since : ClockReading}

/-- What an item lasts is never negative. -/
theorem lasts_nonneg (default : UInt64) (duration : Timestamp) :
    0 ≤ (exactTimes default).lasts duration.toInt := by
  unfold TimedMap.lasts exactTimes
  split
  · exact Int.mul_nonneg (Int.natCast_nonneg _) (by decide)
  · exact Int.le_trans (by decide : (0 : ℤ) ≤ 10 ^ 8) (Int.le_max_left ..)

/-- A cache with the exact durations computes the exact duration of an item. -/
theorem clampDuration_exact (duration : Timestamp)
    (hdefault : c.defaultDuration.toInt = default.toNat * 10 ^ 9) (hmin : c.minDuration.toInt = 10 ^ 8) :
    (c.clampDuration duration).toInt = (exactTimes default).lasts duration.toInt := by
  have hmap : c.timedMap = exactTimes default := by
    rw [Cache.timedMap, exactTimes, hdefault, hmin]
  rw [c.clampDuration_toInt, hmap]

/-- The item of a set is found exactly while it is not out of date. -/
theorem cacheGet_stored {key : CString} {value : Value} {now : Timestamp} :
    (∃ left, (c.put key (some (c.stored value duration since.1))).cacheGet key now true =
        .ok (.ok (value, left))) ↔
      durationIsOutdate (c.stored value duration since.1) now = false := by
  have hget : (c.put key (some (c.stored value duration since.1))).cacheGet key now true =
      if durationIsOutdate (c.stored value duration since.1) now then .ok (.error ENOENT)
      else .ok (.ok (value, c.remain (c.stored value duration since.1) now)) := by
    unfold Cache.cacheGet
    rw [Cache.put_tree_self]
    rfl
  rw [hget]
  cases durationIsOutdate (c.stored value duration since.1) now with
  | true => simp
  | false => simp

/-- An item whose end is in range is out of date exactly once it has lasted. -/
theorem stored_alive {value : Value} {now : Timestamp}
    (hclamp : (c.clampDuration duration).toInt = (exactTimes default).lasts duration.toInt)
    (hrange : (exactTimes default).lasts duration.toInt = DURATION_INF.toInt ∨
      since.1.toInt + (exactTimes default).lasts duration.toInt < 2 ^ 63) :
    durationIsOutdate (c.stored value duration since.1) now = false ↔
      (exactTimes default).lasts duration.toInt = DURATION_INF.toInt ∨
        now.toInt - since.1.toInt < (exactTimes default).lasts duration.toInt := by
  have hsince : 0 ≤ since.1.toInt := Int64.le_iff_toInt_le.mp since.2
  have hlasts := lasts_nonneg default duration
  by_cases hinf : (exactTimes default).lasts duration.toInt = DURATION_INF.toInt
  · -- it has no end
    have hinf' : c.clampDuration duration = DURATION_INF :=
      duration_eq_inf.mpr (hclamp.trans hinf)
    simp [durationIsOutdate, Cache.stored, hinf', hinf]
  · have hinf' : c.clampDuration duration ≠ DURATION_INF := by
      intro h
      exact hinf (hclamp.symm.trans (duration_eq_inf.mp h))
    have hend := hrange.resolve_left hinf
    have hlo : -2 ^ 63 ≤ since.1.toInt + (c.clampDuration duration).toInt := by
      rw [hclamp]
      omega
    rw [← hclamp] at hend
    have halive : durationIsOutdate (c.stored value duration since.1) now = false ↔
        now.toInt < since.1.toInt + (c.clampDuration duration).toInt :=
      Cache.durationIsOutdate_eq_false hinf' hlo hend
    rw [halive, hclamp, or_iff_right hinf]
    omega

end Item

/-- The cache that is created where there is one. -/
theorem cacheConfigParse_cache {enable default : UInt64} (h : enable ≠ 0) :
    (cacheConfigParse enable default).cache = some (cacheCreate (timestampFromMs 500)
      (timestampFromS enable.toInt64) (timestampFromS default.toInt64) (timestampFromMs 100)) := by
  refine if_pos fun hzero => h ?_
  rw [← UInt64.toUInt64_toInt64 enable]
  exact congrArg Int64.toUInt64 hzero

/-- Exact times are in range. -/
theorem TimesExact.inRange {c : Cache} {enable default : UInt64} {duration : Timestamp}
    {since : ClockReading} (h : TimesExact c enable default duration since)
    (hdefault : c.defaultDuration = timestampFromS default.toInt64) :
    TimesInRange enable default duration since := by
  have hfallback := h.fallback
  rw [hdefault] at hfallback
  refine ⟨(cleanerMs_toNat h.interval).mp h.cleaner, timestampFromS_toInt.mp hfallback, ?_⟩
  by_cases hinf : (exactTimes default).lasts duration.toInt = DURATION_INF.toInt
  · exact .inl hinf
  · -- the exact end is a 64-bit number
    refine .inr ?_
    rw [← h.deadline hinf]
    exact Int64.toInt_lt _

/-- Times in range are exact. -/
theorem TimesInRange.exact {enable default : UInt64} {duration : Timestamp} {since : ClockReading}
    (h : TimesInRange enable default duration since) :
    TimesExact (cacheCreate (timestampFromMs 500) (timestampFromS enable.toInt64)
      (timestampFromS default.toInt64) (timestampFromMs 100)) enable default duration since := by
  obtain ⟨hms, hdefault, hrange⟩ := h
  have hsince : 0 ≤ since.1.toInt := Int64.le_iff_toInt_le.mp since.2
  have hlasts := lasts_nonneg default duration
  have hmin : (timestampFromMs 100).toInt = 10 ^ 8 := by decide
  have hinterval := timestampFromS_toInt.mpr (hms.trans (by decide) : enable.toNat ≤ 9223372036)
  have hfallback := timestampFromS_toInt.mpr hdefault
  have hclamp := clampDuration_exact (c := cacheCreate (timestampFromMs 500)
    (timestampFromS enable.toInt64) (timestampFromS default.toInt64) (timestampFromMs 100))
    duration hfallback hmin
  refine ⟨hinterval, hfallback, (cleanerMs_toNat hinterval).mpr hms, ?_, ?_, ?_⟩
  · intro hinf
    rw [Int64.toInt_add, hclamp]
    exact Cache.bmod_of_range (by omega) (hrange.resolve_left hinf)
  · intro hinf now hnow
    have hle : since.1.toInt ≤ now.1.toInt := Int64.le_iff_toInt_le.mp hnow
    have hmax := Int64.toInt_lt now.1
    have hage : (now.1 - since.1).toInt = now.1.toInt - since.1.toInt := by
      rw [Int64.toInt_sub]
      exact Cache.bmod_of_range (by omega) (by omega)
    have hend := hrange.resolve_left hinf
    rw [Int64.toInt_sub, hclamp, hage]
    exact Cache.bmod_of_range (by omega) (by omega)
  · intro key value
    refine ⟨_, Cache.cacheSet_all .., fun now _ => ?_⟩
    rw [cacheGet_stored]
    exact stored_alive hclamp hrange

/-- **The times are exact exactly where they stay in their ranges.** -/
theorem cacheTimes_exact_iff (enable default : UInt64) (duration : Timestamp)
    (since : ClockReading) :
    (∀ c, (cacheConfigParse enable default).cache = some c →
        TimesExact c enable default duration since) ↔
      enable = 0 ∨ TimesInRange enable default duration since := by
  by_cases henable : enable = 0
  · -- no cache
    refine iff_of_true ?_ (.inl henable)
    rintro c hc
    subst henable
    cases hc
  · have hcache := @cacheConfigParse_cache enable default henable
    rw [or_iff_right henable]
    constructor
    · intro h
      exact (h _ hcache).inRange rfl
    · rintro hrange c hc
      rw [hcache] at hc
      cases hc
      exact hrange.exact

/-- The default duration may be 9223372037 seconds, and an item is out of date as soon as it is
set. An interval of 4294968 seconds is taken for one of 704 milliseconds. -/
theorem cacheTimes_wrap :
    (∃ c, (cacheConfigParse 60 9223372037).cache = some c ∧ c.defaultDuration.toInt < 0 ∧
        ¬TimesExact c 60 9223372037 0 ⟨0, by decide⟩) ∧
      ∃ c, (cacheConfigParse 4294968 1).cache = some c ∧ cleanerMs c = 704 ∧
        ¬TimesExact c 4294968 1 0 ⟨0, by decide⟩ := by
  refine ⟨⟨_, rfl, by decide, fun h => ?_⟩, _, rfl, by decide, fun h => ?_⟩
  · exact absurd h.fallback (by decide)
  · exact absurd h.cleaner (by decide)

/-- A storage returns one nanosecond less than the unlimited duration: an item that is set with it
is gone at once. -/
theorem cacheTimes_nearInf :
    ∃ c c', (cacheConfigParse 60 1).cache = some c ∧
      c.cacheSet exampleKey exampleValue (DURATION_INF - 1) 2 .all = .ok (c', .ok ()) ∧
      c'.cacheGet exampleKey 2 true = .ok (.error ENOENT) :=
  ⟨_, _, rfl, rfl, rfl⟩

end Propd
