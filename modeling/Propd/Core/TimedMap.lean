import Propd.Core.Cache

/-!
# The cache is a timed map

What the callers of `cache.c` may rely on, said without a tree and without a cleaner: the
answer to a get is read off the history of the calls. The last set of the key counts, unless
a del came after it or its duration has run out.

The cleaner may sweep at any time between the calls. A sweep takes only what no get would
return any more, so nobody can tell.
-/

namespace Propd

/-- A call of the cache, or a sweep of its cleaner. -/
inductive CacheOp
  | set (key : CString) (value : Value) (duration : Timestamp)
  | get (key : CString)
  | del (key : CString)
  | sweep
  deriving DecidableEq

/-- The key a call is for. -/
def CacheOp.key : CacheOp → Option CString
  | set key _ _ => some key
  | get key => some key
  | del key => some key
  | sweep => none

/-- What a `cache_get` of a key returns. -/
abbrev CacheAnswer := CString × Except Errno (Value × Timestamp)

namespace Cache

/-- One call at a reading of the clock, with its allocations; a get has an answer. -/
def call (c : Cache) (now : Timestamp) : CacheOp → Except Fault (Cache × Option CacheAnswer)
  | .set key value duration => (c.cacheSet key value duration now .all).map fun r => (r.1, none)
  | .get key => (c.cacheGet key now true).map fun r => (c, some (key, r))
  | .del key => .ok ((c.cacheDel key).1, none)
  | .sweep => .ok (c.cleanerSweep now, none)

/-- Calls one after the other, with the answers the gets had. -/
def calls (c : Cache) : List (Timestamp × CacheOp) → Except Fault (Cache × List CacheAnswer)
  | [] => .ok (c, [])
  | (now, op) :: rest => do
    let (c', answer) ← c.call now op
    let (c'', answers) ← c'.calls rest
    .ok (c'', answer.toList ++ answers)

end Cache

/-- An answer, with the 64-bit duration as a number. -/
def CacheAnswer.view (a : CacheAnswer) : CString × Except Errno (Value × ℤ) :=
  (a.1, a.2.map fun x => (x.1, x.2.toInt))

/-! ## The timed map -/

/-- The durations `cache_create` is given. -/
structure TimedMap where
  default : ℤ
  min : ℤ

namespace TimedMap

/-- How long a value that is set for `duration` lasts. -/
def lasts (m : TimedMap) (duration : ℤ) : ℤ :=
  if duration = 0 then m.default else max m.min duration

/-- The last set of the key in a history, newest call first, unless it was deleted since. -/
def lastSet (key : CString) : List (Timestamp × CacheOp) → Option (Timestamp × Value × Timestamp)
  | [] => none
  | (since, .set key' value duration) :: past =>
    if key' = key then some (since, value, duration) else lastSet key past
  | (_, .del key') :: past => if key' = key then none else lastSet key past
  | (_, _) :: past => lastSet key past

/-- The answer to a get after a history. -/
def answer (m : TimedMap) (past : List (Timestamp × CacheOp)) (now : ℤ) (key : CString) :
    Except Errno (Value × ℤ) :=
  match lastSet key past with
  | none => .error ENOENT
  | some (since, value, duration) =>
    if m.lasts duration.toInt = DURATION_INF.toInt then .ok (value, DURATION_INF.toInt)
    else if m.lasts duration.toInt ≤ now - since.toInt then .error ENOENT
    else .ok (value, max m.min (m.lasts duration.toInt - (now - since.toInt)))

/-- The answers to the gets of a list of calls that follow a history. -/
def answers (m : TimedMap) : List (Timestamp × CacheOp) → List (Timestamp × CacheOp) →
    List (CString × Except Errno (Value × ℤ))
  | _, [] => []
  | past, (now, .get key) :: rest =>
    (key, m.answer past now.toInt key) :: m.answers ((now, .get key) :: past) rest
  | past, (now, op) :: rest => m.answers ((now, op) :: past) rest

/-- The end of what is set for `duration` at `now` is a 64-bit number, if it has an end. -/
def InRange (m : TimedMap) (now : Timestamp) : CacheOp → Prop
  | .set _ _ duration => m.lasts duration.toInt ≠ DURATION_INF.toInt →
      -2 ^ 63 ≤ now.toInt + m.lasts duration.toInt ∧ now.toInt + m.lasts duration.toInt < 2 ^ 63
  | _ => True

end TimedMap

/-- The timed map a cache implements. -/
def Cache.timedMap (c : Cache) : TimedMap :=
  ⟨c.defaultDuration.toInt, c.minDuration.toInt⟩

/-! ## Durations -/

theorem Cache.clampDuration_toInt (c : Cache) (duration : Timestamp) :
    (c.clampDuration duration).toInt = c.timedMap.lasts duration.toInt := by
  have hzero : duration.toInt = 0 ↔ duration = 0 := by
    rw [← Int64.toInt_inj]
    rfl
  unfold Cache.clampDuration TimedMap.lasts
  by_cases h : duration = 0
  · -- 0 is replaced by the default
    rw [if_neg (not_not.mpr h), if_pos (hzero.mpr h)]
    rfl
  · -- a duration below the minimum is raised to it
    rw [if_pos h, if_neg (mt hzero.mp h)]
    simp only [Int64.lt_iff_toInt_lt, Cache.timedMap]
    split <;> omega

theorem duration_eq_inf {duration : Timestamp} :
    duration = DURATION_INF ↔ duration.toInt = DURATION_INF.toInt :=
  Int64.toInt_inj.symm

/-! ## The cache and the history -/

/-- The item a set of the past left, at a time where the clock shows `clock`. -/
structure LeftByPast (c : Cache) (past : List (Timestamp × CacheOp)) (clock : ℤ) (key : CString)
    (since : Timestamp) (value : Value) (duration : Timestamp) : Prop where
  last : TimedMap.lastSet key past = some (since, value, duration)
  before : since.toInt ≤ clock
  range : c.timedMap.InRange since (.set key value duration)

/-- The cache has the last set of every key, except where that has run out. -/
structure MatchesPast (c : Cache) (past : List (Timestamp × CacheOp)) (clock : ℤ) : Prop where
  present : ∀ key item, c.tree key = some item → ∃ since value duration,
    LeftByPast c past clock key since value duration ∧ item = c.stored value duration since
  absent : ∀ key, c.tree key = none → ∀ since value duration,
    TimedMap.lastSet key past = some (since, value, duration) →
      LeftByPast c past clock key since value duration ∧
        ∀ now : Timestamp, clock ≤ now.toInt →
          durationIsOutdate (c.stored value duration since) now = true

/-- What has run out stays so. -/
theorem durationIsOutdate_mono {item : CacheItem} {now later : Timestamp}
    (h : durationIsOutdate item now = true) (hle : now.toInt ≤ later.toInt) :
    durationIsOutdate item later = true := by
  simp only [durationIsOutdate, Bool.and_eq_true, decide_eq_true_eq, Int64.le_iff_toInt_le] at h ⊢
  exact ⟨h.1, Int.le_trans h.2 hle⟩

variable {c c' : Cache} {past : List (Timestamp × CacheOp)} {clock : ℤ} {key : CString}
  {since : Timestamp} {value : Value} {duration : Timestamp}

/-- The item of a set has run out exactly where the map says so. -/
theorem LeftByPast.outdate (h : LeftByPast c past clock key since value duration)
    (now : Timestamp) :
    durationIsOutdate (c.stored value duration since) now = true ↔
      c.timedMap.lasts duration.toInt ≠ DURATION_INF.toInt ∧
        c.timedMap.lasts duration.toInt ≤ now.toInt - since.toInt := by
  have hlasts := c.clampDuration_toInt duration
  by_cases hinf : c.clampDuration duration = DURATION_INF
  · -- an unlimited duration does not run out
    have hinf' := duration_eq_inf.mp hinf
    rw [hlasts] at hinf'
    simp [durationIsOutdate, Cache.stored, hinf, hinf']
  · -- the sum is in range, so the comparison is that of the integers
    have hfinite : c.timedMap.lasts duration.toInt ≠ DURATION_INF.toInt := by
      rw [← hlasts]
      exact mt duration_eq_inf.mpr hinf
    obtain ⟨hlo, hhi⟩ := h.range hfinite
    have halive : durationIsOutdate (c.stored value duration since) now = false ↔ _ :=
      Cache.durationIsOutdate_eq_false hinf (by rw [Cache.stored, hlasts]; exact hlo)
        (by rw [Cache.stored, hlasts]; exact hhi)
    rw [← not_iff_not, Bool.not_eq_true, halive]
    simp only [Cache.stored, hlasts, hfinite, ne_eq, not_false_eq_true, true_and]
    omega

/-- **A get answers what the map says.** -/
theorem MatchesPast.answer (h : MatchesPast c past clock) {now : Timestamp}
    (hle : clock ≤ now.toInt) (key : CString) :
    ∃ r, c.cacheGet key now true = .ok r ∧
      (r.map fun x => (x.1, x.2.toInt)) = c.timedMap.answer past now.toInt key := by
  unfold Cache.cacheGet TimedMap.answer
  cases hitem : c.tree key with
  | none =>
    refine ⟨_, rfl, ?_⟩
    cases hlast : TimedMap.lastSet key past with
    -- never set, or deleted
    | none => rfl
    | some entry =>
      -- the last set has run out, and was swept
      obtain ⟨since, value, duration⟩ := entry
      obtain ⟨hleft, hout⟩ := h.absent key hitem since value duration hlast
      obtain ⟨hfinite, hgone⟩ := (hleft.outdate now).mp (hout now hle)
      simp only [if_neg hfinite, if_pos hgone]
      rfl
  | some item =>
    obtain ⟨since, value, duration, hleft, rfl⟩ := h.present key item hitem
    have hlasts := c.clampDuration_toInt duration
    simp only [hleft.last]
    cases hout : durationIsOutdate (c.stored value duration since) now with
    | true =>
      -- it has run out, and was not swept yet
      obtain ⟨hfinite, hgone⟩ := (hleft.outdate now).mp hout
      refine ⟨_, rfl, ?_⟩
      rw [if_neg hfinite, if_pos hgone]
      rfl
    | false =>
      refine ⟨_, rfl, ?_⟩
      by_cases hinf : c.clampDuration duration = DURATION_INF
      · -- a hit that never runs out
        have hinf' := duration_eq_inf.mp hinf
        rw [hlasts] at hinf'
        rw [if_pos hinf']
        simp [Cache.remain, Cache.stored, hinf, Except.map]
      · have hfinite : c.timedMap.lasts duration.toInt ≠ DURATION_INF.toInt := by
          rw [← hlasts]
          exact mt duration_eq_inf.mpr hinf
        -- a hit with time left
        have halive : ¬ c.timedMap.lasts duration.toInt ≤ now.toInt - since.toInt := by
          intro hgone
          rw [(hleft.outdate now).mpr ⟨hfinite, hgone⟩] at hout
          cases hout
        rw [if_neg hfinite, if_neg halive]
        have hremain : (c.remain (c.stored value duration since) now).toInt = _ :=
          Cache.remain_toInt hinf (Int.le_trans hleft.before hle)
            (by simp only [Cache.stored, hlasts]; omega)
        simp only [Cache.stored, hlasts] at hremain
        show Except.ok (value, (c.remain (c.stored value duration since) now).toInt) = _
        rw [Cache.stored, hremain]
        -- the time left is counted from the set, or from its end
        have hrest : since.toInt + c.timedMap.lasts duration.toInt - now.toInt =
            c.timedMap.lasts duration.toInt - (now.toInt - since.toInt) := by omega
        rw [hrest]
        rfl

/-! ## Every call keeps to the history -/

/-- A call that changes the item of one key at most. -/
theorem MatchesPast.put (h : MatchesPast c past clock) {now : Timestamp}
    (hle : clock ≤ now.toInt) {op : CacheOp} {item : Option CacheItem}
    (hother : ∀ key', key' ≠ key →
      TimedMap.lastSet key' ((now, op) :: past) = TimedMap.lastSet key' past)
    (hpresent : ∀ x, item = some x → ∃ since value duration,
      LeftByPast c ((now, op) :: past) now.toInt key since value duration ∧
        x = c.stored value duration since)
    (habsent : item = none → TimedMap.lastSet key ((now, op) :: past) = none) :
    MatchesPast (c.put key item) ((now, op) :: past) now.toInt where
  present := by
    intro key' x hx
    rcases Cache.put_tree_eq_some hx with ⟨rfl, hnew⟩ | ⟨hkey, hold⟩
    · -- the key itself: its item is the new one
      obtain ⟨since, value, duration, hleft, heq⟩ := hpresent x hnew
      exact ⟨since, value, duration, ⟨hleft.last, hleft.before, hleft.range⟩, heq⟩
    · -- another key: neither its item nor its last set has changed
      obtain ⟨since, value, duration, hleft, heq⟩ := h.present key' x hold
      refine ⟨since, value, duration, ⟨?_, Int.le_trans hleft.before hle, hleft.range⟩, heq⟩
      rw [hother key' hkey]
      exact hleft.last
  absent := by
    intro key' hx since value duration hlast
    by_cases hkey : key' = key
    · -- the key itself has lost its item and its set
      subst hkey
      rw [Cache.put_tree_self] at hx
      rw [habsent hx] at hlast
      cases hlast
    · -- another key that was absent stays so
      rw [Cache.put_tree_of_ne c item hkey] at hx
      rw [hother key' hkey] at hlast
      obtain ⟨hleft, hout⟩ := h.absent key' hx since value duration hlast
      refine ⟨⟨?_, Int.le_trans hleft.before hle, hleft.range⟩, fun later hlater =>
        hout later (Int.le_trans hle hlater)⟩
      rw [hother key' hkey]
      exact hlast

/-- A call that the history takes no notice of, and that at most removes items that have run
out. -/
theorem MatchesPast.shrink (h : MatchesPast c past clock) {now : Timestamp}
    (hle : clock ≤ now.toInt) {op : CacheOp}
    (hlast : ∀ key, TimedMap.lastSet key ((now, op) :: past) = TimedMap.lastSet key past)
    (hsame : c'.minDuration = c.minDuration ∧ c'.defaultDuration = c.defaultDuration)
    (htree : ∀ key item, c'.tree key = some item → c.tree key = some item)
    (hgone : ∀ key item, c'.tree key = none → c.tree key = some item →
      durationIsOutdate item now = true) :
    MatchesPast c' ((now, op) :: past) now.toInt := by
  -- the durations of the cache are the same, so it is compared with the same map
  have hmap : c'.timedMap = c.timedMap := by rw [Cache.timedMap, hsame.1, hsame.2]; rfl
  have hstored : ∀ value duration since,
      c'.stored value duration since = c.stored value duration since := by
    intro value duration since
    unfold Cache.stored Cache.clampDuration
    rw [hsame.1, hsame.2]
  -- what the past left is left still
  have hleft : ∀ {key since value duration}, LeftByPast c past clock key since value duration →
      LeftByPast c' ((now, op) :: past) now.toInt key since value duration := by
    intro key since value duration hold
    refine ⟨?_, Int.le_trans hold.before hle, ?_⟩
    · rw [hlast]
      exact hold.last
    · rw [hmap]
      exact hold.range
  refine ⟨?_, ?_⟩
  · intro key item hitem
    obtain ⟨since, value, duration, hold, heq⟩ := h.present key item (htree key item hitem)
    exact ⟨since, value, duration, hleft hold, heq.trans (hstored ..).symm⟩
  · intro key hitem since value duration hset
    rw [hlast] at hset
    cases hold : c.tree key with
    -- absent before
    | none =>
      obtain ⟨hbefore, hout⟩ := h.absent key hold since value duration hset
      refine ⟨hleft hbefore, fun later hlater => ?_⟩
      rw [hstored]
      exact hout later (Int.le_trans hle hlater)
    -- removed now, so it has run out
    | some item =>
      obtain ⟨since', value', duration', hbefore, rfl⟩ := h.present key item hold
      have heq := hbefore.last
      rw [hset] at heq
      cases heq
      refine ⟨hleft hbefore, fun later hlater => ?_⟩
      rw [hstored]
      exact durationIsOutdate_mono (hgone key _ hitem hold) hlater

/-- One call keeps the cache in step with the history, and answers what the map says. -/
theorem MatchesPast.call (h : MatchesPast c past clock) {now : Timestamp} {op : CacheOp}
    (hle : clock ≤ now.toInt) (hrange : c.timedMap.InRange now op) :
    ∃ c' a, c.call now op = .ok (c', a) ∧ MatchesPast c' ((now, op) :: past) now.toInt ∧
      c'.timedMap = c.timedMap ∧
      ∀ rest, a.toList.map CacheAnswer.view ++ c.timedMap.answers ((now, op) :: past) rest =
        c.timedMap.answers past ((now, op) :: rest) := by
  cases op with
  -- a set leaves its item, and is the last one of its key
  | set key value duration =>
    refine ⟨c.put key (some (c.stored value duration now)), none, ?_, ?_, rfl, fun rest => rfl⟩
    · rw [Cache.call, Cache.cacheSet_all]
      rfl
    · apply h.put hle
      · intro key' hkey
        exact if_neg (Ne.symm hkey)
      · intro x hx
        cases hx
        exact ⟨now, value, duration, ⟨if_pos rfl, Int.le_refl _, hrange⟩, rfl⟩
      · nofun
  -- a get changes nothing
  | get key =>
    obtain ⟨r, hget, hview⟩ := h.answer hle key
    refine ⟨c, some (key, r), ?_, ?_, rfl, ?_⟩
    · rw [Cache.call, hget]
      rfl
    · apply h.shrink hle (fun _ => rfl) ⟨rfl, rfl⟩
      · intro key item hitem
        exact hitem
      · intro key item hnone hitem
        rw [hnone] at hitem
        cases hitem
    · intro rest
      show (key, r.map fun x => (x.1, x.2.toInt)) :: _ = _
      rw [hview]
      rfl
  -- a del takes the item and the set away
  | del key =>
    refine ⟨c.put key none, none, ?_, ?_, rfl, fun rest => rfl⟩
    · rw [Cache.call, Cache.cacheDel_tree]
    · apply h.put hle
      · intro key' hkey
        exact if_neg (Ne.symm hkey)
      · nofun
      · intro _
        exact if_pos rfl
  -- a sweep takes only items that have run out
  | sweep =>
    refine ⟨c.cleanerSweep now, none, rfl, ?_, rfl, fun rest => rfl⟩
    refine h.shrink hle (fun _ => rfl) ⟨rfl, rfl⟩ ?_ ?_
    · intro key item hitem
      exact (Cache.cleanerSweep_tree.mp hitem).1
    · intro key item hnone hitem
      by_contra halive
      rw [Bool.not_eq_true] at halive
      rw [Cache.cleanerSweep_tree.mpr ⟨hitem, halive⟩] at hnone
      cases hnone

/-- A list of calls, at readings of the clock that do not go back. -/
theorem MatchesPast.calls {ops : List (Timestamp × CacheOp)} (h : MatchesPast c past clock)
    (hclock : (ops.map fun x => x.1.toInt).Pairwise (· ≤ ·))
    (hafter : ∀ x ∈ ops, clock ≤ x.1.toInt) (hrange : ∀ x ∈ ops, c.timedMap.InRange x.1 x.2) :
    ∃ c' answers, c.calls ops = .ok (c', answers) ∧
      answers.map CacheAnswer.view = c.timedMap.answers past ops := by
  induction ops generalizing c past clock with
  | nil => exact ⟨c, [], rfl, rfl⟩
  -- the first call leads to a cache in step with a longer history
  | cons x rest ih =>
    obtain ⟨now, op⟩ := x
    obtain ⟨c₁, a, hcall, hmatches, hmap, hanswer⟩ :=
      h.call (hafter _ List.mem_cons_self) (hrange _ List.mem_cons_self)
    obtain ⟨hfirst, hrest⟩ := List.pairwise_cons.mp hclock
    have hlater : ∀ x ∈ rest, now.toInt ≤ x.1.toInt := by
      intro x hx
      exact hfirst _ (List.mem_map_of_mem hx)
    have hrange' : ∀ x ∈ rest, c₁.timedMap.InRange x.1 x.2 := by
      intro x hx
      rw [hmap]
      exact hrange x (List.mem_cons_of_mem _ hx)
    obtain ⟨c₂, answers, hcalls, hviews⟩ := ih hmatches hrest hlater hrange'
    refine ⟨c₂, a.toList ++ answers, ?_, ?_⟩
    · rw [Cache.calls, hcall]
      show (do
        let (c'', answers) ← c₁.calls rest
        Except.ok (c'', a.toList ++ answers)) = _
      rw [hcalls]
      rfl
    · rw [List.map_append, hviews, hmap]
      exact hanswer rest

/-! ## Keys by themselves -/

/-- Only the calls for a key count for the answers it gets. -/
theorem TimedMap.answers_filter (m : TimedMap) (key : CString)
    (past past' ops : List (Timestamp × CacheOp))
    (h : TimedMap.lastSet key past = TimedMap.lastSet key past') :
    (m.answers past ops).filter (fun a => a.1 = key) =
      m.answers past' (ops.filter fun x => x.2.key = some key) := by
  induction ops generalizing past past' with
  | nil => rfl
  | cons x rest ih =>
    obtain ⟨now, op⟩ := x
    -- a call for another key is not in the history of this one
    cases op with
    | set key' value duration =>
      by_cases hkey : key' = key
      · subst hkey
        rw [List.filter_cons_of_pos (by simp [CacheOp.key])]
        apply ih
        simp only [TimedMap.lastSet, if_true]
      · rw [List.filter_cons_of_neg (by simp [CacheOp.key, hkey])]
        apply ih
        rw [TimedMap.lastSet, if_neg hkey, h]
    | get key' =>
      -- a get is not a set, whatever its key
      have hsame : TimedMap.lastSet key ((now, .get key') :: past) =
          TimedMap.lastSet key past' := h
      by_cases hkey : key' = key
      · subst hkey
        rw [List.filter_cons_of_pos (by simp [CacheOp.key]), TimedMap.answers, TimedMap.answers,
          List.filter_cons_of_pos (by simp), TimedMap.answer, TimedMap.answer, h]
        congr 1
        exact ih _ _ hsame
      · rw [List.filter_cons_of_neg (by simp [CacheOp.key, hkey]), TimedMap.answers,
          List.filter_cons_of_neg (by simp [hkey])]
        exact ih _ _ hsame
    | del key' =>
      by_cases hkey : key' = key
      · subst hkey
        rw [List.filter_cons_of_pos (by simp [CacheOp.key])]
        apply ih
        simp only [TimedMap.lastSet, if_true]
      · rw [List.filter_cons_of_neg (by simp [CacheOp.key, hkey])]
        apply ih
        rw [TimedMap.lastSet, if_neg hkey, h]
    -- a sweep has no key
    | sweep =>
      rw [List.filter_cons_of_neg (by simp [CacheOp.key])]
      exact ih _ _ h

/-- Sweeps do not count. -/
theorem TimedMap.answers_noSweep (m : TimedMap) (past past' ops : List (Timestamp × CacheOp))
    (h : ∀ key, TimedMap.lastSet key past = TimedMap.lastSet key past') :
    m.answers past ops = m.answers past' (ops.filter fun x => x.2 ≠ .sweep) := by
  induction ops generalizing past past' with
  | nil => rfl
  | cons x rest ih =>
    obtain ⟨now, op⟩ := x
    cases op with
    | set key value duration =>
      rw [List.filter_cons_of_pos (by simp)]
      apply ih
      intro key'
      rw [TimedMap.lastSet, TimedMap.lastSet, h]
    | get key =>
      rw [List.filter_cons_of_pos (by simp), TimedMap.answers, TimedMap.answers, TimedMap.answer,
        TimedMap.answer, h]
      congr 1
      exact ih _ _ h
    | del key =>
      rw [List.filter_cons_of_pos (by simp)]
      apply ih
      intro key'
      rw [TimedMap.lastSet, TimedMap.lastSet, h]
    | sweep =>
      rw [List.filter_cons_of_neg (by simp)]
      exact ih _ _ h

/-- **The cache is a timed map.** Whatever is called, and wherever the cleaner sweeps: the
answers to the gets are those of the map to the calls alone, without the sweeps, and those to
the gets of one key are those to the calls for this key alone. -/
theorem cache_timedMap (c : Cache) (hempty : ∀ key, c.tree key = none)
    (ops : List (Timestamp × CacheOp)) (hclock : (ops.map fun x => x.1.toInt).Pairwise (· ≤ ·))
    (hrange : ∀ x ∈ ops, c.timedMap.InRange x.1 x.2) :
    ∃ c' answers, c.calls ops = .ok (c', answers) ∧
      answers.map CacheAnswer.view =
        c.timedMap.answers [] (ops.filter fun x => x.2 ≠ .sweep) ∧
      ∀ key, (answers.map CacheAnswer.view).filter (fun a => a.1 = key) =
        c.timedMap.answers [] (ops.filter fun x => x.2.key = some key) := by
  have hstart : MatchesPast c [] (-2 ^ 63) := by
    refine ⟨?_, nofun⟩
    intro key item hitem
    rw [hempty key] at hitem
    cases hitem
  obtain ⟨c', answers, hcalls, hviews⟩ :=
    hstart.calls hclock (fun x _ => Int64.le_toInt x.1) hrange
  refine ⟨c', answers, hcalls, ?_, ?_⟩
  · rw [hviews]
    exact TimedMap.answers_noSweep _ _ _ _ fun _ => rfl
  · intro key
    rw [hviews]
    exact TimedMap.answers_filter _ _ _ _ _ rfl

section Example

/-- The smallest duration is 0.1 s, the default 1 s. -/
def exampleCache : Cache := ⟨fun _ => none, 500000000, 1000000000, 1000000000, 100000000⟩

/-- A key is set for the default duration. It is got, a sweep does not take it, and 0.95 s
later 0.1 s are promised. At the end of its second it is gone, swept or not. -/
def exampleCalls : List (Timestamp × CacheOp) :=
  [(0, .set exampleKey exampleValue 0), (500000000, .get exampleKey), (600000000, .sweep),
    (950000000, .get exampleKey), (1000000000, .get exampleKey), (1000000000, .sweep),
    (1000000001, .get exampleKey)]

theorem cache_timedMap_example :
    ∃ c' answers, exampleCache.calls exampleCalls = .ok (c', answers) ∧
      answers.map CacheAnswer.view =
        [(exampleKey, .ok (exampleValue, 500000000)), (exampleKey, .ok (exampleValue, 100000000)),
          (exampleKey, .error ENOENT), (exampleKey, .error ENOENT)] := by
  have hrange : ∀ x ∈ exampleCalls, exampleCache.timedMap.InRange x.1 x.2 := by
    intro x hx
    simp only [exampleCalls, List.mem_cons, List.not_mem_nil, or_false] at hx
    rcases hx with rfl | rfl | rfl | rfl | rfl | rfl | rfl
    · intro _
      decide
    all_goals trivial
  obtain ⟨c', answers, hcalls, hviews, -⟩ :=
    cache_timedMap exampleCache (fun _ => rfl) exampleCalls (by decide) hrange
  exact ⟨c', answers, hcalls, hviews.trans (by decide)⟩

end Example

end Propd
