import MediaFlow.Mpd.Timeline

/-!
# The segments an `S` element stands for

What a `SegmentTimeline` means, as a relation between its elements and a list of segments
(`IsExpansion`), and `preprocess_timeline` with the `u64` counters of the release build
(`preprocessTimelineU64`).

* `IsExpansion` leaves the length of a repeated run open: it is `r + 1`, or whatever covers the
  span up to the next `t`, each segment of it starting inside.
* `timing_timelineFromU64`: the numbers and times of the code, with every sum taken mod 2⁶⁴.
* `isExpansion_wrappedTimings_iff`: they are the expansion when each element with `r = -1` needs one
  segment only and nothing wraps. The code reads `-1` as no repeat at all.
-/

open Text

namespace MediaFlow

/-! ### What the elements say -/

/-- How often the segment of an `S` element comes. -/
inductive SRepeat
  /-- Once, and `r` times more. -/
  | times (r : ℕ)
  /-- Until the next `S` element's `t`: `-1`. -/
  | untilNext

/-- An `S` element that is well formed, with its attributes as numbers. -/
structure STiming where
  t : Option ℕ
  d : ℕ
  r : SRepeat
  t_lt : ∀ n ∈ t, n < 2 ^ 64
  d_pos : 0 < d

/-- `r` as it is written, if it is. -/
inductive SRepeat.Reads : Option Str → SRepeat → Prop
  | absent : Reads none (.times 0)
  | times {v : Str} {n : ℕ} : parseU64 v = some n → Reads (some v) (.times n)
  | untilNext : Reads (some "-1".toList) .untilNext

/-- The element `s` as written is the timing `x`. -/
structure SElement.Reads (s : SElement) (x : STiming) : Prop where
  t : s.t.map parseU64 = x.t.map some
  d : parseU64 s.d = some x.d
  r : SRepeat.Reads s.r x.r

/-- The time at which the first of the elements starts, if it says so. -/
def nextTime (xs : List STiming) : Option ℕ := xs.head?.bind STiming.t

/-- After an element with `r = -1` comes one with a `t`. -/
def NextGiven : List STiming → Prop
  | [] => True
  | x :: rest => (x.r = .untilNext → (nextTime rest).isSome) ∧ NextGiven rest

/-! ### What they stand for -/

/-- The number, start and length of a segment. -/
@[ext]
structure Timing where
  number : ℕ
  time : ℕ
  duration : ℕ

/-- The number, start and length of an entry. -/
def TimelineEntry.timing (e : TimelineEntry) : Timing := ⟨e.number, e.time, e.duration⟩

/-- `n` segments of length `d` without a gap, from number `number` and time `start` on. -/
def segmentRun (number start d n : ℕ) : List Timing :=
  (List.range n).map fun i => ⟨number + i, start + i * d, d⟩

/-- `n` segments of length `d` from `start` on reach `next`, and each of them starts before it. -/
def Fills (start d next n : ℕ) : Prop := next ≤ start + n * d ∧ ∀ i < n, start + i * d < next

/-- The element stands for `n` segments, when its first one starts at `start`. -/
def STiming.HasCount (x : STiming) (start : ℕ) (rest : List STiming) (n : ℕ) : Prop :=
  match x.r with
  | .times r => n = r + 1
  | .untilNext => ∀ next ∈ nextTime rest, Fills start x.d next n

/-- The segments are those of the elements, from number `number` and time `current` on: one run for
each element, at its `t` or where the run before it stops. -/
def IsExpansion : ℕ → ℕ → List STiming → List Timing → Prop
  | _, _, [], segments => segments = []
  | number, current, x :: rest, segments =>
    ∃ n later, segments = segmentRun number (x.t.getD current) x.d n ++ later
      ∧ x.HasCount (x.t.getD current) rest n
      ∧ IsExpansion (number + n) (x.t.getD current + n * x.d) rest later

/-! ### The code with its counters -/

section Code

variable (periodStartUnix : ℚ) (presentationTimeOffset timescale : ℕ)

/-- The entry of the segment `number` at the time `t`. -/
def timelineEntry (duration number t : ℕ) : TimelineEntry :=
  let startUnix := periodStartUnix + ((t - presentationTimeOffset : ℕ) : ℚ) / timescale
  { number := number
    time := t
    duration := duration
    startUnix := some startUnix
    endUnix := some (startUnix + (duration : ℚ) / timescale) }

/-- The `n` entries of one `S` element; `t += duration` and `segment_number += 1` wrap. -/
def repeatEntriesU64 (duration : ℕ) : ℕ → ℕ → ℕ → List TimelineEntry
  | 0, _, _ => []
  | n + 1, number, t =>
    timelineEntry periodStartUnix presentationTimeOffset timescale duration number t
      :: repeatEntriesU64 duration n ((number + 1) % 2 ^ 64) ((t + duration) % 2 ^ 64)

/-- `preprocess_timeline` in the release build, from the current number and time on. -/
def timelineFromU64 : ℕ → ℕ → List SElement → List TimelineEntry
  | _, _, [] => []
  | number, currentTime, s :: rest =>
    let duration := (parseU64 s.d).getD 0
    let count := (s.r.bind parseU64).getD 0 + 1
    let startTime := (s.t.bind parseU64).getD currentTime
    repeatEntriesU64 periodStartUnix presentationTimeOffset timescale duration count number
        startTime
      ++ timelineFromU64 ((number + count) % 2 ^ 64) ((startTime + count * duration) % 2 ^ 64) rest

/-- `preprocess_timeline` in the release build. -/
def preprocessTimelineU64 (sElements : List SElement) (startNumber : ℕ) : List TimelineEntry :=
  timelineFromU64 periodStartUnix presentationTimeOffset timescale startNumber 0 sElements

end Code

/-! ### The counters -/

section

variable {periodStartUnix : ℚ} {presentationTimeOffset timescale : ℕ}

/-- One step of a counter that wraps, taken after the others. -/
theorem wrap_add (a b : ℕ) : (a % 2 ^ 64 + b) % 2 ^ 64 = (a + b) % 2 ^ 64 := Nat.mod_add_mod a _ b

/-- Without a wrap the run is the one over `ℕ`. -/
theorem repeatEntriesU64_eq {duration n number t : ℕ} (hnumber : number + n ≤ 2 ^ 64)
    (ht : n ≠ 0 → t + (n - 1) * duration < 2 ^ 64) :
    repeatEntriesU64 periodStartUnix presentationTimeOffset timescale duration n
        (number % 2 ^ 64) (t % 2 ^ 64)
      = repeatEntries periodStartUnix presentationTimeOffset timescale duration n number t := by
  induction n generalizing number t with
  | zero => rfl
  | succ n ih =>
    have hlast : t + n * duration < 2 ^ 64 := ht (Nat.succ_ne_zero n)
    have hhere : t < 2 ^ 64 := (Nat.le_add_right _ _).trans_lt hlast
    rw [repeatEntriesU64, repeatEntries, wrap_add, wrap_add, ih (by omega)]
    · rw [Nat.mod_eq_of_lt hhere, Nat.mod_eq_of_lt (show number < 2 ^ 64 by omega)]
      rfl
    · intro hn
      obtain ⟨m, rfl⟩ := Nat.exists_eq_succ_of_ne_zero hn
      calc t + duration + (m.succ - 1) * duration = t + m.succ * duration := by
            rw [Nat.succ_sub_one, Nat.succ_mul]; omega
        _ < 2 ^ 64 := hlast

theorem mem_repeatEntries {duration n i : ℕ} (hi : i < n) (number t : ℕ) :
    timelineEntry periodStartUnix presentationTimeOffset timescale duration (number + i)
        (t + i * duration)
      ∈ repeatEntries periodStartUnix presentationTimeOffset timescale duration n number t := by
  induction i generalizing n number t with
  | zero =>
    obtain ⟨n, rfl⟩ := Nat.exists_eq_succ_of_ne_zero (Nat.ne_of_gt hi)
    rw [Nat.zero_mul]
    exact List.mem_cons_self
  | succ i ih =>
    obtain ⟨n, rfl⟩ := Nat.exists_eq_succ_of_ne_zero (Nat.ne_zero_of_lt hi)
    have h := ih (Nat.lt_of_succ_lt_succ hi) (number + 1) (t + duration)
    rw [Nat.add_right_comm number, Nat.add_right_comm t, Nat.add_assoc number, Nat.add_assoc t,
      ← Nat.succ_mul] at h
    exact List.mem_cons_of_mem _ h

/-- A time that is given is a `u64`. -/
theorem SElement.start_mod (s : SElement) (current : ℕ) :
    (s.t.bind parseU64).getD (current % 2 ^ 64) = (s.t.bind parseU64).getD current % 2 ^ 64 := by
  cases hs : s.t.bind parseU64 with
  | none => rfl
  | some n =>
    obtain ⟨v, -, hv⟩ := Option.bind_eq_some_iff.1 hs
    exact (Nat.mod_eq_of_lt (parseU64_lt hv)).symm

/-- As long as every number and time that is listed is a `u64`, the two are the same. -/
theorem timelineFromU64_eq (elements : List SElement) (number current : ℕ)
    (h : ∀ e ∈ timelineFrom periodStartUnix presentationTimeOffset timescale number current
      elements, e.number < 2 ^ 64 ∧ e.time < 2 ^ 64) :
    timelineFromU64 periodStartUnix presentationTimeOffset timescale (number % 2 ^ 64)
        (current % 2 ^ 64) elements
      = timelineFrom periodStartUnix presentationTimeOffset timescale number current elements := by
  induction elements generalizing number current with
  | nil => rfl
  | cons s rest ih =>
    simp only [timelineFrom, List.forall_mem_append] at h
    simp only [timelineFromU64, timelineFrom]
    -- the last segment of the run has the largest number and time
    have hlast := h.1 _ (mem_repeatEntries (Nat.lt_succ_self ((s.r.bind parseU64).getD 0)) _ _)
    rw [s.start_mod, wrap_add, wrap_add, ih _ _ h.2, repeatEntriesU64_eq]
    · exact Nat.add_one_le_iff.2 hlast.1
    · exact fun _ => hlast.2

/-- The numbers and times of the run: each sum is taken mod 2⁶⁴. -/
theorem timing_repeatEntriesU64 (duration n number t : ℕ) :
    (repeatEntriesU64 periodStartUnix presentationTimeOffset timescale duration n
        (number % 2 ^ 64) (t % 2 ^ 64)).map TimelineEntry.timing
      = (List.range n).map fun i =>
          ⟨(number + i) % 2 ^ 64, (t + i * duration) % 2 ^ 64, duration⟩ := by
  induction n generalizing number t with
  | zero => rfl
  | succ n ih =>
    rw [repeatEntriesU64, wrap_add, wrap_add, List.map_cons, ih, List.range_succ_eq_map,
      List.map_cons, List.map_map]
    congr 1
    · simp [timelineEntry, TimelineEntry.timing]
    · refine List.map_congr_left fun i _ => ?_
      ext
      · exact congrArg (· % 2 ^ 64) (by omega)
      · exact congrArg (· % 2 ^ 64) (by rw [Nat.succ_mul]; omega)
      · rfl

end

/-- How many entries the code writes for an element. -/
def STiming.listed (x : STiming) : ℕ :=
  match x.r with
  | .times r => r + 1
  | .untilNext => 1

theorem STiming.listed_pos (x : STiming) : 0 < x.listed := by
  unfold STiming.listed
  split
  · exact Nat.succ_pos _
  · exact Nat.one_pos

/-- `"-1"` is no `u64`. -/
theorem parseU64_minusOne : parseU64 "-1".toList = none := by decide

/-- So the code repeats an element with `r = -1` as one without `r`. -/
theorem SElement.Reads.count {s : SElement} {x : STiming} (h : s.Reads x) :
    (s.r.bind parseU64).getD 0 + 1 = x.listed := by
  obtain ⟨t, d, r, ht, hd⟩ := x
  obtain ⟨-, -, hr⟩ := h
  generalize s.r = written at hr
  cases hr with
  | absent => rfl
  | times hn => rw [Option.bind_some, hn]; rfl
  | untilNext => rw [Option.bind_some, parseU64_minusOne]; rfl

theorem SElement.Reads.start {s : SElement} {x : STiming} (h : s.Reads x) (current : ℕ) :
    (s.t.bind parseU64).getD (current % 2 ^ 64) = x.t.getD current % 2 ^ 64 := by
  have ht := h.t
  cases hs : s.t with
  | none =>
    rw [hs] at ht
    rw [Option.map_eq_none_iff.1 ht.symm]
    rfl
  | some v =>
    rw [hs] at ht
    obtain ⟨n, hn, hv⟩ := Option.map_eq_some_iff.1 ht.symm
    rw [Option.bind_some, ← hv, hn]
    exact (Nat.mod_eq_of_lt (x.t_lt n hn)).symm

/-- A run with its counters taken mod 2⁶⁴. -/
def wrappedRun (number start d n : ℕ) : List Timing :=
  (List.range n).map fun i => ⟨(number + i) % 2 ^ 64, (start + i * d) % 2 ^ 64, d⟩

/-- The numbers, times and lengths of the code's entries. -/
def wrappedTimings : ℕ → ℕ → List STiming → List Timing
  | _, _, [] => []
  | number, current, x :: rest =>
    wrappedRun number (x.t.getD current) x.d x.listed
      ++ wrappedTimings (number + x.listed) (x.t.getD current + x.listed * x.d) rest

/-- What the code lists, by what its elements say. -/
theorem timing_timelineFromU64 {periodStartUnix : ℚ} {presentationTimeOffset timescale : ℕ}
    {elements : List SElement} {xs : List STiming} (h : List.Forall₂ SElement.Reads elements xs)
    (number current : ℕ) :
    (timelineFromU64 periodStartUnix presentationTimeOffset timescale (number % 2 ^ 64)
        (current % 2 ^ 64) elements).map TimelineEntry.timing
      = wrappedTimings number current xs := by
  induction h generalizing number current with
  | nil => rfl
  | @cons s x elements xs hreads _ ih =>
    have hd : (parseU64 s.d).getD 0 = x.d := by rw [hreads.d]; rfl
    simp only [timelineFromU64, wrappedTimings, List.map_append]
    rw [hreads.count, hreads.start, hd, timing_repeatEntriesU64, wrap_add, wrap_add, ih]
    rfl

/-! ### Expansions -/

/-- The code lists the elements as they are meant, from number `number` and time `current` on: where
an element repeats until the next `t`, one segment takes it there, and each number and time listed
is a `u64`. -/
def OneSegmentSpans : ℕ → ℕ → List STiming → Prop
  | _, _, [] => True
  | number, current, x :: rest =>
    (x.r = .untilNext → ∀ next ∈ nextTime rest,
      x.t.getD current < next ∧ next ≤ x.t.getD current + x.d)
    ∧ number + x.listed ≤ 2 ^ 64 ∧ x.t.getD current + (x.listed - 1) * x.d < 2 ^ 64
    ∧ OneSegmentSpans (number + x.listed) (x.t.getD current + x.listed * x.d) rest

theorem segmentRun_succ (number start d n : ℕ) :
    segmentRun number start d (n + 1)
      = ⟨number, start, d⟩ :: segmentRun (number + 1) (start + d) d n := by
  rw [segmentRun, List.range_succ_eq_map, List.map_cons, List.map_map]
  congr 1
  · rw [Nat.zero_mul]; rfl
  · refine List.map_congr_left fun i _ => ?_
    ext
    · change number + (i + 1) = number + 1 + i
      omega
    · change start + (i + 1) * d = start + d + i * d
      rw [Nat.succ_mul]; omega
    · rfl

theorem le_time_of_mem_segmentRun {number start d n : ℕ} {e : Timing}
    (h : e ∈ segmentRun number start d n) : start ≤ e.time := by
  obtain ⟨i, -, rfl⟩ := List.mem_map.1 h
  exact Nat.le_add_right _ _

/-- Every segment is later than `v` where everything starts later than `v`. -/
theorem IsExpansion.lt_time {v number current : ℕ} {xs : List STiming} {segments : List Timing}
    (h : IsExpansion number current xs segments) (hcurrent : v < current)
    (hxs : ∀ n ∈ xs.filterMap STiming.t, v < n) : ∀ e ∈ segments, v < e.time := by
  induction xs generalizing number current segments with
  | nil =>
    subst h
    exact fun e he => absurd he List.not_mem_nil
  | cons x rest ih =>
    obtain ⟨n, later, rfl, -, hlater⟩ := h
    have hstart : v < x.t.getD current := by
      cases hx : x.t with
      | none => exact hcurrent
      | some t => exact hxs t (List.mem_filterMap.2 ⟨x, List.mem_cons_self, hx⟩)
    refine List.forall_mem_append.2 ⟨fun e he => ?_, ?_⟩
    · exact hstart.trans_le (le_time_of_mem_segmentRun he)
    · refine ih hlater (hstart.trans_le (Nat.le_add_right _ _)) fun t ht => hxs t ?_
      obtain ⟨y, hy, hyt⟩ := List.mem_filterMap.1 ht
      exact List.mem_filterMap.2 ⟨y, List.mem_cons_of_mem _ hy, hyt⟩

/-- A run up to a later `t` is not empty. -/
theorem STiming.HasCount.pos {x : STiming} {start n : ℕ} {rest : List STiming}
    (h : x.HasCount start rest n) (hnext : NextGiven (x :: rest))
    (hlater : ∀ next ∈ nextTime rest, start < next) : 0 < n := by
  obtain ⟨t, d, r, ht, hd⟩ := x
  cases r with
  | times r => exact (Nat.succ_pos r).trans_eq (Eq.symm h)
  | untilNext =>
    obtain ⟨next, hn⟩ := Option.isSome_iff_exists.1 (hnext.1 rfl)
    have hreach : next ≤ start + n * d := (h next hn).1
    refine Nat.pos_of_ne_zero ?_
    rintro rfl
    have := hlater next hn
    omega

theorem mem_filterMap_of_nextTime {rest : List STiming} {next : ℕ} (h : next ∈ nextTime rest) :
    next ∈ rest.filterMap STiming.t := by
  cases rest with
  | nil => exact absurd h (Option.not_mem_none _)
  | cons y ys => exact List.mem_filterMap.2 ⟨y, List.mem_cons_self, h⟩

/-- Where the first element has the time `t`, the first segment may start there, and no other. -/
theorem IsExpansion.lt_time_of_tail {t number current : ℕ} {x : STiming} {rest : List STiming}
    {e : Timing} {more : List Timing} (h : IsExpansion number current (x :: rest) (e :: more))
    (ht : x.t = some t) (hincreasing : ((x :: rest).filterMap STiming.t).Pairwise (· < ·))
    (hnext : NextGiven (x :: rest)) : ∀ e' ∈ more, t < e'.time := by
  obtain ⟨n, later, heq, hcount, hlater⟩ := h
  rw [ht, Option.getD_some] at heq hcount hlater
  rw [List.filterMap_cons_some ht, List.pairwise_cons] at hincreasing
  have hn := hcount.pos hnext fun next hm => hincreasing.1 next (mem_filterMap_of_nextTime hm)
  obtain ⟨m, rfl⟩ := Nat.exists_eq_succ_of_ne_zero hn.ne'
  rw [segmentRun_succ, List.cons_append] at heq
  obtain ⟨-, rfl⟩ := List.cons.inj heq
  have hpos := x.d_pos
  refine List.forall_mem_append.2 ⟨fun e' he' => ?_, ?_⟩
  · exact (Nat.lt_add_of_pos_right hpos).trans_le (le_time_of_mem_segmentRun he')
  · exact hlater.lt_time (Nat.lt_add_of_pos_right (Nat.mul_pos hn hpos)) hincreasing.1

/-- A run is what it should be when its last segment has a `u64` number and time. -/
theorem wrappedRun_eq_iff {number start d n : ℕ} (hn : 0 < n) :
    wrappedRun number start d n = segmentRun number start d n
      ↔ number + n ≤ 2 ^ 64 ∧ start + (n - 1) * d < 2 ^ 64 := by
  unfold wrappedRun segmentRun
  constructor
  · intro h
    have hlast := List.map_inj_left.1 h (n - 1) (List.mem_range.2 (Nat.sub_one_lt hn.ne'))
    obtain ⟨hnumber, htime, -⟩ := Timing.mk.inj hlast
    have := Nat.mod_lt (number + (n - 1)) (Nat.two_pow_pos 64)
    have := Nat.mod_lt (start + (n - 1) * d) (Nat.two_pow_pos 64)
    exact ⟨by omega, by omega⟩
  · rintro ⟨hnumber, htime⟩
    refine List.map_congr_left fun i hi => ?_
    have hi : i ≤ n - 1 := Nat.le_sub_one_of_lt (List.mem_range.1 hi)
    have hle : start + i * d ≤ start + (n - 1) * d :=
      Nat.add_le_add_left (Nat.mul_le_mul_right d hi) start
    rw [Nat.mod_eq_of_lt (show number + i < 2 ^ 64 by omega),
      Nat.mod_eq_of_lt (hle.trans_lt htime)]

theorem wrappedRun_succ (number start d n : ℕ) :
    ∃ more, wrappedRun number start d (n + 1)
      = ⟨number % 2 ^ 64, start % 2 ^ 64, d⟩ :: more := by
  rw [wrappedRun, List.range_succ_eq_map, List.map_cons, Nat.zero_mul]
  exact ⟨_, rfl⟩

/-- The second entry after an element with `r = -1` starts at the next `t`. -/
theorem wrappedTimings_nextTime {next : ℕ} {rest : List STiming} (h : nextTime rest = some next)
    (number current : ℕ) :
    ∃ e more, wrappedTimings number current rest = e :: more ∧ e.time = next := by
  cases rest with
  | nil => exact absurd h.symm (Option.some_ne_none _)
  | cons y ys =>
    have hy : y.t = some next := h
    obtain ⟨k, hk⟩ := Nat.exists_eq_succ_of_ne_zero y.listed_pos.ne'
    obtain ⟨more, hmore⟩ := wrappedRun_succ number next y.d k
    refine ⟨⟨number % 2 ^ 64, next % 2 ^ 64, y.d⟩,
      more ++ wrappedTimings (number + (k + 1)) (next + (k + 1) * y.d) ys, ?_,
      Nat.mod_eq_of_lt (y.t_lt next hy)⟩
    rw [wrappedTimings, hy, Option.getD_some, hk, hmore, List.cons_append]

/-- An expansion of what the code lists has as many segments for the first element as the code. -/
theorem listed_eq_of_isExpansion {number start n : ℕ} {x : STiming} {rest : List STiming}
    {later : List Timing} (heq : wrappedRun number start x.d x.listed
      ++ wrappedTimings (number + x.listed) (start + x.listed * x.d) rest
        = segmentRun number start x.d n ++ later)
    (hcount : x.HasCount start rest n)
    (hlater : IsExpansion (number + n) (start + n * x.d) rest later)
    (hincreasing : (rest.filterMap STiming.t).Pairwise (· < ·)) (hnext : NextGiven (x :: rest)) :
    n = x.listed := by
  obtain ⟨t, d, r, ht, hd⟩ := x
  cases r with
  | times r => exact hcount
  | untilNext =>
    obtain ⟨next, hn⟩ := Option.isSome_iff_exists.1 (hnext.1 rfl)
    obtain ⟨e, more, hmore, he⟩ := wrappedTimings_nextTime hn (number + 1) (start + 1 * d)
    obtain ⟨first, hfirst⟩ := wrappedRun_succ number start d 0
    have hfirst' : first = [] := by
      have := congrArg List.length hfirst
      simpa [wrappedRun] using this
    have hcode : wrappedRun number start d 1 ++ wrappedTimings (number + 1) (start + 1 * d) rest
        = ⟨number % 2 ^ 64, start % 2 ^ 64, d⟩ :: e :: more := by
      rw [hfirst, hfirst', hmore]; rfl
    have heq := hcode.symm.trans heq
    have hfills : Fills start d next n := hcount next hn
    rcases n with _ | _ | n
    · -- no segment at all: the two entries of the code would both belong to what follows
      subst heq
      cases rest with
      | nil => exact absurd hn.symm (Option.some_ne_none _)
      | cons y ys =>
        have := hlater.lt_time_of_tail (t := next) hn hincreasing hnext.2 e List.mem_cons_self
        omega
    · rfl
    · -- a second segment starts before `next`
      have hsecond : start + 1 * d < next := hfills.2 1 (by omega)
      rw [segmentRun_succ, segmentRun_succ] at heq
      have htime : e = ⟨number + 1, start + d, d⟩ := (List.cons.inj (List.cons.inj heq).2).1
      rw [htime] at he
      change start + d = next at he
      omega

/-- The code's numbers and times are an expansion of its elements when it lists each of them as it
is meant. -/
theorem isExpansion_wrappedTimings_iff {number current : ℕ} {xs : List STiming}
    (hincreasing : (xs.filterMap STiming.t).Pairwise (· < ·)) (hnext : NextGiven xs) :
    IsExpansion number current xs (wrappedTimings number current xs)
      ↔ OneSegmentSpans number current xs := by
  induction xs generalizing number current with
  | nil => exact iff_of_true rfl trivial
  | cons x rest ih =>
    have hrest : (rest.filterMap STiming.t).Pairwise (· < ·) :=
      hincreasing.sublist ((List.sublist_cons_self x rest).filterMap _)
    constructor
    · rintro ⟨n, later, heq, hcount, hlater⟩
      obtain rfl := listed_eq_of_isExpansion heq hcount hlater hrest hnext
      have hlength : (wrappedRun number (x.t.getD current) x.d x.listed).length
          = (segmentRun number (x.t.getD current) x.d x.listed).length := by
        rw [wrappedRun, segmentRun, List.length_map, List.length_map]
      obtain ⟨hrun, rfl⟩ := List.append_inj heq hlength
      obtain ⟨hnumber, htime⟩ := (wrappedRun_eq_iff x.listed_pos).1 hrun
      refine ⟨fun hr next hn => ?_, hnumber, htime, (ih hrest hnext.2).1 hlater⟩
      have hfills := hcount
      unfold STiming.HasCount STiming.listed at hfills
      rw [hr] at hfills
      obtain ⟨hreach, hinside⟩ := hfills next hn
      exact ⟨by simpa using hinside 0 Nat.one_pos, by simpa using hreach⟩
    · rintro ⟨hspan, hnumber, htime, hspans⟩
      refine ⟨x.listed, _, ?_, ?_, (ih hrest hnext.2).2 hspans⟩
      · rw [wrappedTimings, (wrappedRun_eq_iff x.listed_pos).2 ⟨hnumber, htime⟩]
      · obtain ⟨t, d, r, ht, hd⟩ := x
        cases r with
        | times r => rfl
        | untilNext =>
          intro next hn
          obtain ⟨hlt, hle⟩ := hspan rfl next hn
          refine ⟨hle.trans_eq (by rw [STiming.listed, Nat.one_mul]), fun i hi => ?_⟩
          obtain rfl : i = 0 := Nat.lt_one_iff.1 hi
          rwa [Nat.zero_mul]

/-! ### `preprocess_timeline` -/

/-- The timeline of well-formed elements: their times increase, and one that repeats until the next
`t` has a next `t`. -/
structure IsTimeline (elements : List SElement) (xs : List STiming) : Prop where
  reads : List.Forall₂ SElement.Reads elements xs
  increasing : (xs.filterMap STiming.t).Pairwise (· < ·)
  nextGiven : NextGiven xs

theorem timing_preprocessTimelineU64 {elements : List SElement} {xs : List STiming}
    (h : List.Forall₂ SElement.Reads elements xs) {startNumber : ℕ} (hstart : startNumber < 2 ^ 64)
    (periodStartUnix : ℚ) (presentationTimeOffset timescale : ℕ) :
    (preprocessTimelineU64 periodStartUnix presentationTimeOffset timescale elements
        startNumber).map TimelineEntry.timing
      = wrappedTimings startNumber 0 xs := by
  have := @timing_timelineFromU64 periodStartUnix presentationTimeOffset timescale elements xs h
    startNumber 0
  rwa [Nat.mod_eq_of_lt hstart, Nat.zero_mod] at this

/-- `preprocess_timeline` expands a timeline exactly when every element with `r = -1` takes one
segment to the next `t` and every number and time it lists is a `u64`. -/
theorem preprocessTimeline_isExpansion_iff {elements : List SElement} {xs : List STiming}
    (h : IsTimeline elements xs) {startNumber : ℕ} (hstart : startNumber < 2 ^ 64)
    (periodStartUnix : ℚ) (presentationTimeOffset : ℕ) {timescale : ℕ} (_ : 1 ≤ timescale) :
    IsExpansion startNumber 0 xs
        ((preprocessTimelineU64 periodStartUnix presentationTimeOffset timescale elements
          startNumber).map TimelineEntry.timing)
      ↔ OneSegmentSpans startNumber 0 xs := by
  rw [timing_preprocessTimelineU64 h.reads hstart]
  exact isExpansion_wrappedTimings_iff h.increasing h.nextGiven

/-- Ten seconds at a time until 30, then one segment more. -/
def untilThirty : List SElement :=
  [⟨some "0".toList, "10".toList, some "-1".toList⟩, ⟨some "30".toList, "10".toList, none⟩]

/-- What `untilThirty` says. -/
def untilThirtyTimings : List STiming :=
  [⟨some 0, 10, .untilNext, by simp, by simp⟩, ⟨some 30, 10, .times 0, by simp, by simp⟩]

theorem isTimeline_untilThirty : IsTimeline untilThirty untilThirtyTimings where
  reads := by
    refine .cons ⟨?_, ?_, .untilNext⟩ (.cons ⟨?_, ?_, .absent⟩ .nil)
    all_goals decide
  increasing := by simp [untilThirtyTimings]
  nextGiven := ⟨fun _ => rfl, fun h => SRepeat.noConfusion h, trivial⟩

/-- With a segment that goes up to the next `t` in one step, the expansion is right. -/
theorem preprocessTimeline_isExpansion_oneSegment :
    IsExpansion 1 0
      [⟨some 0, 10, .times 2, by simp, by simp⟩, ⟨none, 10, .untilNext, by simp, by simp⟩,
        ⟨some 40, 5, .times 0, by simp, by simp⟩]
      ((preprocessTimelineU64 0 0 1 [⟨some "0".toList, "10".toList, some "2".toList⟩,
        ⟨none, "10".toList, some "-1".toList⟩, ⟨some "40".toList, "5".toList, none⟩] 1).map
          TimelineEntry.timing) := by
  refine (preprocessTimeline_isExpansion_iff ⟨?_, ?_, ?_⟩ (by norm_num) 0 0 le_rfl).2 ?_
  · refine .cons ⟨?_, ?_, .times ?_⟩ (.cons ⟨?_, ?_, .untilNext⟩ (.cons ⟨?_, ?_, .absent⟩ .nil))
    all_goals decide
  · simp
  · exact ⟨fun h => SRepeat.noConfusion h, fun _ => rfl, fun h => SRepeat.noConfusion h, trivial⟩
  · simp [OneSegmentSpans, STiming.listed, nextTime]

/-- Three segments lead up to 30; the code lists one of them. -/
theorem not_preprocessTimeline_isExpansion :
    ¬ ∀ (elements : List SElement) (xs : List STiming), IsTimeline elements xs →
      ∀ startNumber < 2 ^ 64, ∀ (periodStartUnix : ℚ) (presentationTimeOffset timescale : ℕ),
        1 ≤ timescale → IsExpansion startNumber 0 xs
          ((preprocessTimelineU64 periodStartUnix presentationTimeOffset timescale elements
            startNumber).map TimelineEntry.timing) := by
  intro h
  have h1 := h untilThirty untilThirtyTimings isTimeline_untilThirty 1 (by norm_num) 0 0 1 le_rfl
  rw [timing_preprocessTimelineU64 isTimeline_untilThirty.reads (by norm_num),
    isExpansion_wrappedTimings_iff isTimeline_untilThirty.increasing
      isTimeline_untilThirty.nextGiven] at h1
  have hspan : (30 : ℕ) ≤ 0 + 10 := (h1.1 rfl 30 rfl).2
  exact absurd hspan (by norm_num)

end MediaFlow
