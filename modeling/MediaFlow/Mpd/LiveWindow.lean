import MediaFlow.Mpd.Timeline

/-!
# The window of a live stream

Which segments of fixed length a live profile lists: `generate_live_segments`, with the conversions
and sums of its `u64` counters (`generateLiveSegmentsU64`), against the segments that a player can
fetch at that time (`AvailableWindow`).

The code takes the newest segments that fill the depth, moves the first of them up to the start
number, and keeps the length of the window. `availableWindow_liveEntries_iff` says what is right for
any first number and length. Near the start of the stream the length is too large: the list goes on
into segments that have not ended.
-/

namespace MediaFlow

/-! ### Segments that have ended -/

/-- When the segment `number` ends, the first one being `startNumber`. -/
def segmentEnd (start duration : ℚ) (startNumber number : ℕ) : ℚ :=
  start + ((number - startNumber : ℕ) + 1) * duration

/-- How many segments have ended since `start`. -/
def endedSegments (now start duration : ℚ) : ℕ := ⌊(now - start) / duration⌋₊

/-- How many segments fill the time-shift buffer. -/
def depthSegments (depth duration : ℚ) : ℕ := ⌈depth / duration⌉₊

/-- The list of entries is what can be fetched: consecutive segments that have ended, up to the
newest of them, as many as the depth asks for or as there are. -/
structure AvailableWindow (now start depth duration : ℚ) (startNumber : ℕ)
    (entries : List TimelineEntry) : Prop where
  consecutive : ∃ first ≥ startNumber,
    entries.map TimelineEntry.number = List.range' first entries.length
  ended : ∀ e ∈ entries, segmentEnd start duration startNumber e.number ≤ now
  newest : ∀ e ∈ entries.getLast?, now < segmentEnd start duration startNumber (e.number + 1)
  count : entries.length = min (depthSegments depth duration) (endedSegments now start duration)

section Ended

variable {now start duration : ℚ} (hduration : 0 < duration) (hnow : start ≤ now)
include hduration hnow

/-- `endedSegments` counts the segments whose end has passed. -/
theorem lt_endedSegments_iff (k : ℕ) :
    k < endedSegments now start duration ↔ start + (k + 1) * duration ≤ now := by
  have helapsed : 0 ≤ (now - start) / duration := div_nonneg (sub_nonneg.2 hnow) hduration.le
  calc k < endedSegments now start duration
      ↔ ((k + 1 : ℕ) : ℚ) ≤ (now - start) / duration := Nat.le_floor_iff helapsed
    _ ↔ (k + 1) * duration ≤ now - start := by rw [le_div_iff₀ hduration, Nat.cast_succ]
    _ ↔ start + (k + 1) * duration ≤ now := by rw [le_sub_iff_add_le, add_comm]

theorem segmentEnd_le_iff {startNumber number : ℕ} (h : startNumber ≤ number) :
    segmentEnd start duration startNumber number ≤ now
      ↔ number < startNumber + endedSegments now start duration := by
  rw [segmentEnd, ← lt_endedSegments_iff hduration hnow, Nat.sub_lt_iff_lt_add' h]

/-- Entries with consecutive numbers are the window when their length is the right one, and, if there
are any, the segment after the last one is the first that has not ended. -/
theorem availableWindow_iff {depth : ℚ} {startNumber first n : ℕ} {entries : List TimelineEntry}
    (hfirst : startNumber ≤ first)
    (hentries : entries.map TimelineEntry.number = List.range' first n) :
    AvailableWindow now start depth duration startNumber entries
      ↔ n = min (depthSegments depth duration) (endedSegments now start duration)
        ∧ (n ≠ 0 → first + n = startNumber + endedSegments now start duration) := by
  have hlength : entries.length = n := by
    rw [← List.length_map (f := TimelineEntry.number), hentries, List.length_range']
  have hmem : ∀ e ∈ entries, first ≤ e.number ∧ e.number < first + n := by
    intro e he
    have : e.number ∈ List.range' first n := hentries ▸ List.mem_map_of_mem he
    exact List.mem_range'_1.1 this
  have hlast : ∀ e ∈ entries.getLast?, e.number + 1 = first + n := by
    intro e he
    have h : (entries.map TimelineEntry.number).getLast? = some e.number := by
      rw [List.getLast?_map, Option.mem_def.1 he, Option.map_some]
    rw [hentries, List.getLast?_range'] at h
    obtain ⟨hn, hnumber⟩ := Option.ite_none_left_eq_some.1 h
    have := Option.some.inj hnumber
    omega
  constructor
  · rintro ⟨-, hended, hnewest, hcount⟩
    refine ⟨hlength.symm.trans hcount, fun hn => ?_⟩
    have hne : entries ≠ [] := List.ne_nil_of_length_pos (by omega)
    have he := List.getLast?_eq_some_getLast hne
    have hfetch := hended _ (List.getLast_mem hne)
    have hnext := hnewest _ he
    have hnumber := hlast _ he
    have hbounds := hmem _ (List.getLast_mem hne)
    rw [segmentEnd_le_iff hduration hnow (by omega)] at hfetch
    rw [← not_le, segmentEnd_le_iff hduration hnow (by omega)] at hnext
    omega
  · rintro ⟨hn, hend⟩
    refine ⟨⟨first, hfirst, hlength ▸ hentries⟩, fun e he => ?_, fun e he => ?_, hlength.trans hn⟩
    · have hbounds := hmem e he
      rw [segmentEnd_le_iff hduration hnow (by omega)]
      exact hbounds.2.trans_eq (hend (by omega))
    · have hbounds := hmem e (List.mem_of_getLast? he)
      have hnumber := hlast e he
      rw [← not_le, segmentEnd_le_iff hduration hnow (by omega)]
      have := hend (by omega)
      omega

end Ended

/-! ### `generate_live_segments` -/

/-- `as u64` of a number that is not negative. -/
def asU64 (n : ℕ) : ℕ := min n (2 ^ 64 - 1)

/-- The entry that the closure makes of a number. -/
def liveEntry (availabilityStartUnix segmentDurationSec : ℚ) (startNumber durTs
    presentationTimeOffset number : ℕ) : TimelineEntry :=
  let startUnix := availabilityStartUnix + ((number - startNumber : ℕ) : ℚ) * segmentDurationSec
  { number := number
    time := (presentationTimeOffset + (number - startNumber) * durTs % 2 ^ 64) % 2 ^ 64
    duration := durTs
    startUnix := some startUnix
    endUnix := some (startUnix + segmentDurationSec) }

/-- The first number that the code lists, for a window of `segmentCount` segments. -/
def earliestNumber (startNumber elapsedSegments segmentCount : ℕ) : ℕ :=
  max ((startNumber + elapsedSegments) % 2 ^ 64 - segmentCount) startNumber

/-- `generate_live_segments` in the release build, at the time `nowUnix`. -/
def generateLiveSegmentsU64 (nowUnix availabilityStartUnix timeShiftBufferDepthSec
    segmentDurationSec : ℚ) (startNumber : ℕ) (durationMpdTimescale : Option ℕ)
    (presentationTimeOffset : ℕ) : List TimelineEntry :=
  if segmentDurationSec ≤ 0 then []
  else
    let segmentCount := asU64 ⌈timeShiftBufferDepthSec / segmentDurationSec⌉₊
    let elapsedSegments := asU64 ⌊(nowUnix - availabilityStartUnix) / segmentDurationSec⌋₊
    let earliest := earliestNumber startNumber elapsedSegments segmentCount
    let durTs := durationMpdTimescale.getD 0
    (List.range' earliest ((earliest + segmentCount) % 2 ^ 64 - earliest)).map
      (liveEntry availabilityStartUnix segmentDurationSec startNumber durTs presentationTimeOffset)

section Code

variable {nowUnix availabilityStartUnix timeShiftBufferDepthSec segmentDurationSec : ℚ}
  {startNumber presentationTimeOffset : ℕ} {durationMpdTimescale : Option ℕ}

/-- The two agree as long as no counter and no time leaves `u64`. -/
theorem generateLiveSegmentsU64_eq
    (hcounts : startNumber + ⌊(nowUnix - availabilityStartUnix) / segmentDurationSec⌋₊
      + ⌈timeShiftBufferDepthSec / segmentDurationSec⌉₊ < 2 ^ 64)
    (htimes : ∀ e ∈ generateLiveSegments nowUnix availabilityStartUnix timeShiftBufferDepthSec
      segmentDurationSec startNumber durationMpdTimescale presentationTimeOffset,
      e.time < 2 ^ 64) :
    generateLiveSegmentsU64 nowUnix availabilityStartUnix timeShiftBufferDepthSec
        segmentDurationSec startNumber durationMpdTimescale presentationTimeOffset
      = generateLiveSegments nowUnix availabilityStartUnix timeShiftBufferDepthSec
        segmentDurationSec startNumber durationMpdTimescale presentationTimeOffset := by
  unfold generateLiveSegmentsU64 generateLiveSegments at *
  split
  · rfl
  · rename_i hduration
    rw [if_neg hduration, List.forall_mem_map] at htimes
    generalize ⌈timeShiftBufferDepthSec / segmentDurationSec⌉₊ = count at *
    generalize ⌊(nowUnix - availabilityStartUnix) / segmentDurationSec⌋₊ = elapsed at *
    have hcount : asU64 count = count := min_eq_left (by omega)
    have helapsed : asU64 elapsed = elapsed := min_eq_left (by omega)
    have hearliest : earliestNumber startNumber elapsed count
        = max (startNumber + elapsed - count) startNumber := by
      rw [earliestNumber, Nat.mod_eq_of_lt (by omega)]
    have hlength : (max (startNumber + elapsed - count) startNumber + count) % 2 ^ 64
        - max (startNumber + elapsed - count) startNumber = count := by
      rw [Nat.mod_eq_of_lt (by omega), Nat.add_sub_cancel_left]
    dsimp only
    rw [hcount, helapsed, hearliest, hlength]
    refine List.map_congr_left fun number hnumber => ?_
    have ht := htimes number hnumber
    dsimp only at ht
    rw [liveEntry, Nat.mod_eq_of_lt ((Nat.le_add_left _ _).trans_lt ht), Nat.mod_eq_of_lt ht]

/-- The window has ended: the depth asks for no segment; or at least as many have ended as it asks
for, up to a number that is a `u64`; or none has ended and the end of the window wraps around, so
that it is empty. -/
def WindowHasEnded (startNumber ended count : ℕ) : Prop :=
  count = 0 ∨ startNumber + ended < 2 ^ 64 ∧ asU64 count ≤ ended
    ∨ ended = 0 ∧ 2 ^ 64 ≤ startNumber + asU64 count

/-- The numbers of the window, in terms of the segments that have ended and of its length. -/
theorem earliest_add_iff {startNumber ended count n : ℕ} (hstart : startNumber < 2 ^ 64)
    (hn : n = (earliestNumber startNumber (asU64 ended) (asU64 count) + asU64 count) % 2 ^ 64
      - earliestNumber startNumber (asU64 ended) (asU64 count)) :
    n = min count ended
        ∧ (n ≠ 0 → earliestNumber startNumber (asU64 ended) (asU64 count) + n
            = startNumber + ended)
      ↔ WindowHasEnded startNumber ended count := by
  unfold WindowHasEnded earliestNumber asU64 at *
  omega

/-- A live profile lists what can be fetched exactly when the window has ended. -/
theorem generateLiveSegments_availableWindow_iff (hnow : availabilityStartUnix ≤ nowUnix)
    (hduration : 0 < segmentDurationSec) (hstart : startNumber < 2 ^ 64) :
    AvailableWindow nowUnix availabilityStartUnix timeShiftBufferDepthSec segmentDurationSec
        startNumber (generateLiveSegmentsU64 nowUnix availabilityStartUnix timeShiftBufferDepthSec
          segmentDurationSec startNumber durationMpdTimescale presentationTimeOffset)
      ↔ WindowHasEnded startNumber (endedSegments nowUnix availabilityStartUnix segmentDurationSec)
          (depthSegments timeShiftBufferDepthSec segmentDurationSec) := by
  rw [generateLiveSegmentsU64, if_neg (not_le.2 hduration),
    availableWindow_iff hduration hnow (le_max_right _ _)]
  · exact earliest_add_iff hstart rfl
  · rw [List.map_map]
    exact List.map_id _

/-- Ten segments have ended, and the depth asks for three. -/
theorem generateLiveSegments_availableWindow_steady :
    AvailableWindow 100 0 30 10 1 (generateLiveSegmentsU64 100 0 30 10 1 (some 10) 0) := by
  refine (generateLiveSegments_availableWindow_iff (by norm_num) (by norm_num) (by norm_num)).2 ?_
  refine .inr (.inl ?_)
  norm_num [endedSegments, depthSegments, asU64]

/-- Five seconds after the start of the stream no segment of ten seconds has ended; the code lists
three. -/
theorem not_generateLiveSegments_availableWindow :
    ¬ ∀ (nowUnix availabilityStartUnix timeShiftBufferDepthSec segmentDurationSec : ℚ)
        (startNumber : ℕ) (durationMpdTimescale : Option ℕ) (presentationTimeOffset : ℕ),
      availabilityStartUnix ≤ nowUnix → 0 < segmentDurationSec → startNumber < 2 ^ 64 →
        AvailableWindow nowUnix availabilityStartUnix timeShiftBufferDepthSec segmentDurationSec
          startNumber (generateLiveSegmentsU64 nowUnix availabilityStartUnix timeShiftBufferDepthSec
            segmentDurationSec startNumber durationMpdTimescale presentationTimeOffset) := by
  intro h
  have hwindow := h 5 0 30 10 1 (some 10) 0 (by norm_num) (by norm_num) (by norm_num)
  have hended : endedSegments 5 0 10 = 0 := by norm_num [endedSegments]
  have hnone : generateLiveSegmentsU64 5 0 30 10 1 (some 10) 0 = [] := by
    rw [← List.length_eq_zero_iff, hwindow.count, hended, Nat.min_zero]
  have hcount : ⌈(30 / 10 : ℚ)⌉₊ = 3 := by norm_num
  have helapsed : ⌊((5 - 0) / 10 : ℚ)⌋₊ = 0 := by norm_num
  rw [generateLiveSegmentsU64, if_neg (by norm_num), hcount, helapsed, List.map_eq_nil_iff] at hnone
  exact absurd (congrArg List.length hnone) (by rw [List.length_range']; decide)

end Code

end MediaFlow
