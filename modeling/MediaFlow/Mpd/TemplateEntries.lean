import MediaFlow.Mpd.LiveWindow
import MediaFlow.Mpd.Processor
import MediaFlow.Mpd.TimelineRuns

/-!
# The entries of a template

What `generate_from_template` lists in its three modes, with the `u64` counters of the release build
(`templateEntriesU64`): by the `S` elements of a timeline, by a fixed length up to now, or by a
fixed length and the length of the presentation.

* `nodup_numbers`: no number comes twice.
* `times_templateEntriesU64`: in the first two modes the times are those at which the segments start
  (`mediaTimes`), mod 2⁶⁴; in the third no entry has a time (`time_of_fixedStatic`).
-/

open Text

namespace MediaFlow

/-! ### The segments, with their counters -/

/-- `generate_vod_segments` in the release build. -/
def generateVodSegmentsU64 (totalDurationSec : ℚ) (segmentDurationTs timescale startNumber : ℕ) :
    List TimelineEntry :=
  if timescale = 0 ∨ segmentDurationTs = 0 then []
  else
    let segmentCount := asU64 ⌈totalDurationSec * timescale / segmentDurationTs⌉₊
    (List.range segmentCount).map fun i =>
      { number := (startNumber + i) % 2 ^ 64
        time := 0
        duration := segmentDurationTs
        startUnix := none
        endUnix := some ((segmentDurationTs : ℚ) / timescale) }

namespace SegmentTemplate

variable (tmpl : SegmentTemplate)

/-- `presentation_time_offset`, as a number. -/
def offset : ℕ := (tmpl.presentationTimeOffset.bind parseU64).getD 0

/-- `duration_ts`: 0 is none. -/
def durationTs : ℕ := (tmpl.duration.bind parseU64).getD 0

/-- The segments come from a fixed length and the length of the presentation. -/
def FixedStatic (isLive : Bool) : Prop := tmpl.segmentTimeline = none ∧ isLive = false

end SegmentTemplate

section Segments

variable (crates : MpdCrates) (nowUnix : ℚ) (profile : MpdProfile) (tmpl : SegmentTemplate)
  (mpdUrl baseUrl : Str) (isLive : Bool) (periodAvailStartUnix timeShiftBufferDepthSec : ℚ)
  (mediaPresentationDurationSec : Option ℚ) (startNumber timescale : ℕ)

/-- The entries that `generate_from_template` makes segments of, in the release build. -/
def templateEntriesU64 : List TimelineEntry :=
  match tmpl.media, tmpl.segmentTimeline, tmpl.duration with
  | none, _, _ => []
  -- SegmentTimeline mode
  | some _, some timeline, _ =>
    preprocessTimelineU64 periodAvailStartUnix tmpl.offset timescale timeline startNumber
  -- fixed @duration mode
  | some _, none, some durationStr =>
    let durationTs := (parseU64 durationStr).getD 0
    if durationTs = 0 then []
    else if isLive then
      generateLiveSegmentsU64 nowUnix periodAvailStartUnix timeShiftBufferDepthSec
        ((durationTs : ℚ) / timescale) startNumber (some durationTs) tmpl.offset
    else
      generateVodSegmentsU64 (mediaPresentationDurationSec.getD 0) durationTs timescale startNumber
  | some _, none, none => []

/-- `generate_from_template` in the release build. -/
def generateFromTemplateU64 : List MpdSegment :=
  (templateEntriesU64 nowUnix tmpl isLive periodAvailStartUnix timeShiftBufferDepthSec
    mediaPresentationDurationSec startNumber timescale).map fun entry =>
      timelineEntryToSegment crates entry tmpl profile mpdUrl baseUrl timescale

end Segments

/-! ### The media times -/

/-- When the segments of `S` elements start, from `current` on. -/
def startTimes : ℕ → List SElement → List ℕ
  | _, [] => []
  | current, s :: rest =>
    let duration := (parseU64 s.d).getD 0
    let count := (s.r.bind parseU64).getD 0 + 1
    let start := (s.t.bind parseU64).getD current
    (List.range count).map (fun i => start + i * duration)
      ++ startTimes (start + count * duration) rest

/-- The media times of the segments with these numbers: what the `S` elements say, or the multiples
of the length, from the offset on. -/
def SegmentTemplate.mediaTimes (tmpl : SegmentTemplate) (startNumber : ℕ) (numbers : List ℕ) :
    List ℕ :=
  match tmpl.segmentTimeline with
  | some timeline => startTimes 0 timeline
  | none => numbers.map fun number => tmpl.offset + (number - startNumber) * tmpl.durationTs

/-! ### The numbers and times of the entries -/

section Entries

variable {periodStartUnix : ℚ} {presentationTimeOffset timescale : ℕ}

theorem numbers_repeatEntriesU64 (duration k number t : ℕ) :
    (repeatEntriesU64 periodStartUnix presentationTimeOffset timescale duration k (number % 2 ^ 64)
        (t % 2 ^ 64)).map TimelineEntry.number
      = (List.range k).map fun i => (number + i) % 2 ^ 64 := by
  have h := congrArg (List.map Timing.number) (@timing_repeatEntriesU64 periodStartUnix
    presentationTimeOffset timescale duration k number t)
  rw [List.map_map, List.map_map] at h
  exact h

theorem times_repeatEntriesU64 (duration k number t : ℕ) :
    (repeatEntriesU64 periodStartUnix presentationTimeOffset timescale duration k (number % 2 ^ 64)
        (t % 2 ^ 64)).map TimelineEntry.time
      = ((List.range k).map fun i => t + i * duration).map (· % 2 ^ 64) := by
  have h := congrArg (List.map Timing.time) (@timing_repeatEntriesU64 periodStartUnix
    presentationTimeOffset timescale duration k number t)
  rw [List.map_map, List.map_map] at h
  rw [List.map_map]
  exact h

theorem times_timelineFromU64 (elements : List SElement) (number current : ℕ) :
    (timelineFromU64 periodStartUnix presentationTimeOffset timescale (number % 2 ^ 64)
        (current % 2 ^ 64) elements).map TimelineEntry.time
      = (startTimes current elements).map (· % 2 ^ 64) := by
  induction elements generalizing number current with
  | nil => rfl
  | cons s rest ih =>
    simp only [timelineFromU64, startTimes]
    rw [List.map_append, List.map_append, s.start_mod, wrap_add, wrap_add, ih,
      times_repeatEntriesU64]

/-- The numbers of a timeline are consecutive, but for the wrap. -/
theorem numbers_timelineFromU64 (elements : List SElement) (number current : ℕ) :
    (timelineFromU64 periodStartUnix presentationTimeOffset timescale (number % 2 ^ 64)
        (current % 2 ^ 64) elements).map TimelineEntry.number
      = (List.range (startTimes current elements).length).map fun i => (number + i) % 2 ^ 64 := by
  induction elements generalizing number current with
  | nil => rfl
  | cons s rest ih =>
    simp only [timelineFromU64, startTimes]
    rw [List.map_append, s.start_mod, wrap_add, wrap_add, ih, numbers_repeatEntriesU64,
      List.length_append, List.length_map, List.length_range]
    generalize (s.r.bind parseU64).getD 0 + 1 = count
    rw [List.range_add, List.map_append, List.map_map]
    refine congrArg _ (List.map_congr_left fun i _ => ?_)
    change _ = (number + (count + i)) % 2 ^ 64
    rw [Nat.add_assoc]

theorem nodup_wrapped {number k : ℕ} (hk : k < 2 ^ 63) :
    ((List.range k).map fun i => (number + i) % 2 ^ 64).Nodup := by
  refine List.Nodup.map_on (fun i hi j hj h => ?_) List.nodup_range
  have hi := List.mem_range.mp hi
  have hj := List.mem_range.mp hj
  omega

/-- The numbers of a live window are consecutive. -/
theorem nodup_numbers_live {nowUnix availabilityStartUnix timeShiftBufferDepthSec
    segmentDurationSec : ℚ}
    {startNumber : ℕ} {durationMpdTimescale : Option ℕ} :
    ((generateLiveSegmentsU64 nowUnix availabilityStartUnix timeShiftBufferDepthSec
      segmentDurationSec startNumber durationMpdTimescale presentationTimeOffset).map
        TimelineEntry.number).Nodup := by
  unfold generateLiveSegmentsU64
  split
  · exact List.nodup_nil
  · rw [List.map_map]
    exact (List.map_id _).symm ▸ List.nodup_range'

theorem times_live {nowUnix availabilityStartUnix timeShiftBufferDepthSec segmentDurationSec : ℚ}
    {startNumber duration : ℕ} :
    (generateLiveSegmentsU64 nowUnix availabilityStartUnix timeShiftBufferDepthSec
        segmentDurationSec startNumber (some duration) presentationTimeOffset).map
            TimelineEntry.time
      = (((generateLiveSegmentsU64 nowUnix availabilityStartUnix timeShiftBufferDepthSec
          segmentDurationSec startNumber (some duration) presentationTimeOffset).map
            TimelineEntry.number).map
              fun number => presentationTimeOffset + (number - startNumber) * duration).map
                (· % 2 ^ 64) := by
  unfold generateLiveSegmentsU64
  split
  · rfl
  · rw [List.map_map, List.map_map, List.map_map, List.map_map]
    refine List.map_congr_left fun number _ => ?_
    exact Nat.add_mod_mod _ _ _

variable {nowUnix : ℚ} {tmpl : SegmentTemplate} {media : Str} {isLive : Bool}
  {periodAvailStartUnix timeShiftBufferDepthSec : ℚ} {mediaPresentationDurationSec : Option ℚ}
  {startNumber : ℕ}

/-- **The times of the entries** are those at which the segments start, but for the wrap. -/
theorem times_templateEntriesU64 (hmedia : tmpl.media = some media) (hstart : startNumber < 2 ^ 64)
    (hmode : ¬ tmpl.FixedStatic isLive) :
    (templateEntriesU64 nowUnix tmpl isLive periodAvailStartUnix timeShiftBufferDepthSec
        mediaPresentationDurationSec startNumber timescale).map TimelineEntry.time
      = (tmpl.mediaTimes startNumber ((templateEntriesU64 nowUnix tmpl isLive periodAvailStartUnix
          timeShiftBufferDepthSec mediaPresentationDurationSec startNumber timescale).map
            TimelineEntry.number)).map (· % 2 ^ 64) := by
  unfold templateEntriesU64 SegmentTemplate.mediaTimes
  rw [hmedia]
  cases htimeline : tmpl.segmentTimeline with
  | some timeline =>
    have h := @times_timelineFromU64 periodAvailStartUnix tmpl.offset timescale timeline
      startNumber 0
    rw [Nat.mod_eq_of_lt hstart, Nat.zero_mod] at h
    exact h
  | none =>
    cases hduration : tmpl.duration with
    | none => rfl
    | some durationStr =>
      have hlive : isLive = true := by
        by_contra h
        exact hmode ⟨htimeline, Bool.eq_false_iff.mpr h⟩
      have hts : tmpl.durationTs = (parseU64 durationStr).getD 0 := by
        rw [SegmentTemplate.durationTs, hduration]
        rfl
      dsimp only
      rw [hts, if_pos hlive]
      split
      · rfl
      · exact times_live

/-- In the third mode no entry has a time. -/
theorem time_of_fixedStatic (hmode : tmpl.FixedStatic isLive) :
    ∀ e ∈ templateEntriesU64 nowUnix tmpl isLive periodAvailStartUnix timeShiftBufferDepthSec
      mediaPresentationDurationSec startNumber timescale, e.time = 0 := by
  obtain ⟨htimeline, rfl⟩ := hmode
  unfold templateEntriesU64
  rw [htimeline]
  cases tmpl.media with
  | none => exact fun _ he => absurd he List.not_mem_nil
  | some media =>
    cases tmpl.duration with
    | none => exact fun _ he => absurd he List.not_mem_nil
    | some durationStr =>
      dsimp only
      rw [if_neg Bool.false_ne_true]
      split
      · exact fun _ he => absurd he List.not_mem_nil
      · unfold generateVodSegmentsU64
        split
        · exact fun _ he => absurd he List.not_mem_nil
        · rw [List.forall_mem_map]
          exact fun _ _ => rfl

/-- **No number comes twice.** -/
theorem nodup_numbers (hstart : startNumber < 2 ^ 64)
    (hlength : (templateEntriesU64 nowUnix tmpl isLive periodAvailStartUnix timeShiftBufferDepthSec
      mediaPresentationDurationSec startNumber timescale).length < 2 ^ 63) :
    ((templateEntriesU64 nowUnix tmpl isLive periodAvailStartUnix timeShiftBufferDepthSec
      mediaPresentationDurationSec startNumber timescale).map TimelineEntry.number).Nodup := by
  revert hlength
  unfold templateEntriesU64
  cases tmpl.media with
  | none => exact fun _ => List.nodup_nil
  | some media =>
    cases tmpl.segmentTimeline with
    | some timeline =>
      intro hlength
      have h := @numbers_timelineFromU64 periodAvailStartUnix tmpl.offset timescale timeline
        startNumber 0
      rw [Nat.mod_eq_of_lt hstart, Nat.zero_mod] at h
      have hcount := congrArg List.length h
      rw [List.length_map, List.length_map, List.length_range] at hcount
      change ((timelineFromU64 _ _ _ _ _ _).map _).Nodup
      rw [h]
      exact nodup_wrapped (hcount ▸ hlength)
    | none =>
      cases tmpl.duration with
      | none => exact fun _ => List.nodup_nil
      | some durationStr =>
        dsimp only
        split
        · exact fun _ => List.nodup_nil
        · split
          · exact fun _ => nodup_numbers_live
          · unfold generateVodSegmentsU64
            split
            · exact fun _ => List.nodup_nil
            · intro hlength
              rw [List.length_map, List.length_range] at hlength
              rw [List.map_map]
              exact nodup_wrapped hlength

/-- There is a time for each entry. -/
theorem length_mediaTimes (hmedia : tmpl.media = some media) (hstart : startNumber < 2 ^ 64) :
    (tmpl.mediaTimes startNumber ((templateEntriesU64 nowUnix tmpl isLive periodAvailStartUnix
      timeShiftBufferDepthSec mediaPresentationDurationSec startNumber timescale).map
        TimelineEntry.number)).length
      = (templateEntriesU64 nowUnix tmpl isLive periodAvailStartUnix timeShiftBufferDepthSec
          mediaPresentationDurationSec startNumber timescale).length := by
  by_cases hmode : tmpl.FixedStatic isLive
  · rw [SegmentTemplate.mediaTimes, hmode.1, List.length_map, List.length_map]
  · have h := congrArg List.length (@times_templateEntriesU64 timescale nowUnix tmpl media isLive
      periodAvailStartUnix timeShiftBufferDepthSec mediaPresentationDurationSec startNumber
      hmedia hstart hmode)
    rw [List.length_map, List.length_map] at h
    exact h.symm

end Entries

end MediaFlow
