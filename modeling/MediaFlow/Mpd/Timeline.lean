import MediaFlow.Lib.Text
import Mathlib

/-!
# Timelines

`mpd/timeline.rs`: the segments that a `SegmentTemplate` announces, by its `S` elements or by a
fixed duration. Seconds are rational numbers; a division by a timescale of 0 is not modelled.
-/

open Text

namespace MediaFlow

structure TimelineEntry where
  number : ℕ
  /-- Start time in MPD timescale units. -/
  time : ℕ
  /-- Duration in MPD timescale units. -/
  duration : ℕ
  startUnix : Option ℚ
  endUnix : Option ℚ
deriving DecidableEq

/-- An `S` element, with its attributes as they are written. -/
structure SElement where
  t : Option Str
  d : Str
  r : Option Str
deriving DecidableEq

/-- The `n` entries of one `S` element, from number `number` and time `t` on. -/
def repeatEntries (periodStartUnix : ℚ) (presentationTimeOffset timescale duration : ℕ) :
    ℕ → ℕ → ℕ → List TimelineEntry
  | 0, _, _ => []
  | n + 1, number, t =>
    let startUnix := periodStartUnix + ((t - presentationTimeOffset : ℕ) : ℚ) / timescale
    { number := number
      time := t
      duration := duration
      startUnix := some startUnix
      endUnix := some (startUnix + (duration : ℚ) / timescale) }
    :: repeatEntries periodStartUnix presentationTimeOffset timescale duration n (number + 1)
        (t + duration)

/-- `preprocess_timeline`, from the current number and time on. -/
def timelineFrom (periodStartUnix : ℚ) (presentationTimeOffset timescale : ℕ) :
    ℕ → ℕ → List SElement → List TimelineEntry
  | _, _, [] => []
  | number, currentTime, s :: rest =>
    let duration := (parseU64 s.d).getD 0
    let count := (s.r.bind parseU64).getD 0 + 1
    let startTime := (s.t.bind parseU64).getD currentTime
    repeatEntries periodStartUnix presentationTimeOffset timescale duration count number startTime
      ++ timelineFrom periodStartUnix presentationTimeOffset timescale (number + count)
          (startTime + count * duration) rest

/-- `preprocess_timeline`. -/
def preprocessTimeline (sElements : List SElement) (startNumber : ℕ) (periodStartUnix : ℚ)
    (presentationTimeOffset timescale : ℕ) : List TimelineEntry :=
  timelineFrom periodStartUnix presentationTimeOffset timescale startNumber 0 sElements

/-- `generate_live_segments`, at the time `nowUnix`. -/
def generateLiveSegments (nowUnix availabilityStartUnix timeShiftBufferDepthSec
    segmentDurationSec : ℚ) (startNumber : ℕ) (durationMpdTimescale : Option ℕ)
    (presentationTimeOffset : ℕ) : List TimelineEntry :=
  if segmentDurationSec ≤ 0 then []
  else
    let segmentCount := ⌈timeShiftBufferDepthSec / segmentDurationSec⌉₊
    let elapsedSegments := ⌊(nowUnix - availabilityStartUnix) / segmentDurationSec⌋₊
    let earliest := max (startNumber + elapsedSegments - segmentCount) startNumber
    let durTs := durationMpdTimescale.getD 0
    (List.range' earliest segmentCount).map fun number =>
      let startUnix := availabilityStartUnix
        + ((number - startNumber : ℕ) : ℚ) * segmentDurationSec
      { number := number
        time := presentationTimeOffset + (number - startNumber) * durTs
        duration := durTs
        startUnix := some startUnix
        endUnix := some (startUnix + segmentDurationSec) }

/-- `generate_vod_segments`. -/
def generateVodSegments (totalDurationSec : ℚ) (segmentDurationTs timescale startNumber : ℕ) :
    List TimelineEntry :=
  if timescale = 0 ∨ segmentDurationTs = 0 then []
  else
    let segmentCount := ⌈totalDurationSec * timescale / segmentDurationTs⌉₊
    (List.range segmentCount).map fun i =>
      { number := startNumber + i
        time := 0
        duration := segmentDurationTs
        startUnix := none
        -- a relative duration only
        endUnix := some ((segmentDurationTs : ℚ) / timescale) }

end MediaFlow
