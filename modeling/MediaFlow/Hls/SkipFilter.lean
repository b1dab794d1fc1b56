import Mathlib

/-!
# Skipped time ranges

`hls/skip_filter.rs`: a filter that is given the durations of the segments of a playlist one by one
and says which of them overlap a range that is to be skipped.
-/

namespace MediaFlow

/-- A time range in seconds. -/
structure SkipRange where
  start : ℚ
  stop : ℚ
deriving DecidableEq

structure SkipSegmentFilter where
  ranges : List SkipRange
  currentTime : ℚ := 0
deriving DecidableEq

/-- `check_and_advance`: does the next segment overlap a range? The clock advances anyway. -/
def SkipSegmentFilter.checkAndAdvance (f : SkipSegmentFilter) (duration : ℚ) :
    Bool × SkipSegmentFilter :=
  let segmentStart := f.currentTime
  let segmentEnd := segmentStart + duration
  (f.ranges.any fun r => segmentStart < r.stop ∧ segmentEnd > r.start,
    { f with currentTime := segmentEnd })

end MediaFlow
