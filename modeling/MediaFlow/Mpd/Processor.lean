import MediaFlow.Mpd.Template
import MediaFlow.Mpd.Timeline

/-!
# Profiles and their segments

The part of `mpd/processor.rs` that makes the segments of a profile from its `SegmentTemplate`.
Fields of the source's types that no modelled function reads are left out.
-/

open Text

namespace MediaFlow

structure MpdSegment where
  /-- Absolute URL. -/
  media : Str
  number : ℕ
  /-- Duration in seconds. -/
  extinf : ℚ
  /-- Start time in MPD timescale units. -/
  time : Option ℕ
  /-- Duration in MPD timescale units. -/
  durationMpdTimescale : Option ℕ
  startUnix : Option ℚ
  programDateTime : Option Str
  mediaRange : Option Str
  initRange : Option Str
deriving DecidableEq

structure MpdProfile where
  id : Str
  repId : Str
  mimeType : Str
  bandwidth : ℕ
  initUrl : Option Str
  initRange : Option Str
  segments : List MpdSegment
  segmentTemplateStartNumberExplicit : Bool
  nominalDurationMpdTimescale : Option ℕ

structure SegmentTemplate where
  media : Option Str
  duration : Option Str
  presentationTimeOffset : Option Str
  segmentTimeline : Option (List SElement)

/-- What other crates do while segments are made. -/
structure MpdCrates where
  /-- `Url::parse(base)` and `join`, as text. -/
  join : Str → Str → Option Str
  /-- `unix_to_iso8601`, which formats a date and time. -/
  unixToIso8601 : ℚ → Option Str

/-- Zero is no media time. -/
def nonzero (n : ℕ) : Option ℕ := if n > 0 then some n else none

section

variable (crates : MpdCrates)

def timelineEntryToSegment (entry : TimelineEntry) (tmpl : SegmentTemplate) (profile : MpdProfile)
    (mpdUrl baseUrl : Str) (timescale : ℕ) : MpdSegment :=
  let expanded := expandTemplate (tmpl.media.getD []) profile.repId profile.bandwidth entry.number
    (nonzero entry.time)
  { media := resolveUrl crates.join mpdUrl (baseUrl ++ expanded)
    number := entry.number
    extinf :=
      match entry.startUnix, entry.endUnix with
      | some s, some e => e - s
      | _, _ => (entry.duration : ℚ) / (max timescale 1 : ℕ)
    time := nonzero entry.time
    durationMpdTimescale := nonzero entry.duration
    startUnix := entry.startUnix
    programDateTime := entry.startUnix.bind crates.unixToIso8601
    mediaRange := none
    initRange := none }

/-- The entries that `generate_from_template` makes segments of. `nowUnix` is the current time. -/
def templateEntries (nowUnix : ℚ) (tmpl : SegmentTemplate) (isLive : Bool)
    (periodAvailStartUnix timeShiftBufferDepthSec : ℚ) (mediaPresentationDurationSec : Option ℚ)
    (startNumber timescale : ℕ) : List TimelineEntry :=
  let presentationTimeOffset := (tmpl.presentationTimeOffset.bind parseU64).getD 0
  match tmpl.media, tmpl.segmentTimeline, tmpl.duration with
  | none, _, _ => []
  -- SegmentTimeline mode
  | some _, some timeline, _ =>
    preprocessTimeline timeline startNumber periodAvailStartUnix presentationTimeOffset timescale
  -- fixed @duration mode
  | some _, none, some durationStr =>
    let durationTs := (parseU64 durationStr).getD 0
    if durationTs = 0 then []
    else if isLive then
      generateLiveSegments nowUnix periodAvailStartUnix timeShiftBufferDepthSec
        ((durationTs : ℚ) / timescale) startNumber (some durationTs) presentationTimeOffset
    else
      generateVodSegments (mediaPresentationDurationSec.getD 0) durationTs timescale startNumber
  | some _, none, none => []

def generateFromTemplate (nowUnix : ℚ) (profile : MpdProfile) (tmpl : SegmentTemplate)
    (mpdUrl baseUrl : Str) (isLive : Bool) (periodAvailStartUnix timeShiftBufferDepthSec : ℚ)
    (mediaPresentationDurationSec : Option ℚ) (startNumber timescale : ℕ) : List MpdSegment :=
  (templateEntries nowUnix tmpl isLive periodAvailStartUnix timeShiftBufferDepthSec
    mediaPresentationDurationSec startNumber timescale).map fun entry =>
      timelineEntryToSegment crates entry tmpl profile mpdUrl baseUrl timescale

end

/-- `resolve_nominal_duration`: the median of the durations that are known. -/
def resolveNominalDuration (segments : List MpdSegment) : Option ℕ :=
  let durations := (segments.filterMap MpdSegment.durationMpdTimescale).filter (· > 0)
  let sorted := durations.insertionSort (· ≤ ·)
  sorted[sorted.length / 2]?

end MediaFlow
