import MediaFlow.Mpd.Processor

/-!
# From the MPD document to profiles

`mpd/parser.rs` and the first half of `mpd/processor.rs`: the document as the XML has it, and the
profiles that are made of its representations. What concerns DRM is left out, as are attributes that
only describe a stream to the player and no modelled function reads.
-/

open Text

namespace MediaFlow

/-! ### Durations -/

/-- The value of decimal digits. -/
def digitsValue (s : Str) : ℕ := s.foldl (fun n c => n * 10 + (c.toNat - 48)) 0

/-- `str::parse::<f64>`, for a text of digits and dots. -/
def parseDecimal (s : Str) : Option ℚ :=
  match splitOnce '.' s with
  | none => if s ≠ [] ∧ s.all Char.isDigit then some (digitsValue s) else none
  | some (whole, fraction) =>
    if (whole ≠ [] ∨ fraction ≠ []) ∧ whole.all Char.isDigit ∧ fraction.all Char.isDigit then
      some (digitsValue whole + (digitsValue fraction : ℚ) / 10 ^ fraction.length)
    else none

/-- `next_value`: the leading number and its designator, and what remains. -/
def nextValue (s : Str) : Option (ℚ × Str × Char) :=
  match s.dropWhile fun c => c.isDigit || c = '.' with
  | [] => none
  | designator :: rest =>
    (parseDecimal (s.takeWhile fun c => c.isDigit || c = '.')).map (·, rest, designator)

/-- The values of one part of a duration, with their designators. Each takes a character at least, so
there are no more than the text has. -/
def durationValues : ℕ → Str → List (ℚ × Char)
  | 0, _ => []
  | fuel + 1, s =>
    match nextValue s with
    | some (val, rest, unit) => (val, unit) :: durationValues fuel rest
    | none => []

/-- The value that was assigned last to a unit. -/
def unitValue (unit : Char) (values : List (ℚ × Char)) : ℚ :=
  ((values.filter (·.2 = unit)).getLast?.map (·.1)).getD 0

/-- `parse_duration`: an ISO 8601 duration, in seconds. -/
def parseDuration (s : Str) : ℚ :=
  match trim s with
  | 'P' :: s =>
    let (datePart, timePart) :=
      match splitOnce 'T' s with
      | some (date, time) => (date, time)
      | none => (s, [])
    let date := durationValues datePart.length datePart
    let time := durationValues timePart.length timePart
    unitValue 'Y' date * 365 * 86400 + unitValue 'M' date * 30 * 86400 + unitValue 'D' date * 86400
      + unitValue 'H' time * 3600 + unitValue 'M' time * 60 + unitValue 'S' time
  | _ => 0

example : parseDuration "P1DT2H3M4.5S".toList = 93784 + 1 / 2 := by decide +kernel

/-! ### The document -/

/-- A `SegmentTemplate` element, with all its attributes. -/
structure SegmentTemplateElement extends SegmentTemplate where
  initialization : Option Str
  timescale : Option Str
  startNumber : Option Str

structure SegmentListInit where
  sourceUrl : Option Str
  range : Option Str

structure SegmentUrl where
  media : Option Str
  mediaRange : Option Str

structure SegmentList where
  timescale : Option Str
  duration : Option Str
  initialization : Option SegmentListInit
  segmentUrls : List SegmentUrl

structure SegmentBaseInit where
  range : Option Str

structure SegmentBase where
  initialization : Option SegmentBaseInit

structure Representation where
  id : Option Str
  mimeType : Option Str
  codecs : Option Str
  bandwidth : Option Str
  width : Option Str
  height : Option Str
  frameRate : Option Str
  lang : Option Str
  segmentTemplate : Option SegmentTemplateElement
  segmentList : Option SegmentList
  segmentBase : Option SegmentBase
  /-- The text of the `BaseURL`. -/
  baseUrl : Option Str

structure AdaptationSet where
  id : Option Str
  mimeType : Option Str
  codecs : Option Str
  lang : Option Str
  width : Option Str
  height : Option Str
  bandwidth : Option Str
  maxFrameRate : Option Str
  frameRate : Option Str
  segmentTemplate : Option SegmentTemplateElement
  segmentList : Option SegmentList
  representations : List Representation

structure Period where
  start : Option Str
  /-- Parsed, and read by nothing. -/
  duration : Option Str
  adaptationSets : List AdaptationSet

structure MpdDocument where
  streamType : Option Str
  availabilityStartTime : Option Str
  timeShiftBufferDepth : Option Str
  mediaPresentationDuration : Option Str
  periods : List Period

/-! ### Representations -/

/-- A profile, with what the master playlist says of it. -/
structure RepresentationProfile extends MpdProfile where
  codecs : Str
  lang : Option Str
  width : ℕ
  height : ℕ
  /-- What the frame rate is parsed from. -/
  frameRateStr : Str

structure ParsedMpd where
  isLive : Bool
  profiles : List RepresentationProfile

/-- What other crates do while a document is read. -/
structure DocumentCrates extends MpdCrates where
  /-- `parse_datetime_to_unix`, which parses a date and time. -/
  parseDatetimeToUnix : Str → Option ℚ

/-- `str::parse::<u32>`. -/
def parseU32 (s : Str) : Option ℕ := (parseU64 s).filter (· < 2 ^ 32)

section Representations

variable (crates : DocumentCrates) (nowUnix : ℚ)

/-- The template of a representation, or of its adaptation set. -/
def templateOf (rep : Representation) (adaptation : AdaptationSet) : Option SegmentTemplateElement :=
  rep.segmentTemplate.or adaptation.segmentTemplate

def generateFromList (list : SegmentList) (rep : Representation) (mpdUrl : Str) (timescale : ℕ) :
    List MpdSegment :=
  let listTimescale := (list.timescale.bind parseU64).getD (max timescale 1)
  let duration := (list.duration.bind parseU64).getD 0
  let segmentDurationSec : ℚ :=
    if listTimescale > 0 ∧ duration > 0 then (duration : ℚ) / listTimescale else 1
  let baseUrl := rep.baseUrl.getD []
  list.segmentUrls.zipIdx.filterMap fun (segUrl, i) =>
    let mediaUrl :=
      match segUrl.media with
      | some media => some (resolveUrl crates.join mpdUrl media)
      | none => if baseUrl = [] then none else some (resolveUrl crates.join mpdUrl baseUrl)
    mediaUrl.map fun media =>
      { media := media
        number := i + 1
        extinf := segmentDurationSec
        time := none
        durationMpdTimescale := nonzero duration
        startUnix := none
        programDateTime := none
        mediaRange := segUrl.mediaRange
        initRange := none }

def generateFromBase (base : SegmentBase) (rep : Representation) (mpdUrl : Str)
    (totalDurationSec : Option ℚ) : List MpdSegment :=
  let initRange := base.initialization.bind (·.range)
  -- the media begin after the init segment
  let mediaRange := initRange.bind fun range =>
    ((range.splitOn '-')[1]?.bind fun endByte => parseU64 (trim endByte)).map fun endByte =>
      decimal (endByte + 1) ++ ['-']
  [{ media := resolveUrl crates.join mpdUrl (rep.baseUrl.getD [])
     number := 1
     extinf := max (totalDurationSec.getD 1) 1
     time := none
     durationMpdTimescale := none
     startUnix := none
     programDateTime := none
     mediaRange := mediaRange
     initRange := initRange }]

def generateSegments (profile : MpdProfile) (rep : Representation) (adaptation : AdaptationSet)
    (mpdUrl baseUrl : Str) (isLive : Bool) (periodAvailStartUnix timeShiftBufferDepthSec : ℚ)
    (mediaPresentationDurationSec : Option ℚ) (startNumber timescale : ℕ) : List MpdSegment :=
  match templateOf rep adaptation, rep.segmentList.or adaptation.segmentList, rep.segmentBase with
  | some tmpl, _, _ =>
    generateFromTemplate crates.toMpdCrates nowUnix profile tmpl.toSegmentTemplate mpdUrl baseUrl
      isLive periodAvailStartUnix timeShiftBufferDepthSec mediaPresentationDurationSec startNumber
      timescale
  | none, some list, _ => generateFromList crates list rep mpdUrl timescale
  | none, none, some base => generateFromBase crates base rep mpdUrl mediaPresentationDurationSec
  | none, none, none => []

def computeInitUrl (rep : Representation) (adaptation : AdaptationSet) (mpdUrl baseUrl repId : Str)
    (bandwidth : ℕ) : Option Str × Option Str :=
  let resolve := resolveUrl crates.join mpdUrl
  let base := rep.baseUrl.getD []
  let list := rep.segmentList.or adaptation.segmentList
  match (templateOf rep adaptation).bind (·.initialization), list.bind (·.initialization) with
  | some init, _ =>
    (some (resolve (baseUrl ++ expandTemplate init repId bandwidth 1 none)), none)
  | none, some { sourceUrl := some sourceUrl, .. } => (some (resolve sourceUrl), none)
  | none, some { sourceUrl := none, range := some range } => (some (resolve base), some range)
  | none, _ =>
    match rep.segmentBase with
    | some sb => (some (resolve base), sb.initialization.bind (·.range))
    | none => if base = [] then (none, none) else (some (resolve base), none)

/-- The MIME type of a representation, or a guess from its codecs. -/
def mimeTypeOf (rep : Representation) (adaptation : AdaptationSet) : Str :=
  match rep.mimeType.or adaptation.mimeType, rep.codecs.or adaptation.codecs with
  | some mimeType, _ => mimeType
  | none, some c =>
    if contains c "avc".toList || contains c "hvc".toList || contains c "vp".toList then
      "video/mp4".toList
    else "audio/mp4".toList
  | none, none => "video/mp4".toList

def isVideo (mimeType : Str) : Bool := contains mimeType "video".toList

def isAudio (mimeType : Str) : Bool := contains mimeType "audio".toList

/-- The profile id: `{adapt_id}_{rep_id}_{bandwidth}`. -/
def profileId (rep : Representation) (adaptation : AdaptationSet) : Str :=
  adaptation.id.getD ['0'] ++ '_' :: (rep.id.getD ['0'] ++
    '_' :: decimal ((rep.bandwidth.bind parseU64).getD 0))

def startNumberOf (rep : Representation) (adaptation : AdaptationSet) : ℕ :=
  ((templateOf rep adaptation).bind fun t => t.startNumber.bind parseU64).getD 1

def timescaleOf (rep : Representation) (adaptation : AdaptationSet) : ℕ :=
  ((templateOf rep adaptation).bind fun t => t.timescale.bind parseU64).getD 1

/-- `parse_representation`. -/
def parseRepresentation (rep : Representation) (adaptation : AdaptationSet) (mpdUrl : Str)
    (isLive : Bool) (periodAvailStartUnix timeShiftBufferDepthSec : ℚ)
    (mediaPresentationDurationSec : Option ℚ) (parseSegmentProfileId : Option Str) :
    Option RepresentationProfile :=
  let mimeType := mimeTypeOf rep adaptation
  -- only video and audio
  if !isVideo mimeType && !isAudio mimeType then none
  else
    let repId := rep.id.getD ['0']
    let id := profileId rep adaptation
    let bandwidth := (rep.bandwidth.bind parseU64).getD ((adaptation.bandwidth.bind parseU64).getD 0)
    let startNumber := startNumberOf rep adaptation
    let timescale := timescaleOf rep adaptation
    let baseUrl := rep.baseUrl.getD []
    let (initUrl, initRange) :=
      computeInitUrl crates rep adaptation mpdUrl baseUrl repId bandwidth
    let profile : RepresentationProfile :=
      { id := id
        repId := repId
        mimeType := mimeType
        bandwidth := bandwidth
        initUrl := initUrl
        initRange := initRange
        segments := []
        segmentTemplateStartNumberExplicit :=
          ((templateOf rep adaptation).bind (·.startNumber)).isSome
        nominalDurationMpdTimescale := none
        codecs := (rep.codecs.or adaptation.codecs).getD []
        lang := rep.lang.or adaptation.lang
        width := ((rep.width.or adaptation.width).bind parseU32).getD 0
        height := ((rep.height.or adaptation.height).bind parseU32).getD 0
        frameRateStr := ((rep.frameRate.or adaptation.maxFrameRate).or adaptation.frameRate).getD
          "30000/1001".toList }
    if parseSegmentProfileId = none ∨ parseSegmentProfileId = some id then
      let segments := generateSegments crates nowUnix profile.toMpdProfile rep adaptation mpdUrl
        baseUrl isLive periodAvailStartUnix timeShiftBufferDepthSec mediaPresentationDurationSec
        startNumber timescale
      some { profile with
        segments := segments
        nominalDurationMpdTimescale := resolveNominalDuration segments }
    else some profile

def MpdDocument.isLive (doc : MpdDocument) : Bool :=
  doc.streamType.any fun t => t.map Char.toLower = "dynamic".toList

/-- The representations of a document, with the period and the adaptation set that each is in. -/
def MpdDocument.instances (doc : MpdDocument) : List (Period × AdaptationSet × Representation) :=
  doc.periods.flatMap fun period => period.adaptationSets.flatMap fun adaptation =>
    adaptation.representations.map fun rep => (period, adaptation, rep)

/-- `parse_mpd_document`. -/
def parseMpdDocument (doc : MpdDocument) (mpdUrl : Str) (parseSegmentProfileId : Option Str) :
    ParsedMpd :=
  let mediaPresentationDurationSec := doc.mediaPresentationDuration.map parseDuration
  let timeShiftBufferDepthSec := (doc.timeShiftBufferDepth.map parseDuration).getD 120
  let availabilityStartUnix := doc.availabilityStartTime.bind crates.parseDatetimeToUnix
  { isLive := doc.isLive
    profiles := doc.instances.filterMap fun (period, adaptation, rep) =>
      let periodStartSec := (period.start.map parseDuration).getD 0
      parseRepresentation crates nowUnix rep adaptation mpdUrl doc.isLive
        (availabilityStartUnix.getD 0 + periodStartSec) timeShiftBufferDepthSec
        mediaPresentationDurationSec parseSegmentProfileId }

end Representations

end MediaFlow
