import MediaFlow.Mpd.Processor
import MediaFlow.Hls.SkipFilter

/-!
# Media playlists

`build_hls_media_playlist` of `mpd/processor.rs` and the functions it uses: the depth and the media
sequence of a live playlist, and the URLs of segments and init segments.
-/

open Text

namespace MediaFlow

/-- A number with `digits` decimals, rounded half to even, as `{:.1}` and `{:.3}` write it. -/
def formatFixed (digits : ℕ) (q : ℚ) : Str :=
  let scaled := |q| * 10 ^ digits
  let n :=
    if scaled - ⌊scaled⌋ < 1 / 2 ∨ (scaled - ⌊scaled⌋ = 1 / 2 ∧ ⌊scaled⌋ % 2 = 0) then
      ⌊scaled⌋.toNat
    else ⌊scaled⌋.toNat + 1
  let fraction := decimal (n % 10 ^ digits)
  (if q < 0 then ['-'] else []) ++ decimal (n / 10 ^ digits) ++
    if digits = 0 then []
    else '.' :: (List.replicate (digits - fraction.length) '0' ++ fraction)

/-! ### Sequence and depth -/

/-- `compute_live_media_sequence`. -/
def computeLiveMediaSequence (firstSegment : MpdSegment) (profile : MpdProfile)
    (segments : List MpdSegment) : ℕ :=
  if profile.segmentTemplateStartNumberExplicit then max firstSegment.number 1
  else
    let nominal := profile.nominalDurationMpdTimescale.or (resolveNominalDuration segments)
    match firstSegment.time, nominal with
    | some t, some nom =>
      if nom = 0 then max firstSegment.number 1
      else max (t / nom) 1
    | _, _ => max firstSegment.number 1

/-- The duration that the depth is computed with: the median of the given ones. -/
def medianExtinf (extinfValues : List ℚ) : ℚ :=
  let sorted := extinfValues.insertionSort (· ≤ ·)
  match sorted[sorted.length / 2]? with
  | some median => max median (1 / 10)
  | none => 4

/-- `compute_live_playlist_depth`. -/
def computeLivePlaylistDepth (isTsMode : Bool) (effectiveStartOffset : Option ℚ)
    (configuredDepth : ℕ) (extinfValues : List ℚ) : ℕ :=
  let depth := max configuredDepth (if isTsMode then 20 else 15)
  let depth :=
    match effectiveStartOffset with
    | some offset =>
      if offset < 0 then
        let segsBehind := ⌈|offset| / medianExtinf extinfValues⌉₊
        max depth (segsBehind + if isTsMode then 10 else 12)
      else depth
    | none => depth
  max depth 1

/-! ### URLs -/

structure MpdProxyParams where
  apiPassword : Str
  passHeaders : List (Str × Str)
  keyId : Option Str
  key : Option Str
  remuxToTs : Bool

section Urls

-- `urlencoding::encode`
variable (encode : Str → Str)

/-- The query parameters for the keys and headers. -/
def keyAndHeaderParams (params : MpdProxyParams) : Str :=
  (match params.keyId with | some kid => "&key_id=".toList ++ encode kid | none => []) ++
  (match params.key with | some key => "&key=".toList ++ encode key | none => []) ++
  params.passHeaders.flatMap fun (k, v) =>
    "&h_".toList ++ encode k ++ ['='] ++ encode v

def buildSegmentUrl (proxyBase initUrl segmentUrl mimeType : Str) (isLive useMap : Bool)
    (initRange segInitRange segmentRange : Option Str) (params : MpdProxyParams) : Str :=
  proxyBase ++ "/proxy/mpd/segment.".toList
    ++ (if params.remuxToTs then "ts".toList else "mp4".toList)
    ++ "?init_url=".toList ++ encode initUrl ++ "&segment_url=".toList ++ encode segmentUrl
    ++ "&mime_type=".toList ++ encode mimeType
    ++ "&is_live=".toList ++ (if isLive then "true".toList else "false".toList)
    ++ "&api_password=".toList ++ encode params.apiPassword
    ++ (if useMap then "&use_map=true".toList else [])
    ++ (match segInitRange.or initRange with
      | some range => "&init_range=".toList ++ encode range
      | none => [])
    ++ (match segmentRange with
      | some range => "&segment_range=".toList ++ encode range
      | none => [])
    ++ keyAndHeaderParams encode params

def buildInitUrl (proxyBase initUrl mimeType : Str) (initRange : Option Str)
    (params : MpdProxyParams) : Str :=
  proxyBase ++ "/proxy/mpd/init?init_url=".toList ++ encode initUrl
    ++ "&mime_type=".toList ++ encode mimeType
    ++ "&api_password=".toList ++ encode params.apiPassword
    ++ (match initRange with
      | some range => "&init_range=".toList ++ encode range
      | none => [])
    ++ keyAndHeaderParams encode params

end Urls

/-! ### The playlist -/

/-- The variables of the loop over the segments. -/
structure SegmentLoop where
  skipFilter : Option SkipSegmentFilter
  needDiscontinuity : Bool := false
  currentInitUrl : Option Str := none

section Playlist

variable (encode : Str → Str) (isLive : Bool) (proxyBase : Str) (params : MpdProxyParams)

/-- The lines of one segment that is not skipped. -/
def keptSegmentLines (st : SegmentLoop) (segment : MpdSegment) (profile : MpdProfile) :
    List Str × SegmentLoop :=
  let useMap := !params.remuxToTs
  let thisInit := profile.initUrl.getD []
  -- a new init segment
  let changed := useMap ∧ some thisInit ≠ st.currentInitUrl
  let boundary := changed ∧ st.currentInitUrl.isSome
  let mapLines :=
    if changed then
      (if boundary then ["#EXT-X-DISCONTINUITY".toList] else []) ++
        if thisInit = [] then []
        else ["#EXT-X-MAP:URI=\"".toList
          ++ buildInitUrl encode proxyBase thisInit profile.mimeType profile.initRange params
          ++ ['"']]
    else []
  let needDiscontinuity := st.needDiscontinuity ∧ ¬ boundary
  let lines := mapLines
    ++ (if needDiscontinuity then ["#EXT-X-DISCONTINUITY".toList] else [])
    ++ (match segment.programDateTime with
      | some pdt => if params.remuxToTs then [] else ["#EXT-X-PROGRAM-DATE-TIME:".toList ++ pdt]
      | none => [])
    ++ ["#EXTINF:".toList ++ formatFixed 3 segment.extinf ++ [','],
      buildSegmentUrl encode proxyBase (profile.initUrl.getD []) segment.media profile.mimeType
        isLive (useMap && !params.remuxToTs) profile.initRange segment.initRange
        segment.mediaRange params]
  (lines, { st with
    needDiscontinuity := false
    currentInitUrl := if changed then some thisInit else st.currentInitUrl })

/-- The lines of all segments. -/
def segmentLines : SegmentLoop → List (MpdSegment × MpdProfile) → List Str
  | _, [] => []
  | st, (segment, profile) :: rest =>
    let (skip, st) : Bool × SegmentLoop :=
      match st.skipFilter with
      | some f =>
        let (skip, f) := f.checkAndAdvance segment.extinf
        (skip, { st with skipFilter := some f })
      | none => (false, st)
    if skip then segmentLines { st with needDiscontinuity := true } rest
    else
      let (lines, st) := keptSegmentLines encode isLive proxyBase params st segment profile
      lines ++ segmentLines st rest

/-- The segments of all period-profiles, in order. -/
def mergedSegments (profiles : List MpdProfile) : List (MpdSegment × MpdProfile) :=
  profiles.flatMap fun profile => profile.segments.map fun segment => (segment, profile)

/-- The durations that are not zero. -/
def positiveExtinfs (segments : List (MpdSegment × MpdProfile)) : List ℚ :=
  (segments.map fun p => p.1.extinf).filter (· > 0)

def effectiveStartOffset (startOffset : Option ℚ) : Option ℚ :=
  if params.remuxToTs ∧ isLive ∧ startOffset = none then some (-30)
  else startOffset.or (if isLive then some (-30) else none)

/-- The segments that are written: of a live playlist, the last `depth`. -/
def trimmedSegments (startOffset : Option ℚ) (configuredDepth : ℕ)
    (merged : List (MpdSegment × MpdProfile)) : List (MpdSegment × MpdProfile) :=
  if isLive then
    let depth := computeLivePlaylistDepth params.remuxToTs
      (effectiveStartOffset isLive params startOffset) configuredDepth (positiveExtinfs merged)
    merged.drop (merged.length - depth)
  else merged

/-- The media sequence of a playlist whose first segment is `first`. -/
def playlistSequence (first : MpdSegment × MpdProfile) : ℕ :=
  if isLive then computeLiveMediaSequence first.1 first.2 first.2.segments
  else max first.1.number 1

def targetDuration (trimmed : List (MpdSegment × MpdProfile)) : ℕ :=
  let longest := ⌈(positiveExtinfs trimmed).foldl max 0⌉₊
  if params.remuxToTs then longest + 1 else longest

/-- The lines of `build_hls_media_playlist`; the source joins them with newlines. -/
def buildHlsMediaPlaylist (profiles : List MpdProfile) (skipRanges : List SkipRange)
    (startOffset : Option ℚ) (configuredDepth : ℕ) : List Str :=
  let header := ["#EXTM3U".toList,
    "#EXT-X-VERSION:".toList ++ decimal (if params.remuxToTs then 3 else 6)]
  let merged := mergedSegments profiles
  if merged = [] then header
  else
    let startLine :=
      match effectiveStartOffset isLive params startOffset with
      | some offset => ["#EXT-X-START:TIME-OFFSET=".toList ++ formatFixed 1 offset
          ++ ",PRECISE=".toList ++ if params.remuxToTs then "NO".toList else "YES".toList]
      | none => []
    match trimmedSegments isLive params startOffset configuredDepth merged with
    | [] => header ++ startLine
    | first :: rest =>
      header ++ startLine
        ++ ["#EXT-X-TARGETDURATION:".toList ++ decimal (targetDuration params (first :: rest)),
          "#EXT-X-MEDIA-SEQUENCE:".toList ++ decimal (playlistSequence isLive first)]
        ++ (if isLive then [] else ["#EXT-X-PLAYLIST-TYPE:VOD".toList])
        ++ segmentLines encode isLive proxyBase params
            { skipFilter := if skipRanges = [] then none else some { ranges := skipRanges } }
            (first :: rest)
        ++ if isLive then [] else ["#EXT-X-ENDLIST".toList]

end Playlist

end MediaFlow
