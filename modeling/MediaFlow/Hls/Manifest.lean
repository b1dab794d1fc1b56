import MediaFlow.Hls.SkipFilter
import MediaFlow.Lib.Lines
import MediaFlow.Mpd.Document
import MediaFlow.Mpd.Playlist
import MediaFlow.Proxy.GenerateUrl
import MediaFlow.Utils.Url

/-!
# HLS playlists

`hls/manifest.rs`: the URLs of a playlist are rewritten to go through the proxy. A playlist that
m3u8-rs can parse is rewritten as a structure (`processMaster`, `processMedia`), another one line by
line (`processLines`).

A URL of the proxy may hold a token that is drawn anew each time. A text that is written is therefore
a list of pieces, some of which are such URLs, by endpoint and destination; `Piece.render` makes the
text of one.
-/

open ByteString Text UrlCoding

namespace MediaFlow

/-! ### Playlists, as m3u8-rs has them

The type of texts is a parameter: plain texts when a playlist is parsed, texts with URLs of the proxy
when it is written. Fields that are written as they were parsed are left out. -/

structure ByteRange where
  length : ℕ
  /-- Without an offset, the range begins where that of the segment before ends. -/
  offset : Option ℕ
deriving DecidableEq

inductive KeyMethod
  | none
  | aes128
  | sampleAes
  | other (s : Str)
deriving DecidableEq

structure Key (α : Type) where
  method : KeyMethod
  uri : Option α
  iv : Option Str
  keyformat : Option Str
deriving DecidableEq

structure MapTag (α : Type) where
  uri : α
  byteRange : Option ByteRange
deriving DecidableEq

/-- A tag that m3u8-rs does not know, with what follows the colon. -/
structure ExtTag (α : Type) where
  tag : Str
  rest : Option α
deriving DecidableEq

structure MediaSegment (α : Type) where
  uri : α
  /-- In seconds. -/
  duration : ℚ
  byteRange : Option ByteRange := none
  discontinuity : Bool := false
  key : Option (Key α) := none
  map : Option (MapTag α) := none
  unknownTags : List (ExtTag α) := []
deriving DecidableEq

inductive PlaylistType
  | event
  | vod
  | other (s : Str)
deriving DecidableEq

structure MediaPlaylist (α : Type) where
  mediaSequence : ℕ
  segments : List (MediaSegment α)
  playlistType : Option PlaylistType := none
  endList : Bool := false
  unknownTags : List (ExtTag α) := []
deriving DecidableEq

/-- Of `EXT-X-STREAM-INF` or, for trick play, `EXT-X-I-FRAME-STREAM-INF`. -/
structure VariantStream (α : Type) where
  isIFrame : Bool
  uri : α
deriving DecidableEq

/-- Of `EXT-X-MEDIA`. -/
structure AlternativeMedia (α : Type) where
  uri : Option α
deriving DecidableEq

/-- `sessionData` and `sessionKeys` are the URIs of these tags. -/
structure MasterPlaylist (α : Type) where
  variants : List (VariantStream α)
  alternatives : List (AlternativeMedia α) := []
  sessionData : List (Option α) := []
  sessionKeys : List (Option α) := []
  unknownTags : List (ExtTag α) := []
deriving DecidableEq

inductive Playlist (α : Type)
  | master (pl : MasterPlaylist α)
  | media (pl : MediaPlaylist α)
deriving DecidableEq

/-- What other crates do for the processor. -/
structure HlsCrates extends JoinCrate where
  /-- `m3u8_rs::parse_playlist_res`. -/
  parsePlaylist : Bytes → Option (Playlist Str)

/-! ### URLs of the proxy -/

structure ProxyParams where
  apiPassword : Str
  passHeaders : List (Str × Str)
  playlistUrl : Option Str

def ProxyParams.apiPasswordOpt (params : ProxyParams) : Option Str :=
  if params.apiPassword = [] then none else some params.apiPassword

inductive Endpoint
  | manifest
  | segment
  | key
deriving DecidableEq

/-- A part of a text: plain text, or the URL of a destination at an endpoint of the proxy. -/
inductive Piece
  | text (s : Str)
  | proxied (endpoint : Endpoint) (destination : Str)
deriving DecidableEq

abbrev Written := List Piece

/-- What the three functions below have in common. -/
def hlsUrlRequest (proxyBase endpoint destination : Str) (queryParams : List (Str × Str))
    (params : ProxyParams) : GenerateUrlRequest where
  mediaflowProxyUrl := proxyBase
  endpoint := some endpoint
  destinationUrl := destination
  queryParams := queryParams
  requestHeaders := params.passHeaders
  responseHeaders := []
  propagateResponseHeaders := []
  removeResponseHeaders := []
  streamTransformer := none
  filename := none
  expiration := none
  ip := none
  apiPassword := params.apiPasswordOpt
  base64EncodeDestination := false

def proxyManifestUrl (proxyBase destination : Str) (params : ProxyParams) : GenerateUrlRequest :=
  hlsUrlRequest proxyBase "/proxy/hls/manifest".toList destination [] params

def proxySegmentUrl (proxyBase destination : Str) (params : ProxyParams) : GenerateUrlRequest :=
  hlsUrlRequest proxyBase ("/proxy/hls/segment.".toList ++ Utils.segmentExtension destination)
    destination
    (match params.playlistUrl with
      | some playlistUrl => [("playlist_url".toList, playlistUrl)]
      | none => [])
    params

/-- The segment endpoint, without an extension. -/
def proxyKeyUrl (proxyBase destination : Str) (params : ProxyParams) : GenerateUrlRequest :=
  hlsUrlRequest proxyBase "/proxy/hls/segment".toList destination [] params

def Endpoint.request (proxyBase destination : Str) (params : ProxyParams) :
    Endpoint → GenerateUrlRequest
  | manifest => proxyManifestUrl proxyBase destination params
  | segment => proxySegmentUrl proxyBase destination params
  | key => proxyKeyUrl proxyBase destination params

/-- The text of a piece. A URL is built with the initialisation vector that is drawn for it. -/
def Piece.render (web : WebCrates) (crates : MintCrates) (proxyBase : Str) (params : ProxyParams)
    (iv : Bytes) (now : ℕ) : Piece → Str
  | text s => s
  | proxied endpoint destination =>
    buildProxyUrl web crates (endpoint.request proxyBase destination params) iv now

/-! ### Options -/

structure ManifestOptions where
  /-- Only the key URL is proxied; segment URLs are returned direct. -/
  keyOnlyProxy : Bool := false
  /-- All absolute URLs without any proxying. -/
  noProxy : Bool := false
  forcePlaylistProxy : Bool := false
  skipRanges : List SkipRange := []
  /-- `EXT-X-START:TIME-OFFSET` value to inject. -/
  startOffset : Option ℚ := none
  /-- Inject it even for VOD streams. -/
  forceStartOffset : Bool := false

/-! ### Utility functions -/

/-- `str::parse::<f64>`, for the texts of finite numbers. -/
def parseF64 (s : Str) : Option ℚ :=
  let (negative, unsigned) : Bool × Str :=
    match s with
    | '-' :: rest => (true, rest)
    | '+' :: rest => (false, rest)
    | s => (false, s)
  let mantissa := unsigned.takeWhile fun c => c ≠ 'e' ∧ c ≠ 'E'
  let exponent : Option ℤ :=
    match unsigned.dropWhile fun c => c ≠ 'e' ∧ c ≠ 'E' with
    | [] => some 0
    | _ :: '-' :: digits =>
      if digits ≠ [] ∧ digits.all Char.isDigit then some (-(digitsValue digits : ℤ)) else none
    | _ :: digits =>
      let digits := (stripPrefix ['+'] digits).getD digits
      if digits ≠ [] ∧ digits.all Char.isDigit then some (digitsValue digits) else none
  match parseDecimal mantissa, exponent with
  | some m, some e => some ((if negative then -m else m) * 10 ^ e)
  | _, _ => none

def extinfTag : Str := "#EXTINF:".toList

/-- Parse the duration value from an `#EXTINF:<duration>[,<title>]` line. -/
def parseExtinfDuration (line : Str) : ℚ :=
  ((stripPrefix extinfTag line).bind fun rest => parseF64 (trim (rest.takeWhile (· ≠ ',')))).getD 0

def isPlaylistUrl (url : Str) : Bool :=
  let lower := (url.takeWhile fun c => c ≠ '?' ∧ c ≠ '#').map Char.toLower
  ".m3u8".toList.isSuffixOf lower || ".m3u".toList.isSuffixOf lower

/-- `std::str::from_utf8(content).unwrap_or_default()`. -/
def contentText (content : Bytes) : Str := (fromUtf8 content).getD []

/-- An extended playlist with attributes in its EXTINF lines, which m3u8-rs would lose. -/
def isIptvPlaylist (content : Bytes) : Bool :=
  (lines (contentText content)).any fun line =>
    let t := trim line
    extinfTag.isPrefixOf t &&
      (contains t "group-title=".toList || contains t "tvg-id=".toList
        || contains t "tvg-name=".toList || contains t "tvg-logo=".toList)

/-- The text with the value of the first `URI="..."` replaced. -/
def rewriteUriValue (newUri : Str → Piece) (s : Str) : Written :=
  match find "URI=\"".toList s with
  | none => [.text s]
  | some start =>
    let rest := s.drop (start + 5)
    match find ['"'] rest with
    | none => [.text s]
    | some stop => [.text (s.take (start + 5)), newUri (rest.take stop), .text (rest.drop stop)]

/-! ### Skipped segments -/

section Skip

variable {α : Type}

/-- The loop of `apply_skip_filter`, over the segments from here on. -/
def skipSegments : SkipSegmentFilter → Bool → List (MediaSegment α) → List (MediaSegment α)
  | _, _, [] => []
  | filter, needDiscontinuity, seg :: rest =>
    match filter.checkAndAdvance seg.duration with
    | (true, filter) => skipSegments filter true rest
    | (false, filter) =>
      { seg with discontinuity := needDiscontinuity || seg.discontinuity } ::
        skipSegments filter false rest

def applySkipFilter (ranges : List SkipRange) (pl : MediaPlaylist α) : MediaPlaylist α :=
  { pl with segments := skipSegments { ranges } false pl.segments }

end Skip

/-! ### The processor -/

namespace ManifestProcessor

variable (crates : HlsCrates) (opts : ManifestOptions)

/-- Where a URI leads: to an endpoint of the proxy, or with `no_proxy` to the URL itself. -/
def target (endpoint : Endpoint) (baseUrl uri : Str) : Piece :=
  let resolved := Utils.resolveUrl crates.toJoinCrate baseUrl uri
  if opts.noProxy then .text resolved else .proxied endpoint resolved

def rewritePlaylistUri (uri baseUrl : Str) : Piece :=
  .proxied .manifest (Utils.resolveUrl crates.toJoinCrate baseUrl uri)

def rewriteTagRestUri (rest baseUrl : Str) (isPlaylist : Bool) : Written :=
  rewriteUriValue (target crates opts (if isPlaylist then .manifest else .key) baseUrl) rest

def rewriteSegmentOrPlaylistUri (uri baseUrl : Str) : Piece :=
  let resolved := Utils.resolveUrl crates.toJoinCrate baseUrl uri
  if opts.noProxy then .text resolved
  -- only the key is proxied
  else if opts.keyOnlyProxy then .text resolved
  -- sub-playlists
  else if isPlaylistUrl resolved then .proxied .manifest resolved
  else if opts.forcePlaylistProxy then .proxied .manifest resolved
  else .proxied .segment resolved

/-- The text as it stands. -/
def verbatim (s : Str) : Written := [.text s]

/-- A tag that m3u8-rs does not know. -/
def rewriteUnknown (baseUrl : Str) (isPlaylist : Bool) (unknown : ExtTag Str) : ExtTag Written where
  tag := unknown.tag
  rest := unknown.rest.map fun rest =>
    if contains rest "URI=\"".toList then rewriteTagRestUri crates opts rest baseUrl isPlaylist
    else verbatim rest

def processMaster (pl : MasterPlaylist Str) (baseUrl : Str) : MasterPlaylist Written :=
  let rewrite (uri : Str) : Written :=
    if opts.noProxy then verbatim (Utils.resolveUrl crates.toJoinCrate baseUrl uri)
    else [rewritePlaylistUri crates uri baseUrl]
  { variants := pl.variants.map fun v => ⟨v.isIFrame, rewrite v.uri⟩
    alternatives := pl.alternatives.map fun alt => ⟨alt.uri.map rewrite⟩
    sessionData := pl.sessionData.map (Option.map verbatim)
    sessionKeys := pl.sessionKeys.map (Option.map verbatim)
    unknownTags := pl.unknownTags.map fun unknown =>
      -- m3u8-rs rejects certain EXT-X-MEDIA attributes and keeps the tag as unknown
      if ¬ opts.noProxy ∧ unknown.tag = "X-MEDIA".toList then
        rewriteUnknown crates opts baseUrl true unknown
      else ⟨unknown.tag, unknown.rest.map verbatim⟩ }

/-- The tags of a media playlist whose URI is a sub-playlist. -/
def isPlaylistTag (tag : Str) : Bool :=
  tag = "X-MEDIA".toList || tag = "X-I-FRAME-STREAM-INF".toList

def rewriteMediaTag (baseUrl : Str) (unknown : ExtTag Str) : ExtTag Written :=
  rewriteUnknown crates opts baseUrl (isPlaylistTag unknown.tag) unknown

def rewriteSegment (baseUrl : Str) (seg : MediaSegment Str) : MediaSegment Written where
  uri := [rewriteSegmentOrPlaylistUri crates opts seg.uri baseUrl]
  duration := seg.duration
  byteRange := seg.byteRange
  discontinuity := seg.discontinuity
  key := seg.key.map fun key =>
    ⟨key.method, key.uri.map fun uri => [target crates opts .key baseUrl uri], key.iv, key.keyformat⟩
  map := seg.map.map fun map => ⟨[target crates opts .segment baseUrl map.uri], map.byteRange⟩
  unknownTags := seg.unknownTags.map (rewriteMediaTag crates opts baseUrl)

def isVod {α : Type} (pl : MediaPlaylist α) : Bool :=
  pl.endList ||
    match pl.playlistType with
    | some .vod => true
    | some (.other s) => contains (s.map Char.toLower) "vod".toList
    | some .event | none => false

/-- The playlist that `process_media` writes, and the offset of the `EXT-X-START` that it adds. -/
def processMedia (pl : MediaPlaylist Str) (baseUrl : Str) : MediaPlaylist Written × Option ℚ :=
  let rewritten : MediaPlaylist Written :=
    { mediaSequence := pl.mediaSequence
      segments := pl.segments.map (rewriteSegment crates opts baseUrl)
      playlistType := pl.playlistType
      endList := pl.endList
      unknownTags := pl.unknownTags.map (rewriteMediaTag crates opts baseUrl) }
  (if opts.skipRanges = [] then rewritten else applySkipFilter opts.skipRanges rewritten,
    opts.startOffset.filter fun _ => opts.forceStartOffset || !isVod pl)

/-! ### Line by line -/

def discontinuityTag : Str := "#EXT-X-DISCONTINUITY".toList

def processTagWithUri (line baseUrl : Str) : Written :=
  let endpoint :=
    if "#EXT-X-MAP".toList.isPrefixOf line then .segment
    -- a rendition sub-playlist
    else if "#EXT-X-MEDIA".toList.isPrefixOf line then .manifest
    else .key
  rewriteUriValue (target crates opts endpoint baseUrl) line

/-- The variables of the loop over the lines. -/
structure LineState where
  skipFilter : Option SkipSegmentFilter
  pendingExtinf : Option Str := none
  needDiscontinuity : Bool := false
  startOffsetInjected : Bool := false

def startLine (offset : ℚ) : Str :=
  "#EXT-X-START:TIME-OFFSET=".toList ++ formatFixed 1 offset ++ ",PRECISE=YES".toList

/-- An EXTINF line. It is written with the URL that follows. -/
def processExtinf (st : LineState) (line : Str) : LineState :=
  match st.skipFilter with
  | some f =>
    match f.checkAndAdvance (parseExtinfDuration line) with
    | (true, f) => { st with skipFilter := some f, needDiscontinuity := true, pendingExtinf := none }
    | (false, f) => { st with skipFilter := some f, pendingExtinf := some line }
  | none => { st with pendingExtinf := some line }

/-- The line of a URL. -/
def processUrlLine (baseUrl : Str) (st : LineState) (line : Str) : List Written × LineState :=
  if st.skipFilter.isSome ∧ st.pendingExtinf = none then ([], st)
  else
    ((if st.needDiscontinuity then [verbatim discontinuityTag] else [])
        ++ (match st.pendingExtinf with
          | some extinf => [verbatim extinf]
          | none => [])
        ++ [[rewriteSegmentOrPlaylistUri crates opts line baseUrl]],
      { st with needDiscontinuity := false, pendingExtinf := none })

/-- The lines that are written for one line. -/
def processLine (baseUrl : Str) (st : LineState) (line : Str) : List Written × LineState :=
  if trim line = "#EXTM3U".toList then
    match opts.startOffset with
    | some offset =>
      if st.startOffsetInjected then ([verbatim line], st)
      else ([verbatim line, verbatim (startLine offset)], { st with startOffsetInjected := true })
    | none => ([verbatim line], st)
  else if extinfTag.isPrefixOf line then ([], processExtinf st line)
  else if line.head? ≠ some '#' ∧ trim line ≠ [] then processUrlLine crates opts baseUrl st line
  else if contains line "URI=".toList then ([processTagWithUri crates opts line baseUrl], st)
  else if discontinuityTag.isPrefixOf line then
    ([verbatim line], { st with needDiscontinuity := false })
  else ([verbatim line], st)

def processLinesFrom (baseUrl : Str) : LineState → List Str → List Written
  | _, [] => []
  | st, line :: rest =>
    (processLine crates opts baseUrl st line).1 ++
      processLinesFrom baseUrl (processLine crates opts baseUrl st line).2 rest

def firstState : LineState where
  skipFilter := if opts.skipRanges = [] then none else some { ranges := opts.skipRanges }

/-- The lines that `process_lines` writes, each with a line feed. -/
def processLines (content baseUrl : Str) : List Written :=
  processLinesFrom crates opts baseUrl (firstState opts) (lines content)

/-! ### The whole -/

/-- What is written. The structures are written by m3u8-rs. -/
inductive Processed
  | lines (ls : List Written)
  | master (pl : MasterPlaylist Written)
  | media (pl : MediaPlaylist Written) (startOffset : Option ℚ)
deriving DecidableEq

def process (content : Bytes) (sourceUrl : Str) : Processed :=
  if isIptvPlaylist content then .lines (processLines crates opts (contentText content) sourceUrl)
  else
    match crates.parsePlaylist content with
    | some (.master pl) => .master (processMaster crates opts pl sourceUrl)
    | some (.media pl) =>
      let (pl, startOffset) := processMedia crates opts pl sourceUrl
      .media pl startOffset
    | none => .lines (processLines crates opts (contentText content) sourceUrl)

/-- The loop of `media_segment_urls_from_lines`, over the lines from here on. -/
def segmentUrlsFromLines (sourceUrl : Str) : Bool → List Str → List Str
  | _, [] => []
  | pendingExtinf, line :: rest =>
    let line := trim line
    if extinfTag.isPrefixOf line then segmentUrlsFromLines sourceUrl true rest
    else if line = [] ∨ line.head? = some '#' then segmentUrlsFromLines sourceUrl pendingExtinf rest
    else if pendingExtinf then
      let resolved := Utils.resolveUrl crates.toJoinCrate sourceUrl line
      (if isPlaylistUrl resolved then [] else [resolved]) ++ segmentUrlsFromLines sourceUrl false rest
    else segmentUrlsFromLines sourceUrl false rest

def mediaSegmentUrlsFromLines (content sourceUrl : Str) : List Str :=
  segmentUrlsFromLines crates sourceUrl false (lines content)

/-- Extract absolute media segment URLs from an upstream media playlist. -/
def mediaSegmentUrls (content : Bytes) (sourceUrl : Str) : List Str :=
  match crates.parsePlaylist content with
  | some (.media pl) =>
    (pl.segments.map fun seg => Utils.resolveUrl crates.toJoinCrate sourceUrl seg.uri).filter
      fun url => !isPlaylistUrl url
  | some (.master _) => []
  | none => mediaSegmentUrlsFromLines crates (contentText content) sourceUrl

end ManifestProcessor

end MediaFlow
