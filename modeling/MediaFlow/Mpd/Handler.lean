import MediaFlow.Drm.InitDelivery
import MediaFlow.Epg.Handler
import MediaFlow.Mpd.Master
import MediaFlow.Mpd.SegmentUrl
import MediaFlow.Mpd.Sidx
import MediaFlow.Server.Routes

/-!
# Handlers of DASH requests

`mpd/handler.rs`: media playlists, segments and init segments, each made of what is fetched from
upstream. The segment of a `SegmentBase` representation is the whole file; before the playlist is
written it is replaced by the subsegments that the `sidx` box of the file lists.

The headers of a request upstream are those of the `h_` parameters, with the range on top.
-/

open ByteString Text Json

namespace MediaFlow

/-- The errors of the handlers: two kinds besides those of `AppError` that are modelled. -/
inductive MpdError
  | app (e : AppError)
  | proxy (msg : Str)
  | mpd (msg : Str)
deriving DecidableEq

/-- What other crates do with headers. -/
structure HeaderCrates where
  /-- `HeaderName::from_str`, the name in lower case. -/
  headerName : Str → Option Str
  /-- `HeaderValue::from_str`. -/
  headerValue : Str → Option Bytes

/-- The upstream side of `StreamManager`. -/
structure MpdUpstream where
  /-- `fetch_bytes`. -/
  fetchBytes : Str → List (Str × Bytes) → Except MpdError Bytes
  /-- The body of `create_stream`, by chunks, if there is one. -/
  createStream : Str → List (Str × Bytes) → Except MpdError (Option (List (Except AppError Bytes)))

/-- The body of a response: whole, or as a stream, which may end in an abort. -/
inductive DashBody
  | whole (bytes : Bytes)
  | streaming (items : List (Except MpdError Bytes)) (aborted : Bool)
deriving DecidableEq

structure DashResponse where
  contentType : Str
  headers : List (Str × Str)
  body : DashBody
deriving DecidableEq

/-- `mime_type_to_content_type`. -/
def mimeTypeToContentType (mimeType : Str) (remuxToTs : Option Str) : Str :=
  if queryFlag remuxToTs || contains mimeType "mp2t".toList || contains mimeType "mpeg-ts".toList then
    "video/mp2t".toList
  else "video/mp4".toList

/-- A profile, with the index range of its segment, if that has one. -/
structure IndexedProfile extends MpdProfile where
  indexRange : Option Str

section Handlers

variable (crates : HeaderCrates) (up : MpdUpstream)

/-- `build_request_headers`. A name or a value that is not valid is left out. -/
def buildRequestHeaders (proxyData : ProxyData) : List (Str × Bytes) :=
  (stringMembers proxyData.requestHeaders).foldl (fun headers kv =>
    match crates.headerName kv.1, crates.headerValue kv.2 with
    | some name, some value => insertHeader headers name value
    | _, _ => headers) []

def rangeName : Str := "range".toList

/-- The headers, with an MPD byte range as an HTTP one. -/
def withRange (range : Str) (headers : List (Str × Bytes)) : List (Str × Bytes) :=
  match crates.headerValue ("bytes=".toList ++ range) with
  | some value => insertHeader headers rangeName value
  | none => headers

/-- `fetch_with_range`. -/
def fetchWithRange (url : Str) (range : Option Str) (headers : List (Str × Bytes)) :
    Except MpdError Bytes :=
  up.fetchBytes url (range.elim headers fun r => withRange crates r headers)

/-! ### Playlists -/

/-- The segment of a fragment, with its place among the others. -/
def fragmentSegment (whole : MpdSegment) (frag : SidxFragment) (i : ℕ) : MpdSegment where
  media := whole.media
  number := i + 1
  -- a timescale of 0 gives an infinite duration in the code
  extinf := frag.durationTimescale / frag.timescale
  time := none
  durationMpdTimescale := none
  startUnix := none
  programDateTime := none
  mediaRange := some (decimal frag.start ++ '-' :: decimal frag.last)
  initRange := whole.initRange

/-- `expand_segment_base_segments`: the segment is left as it is if anything fails. -/
def expandSegmentBaseSegments (profile : IndexedProfile) (headers : List (Str × Bytes)) :
    IndexedProfile :=
  match profile.segments, nonemptyValue profile.indexRange with
  | [segment], some indexRange =>
    let indexRangeStart := ((indexRange.splitOn '-').head?.bind parseU64).getD 0
    match fetchWithRange crates up segment.media (some indexRange) headers with
    | .ok sidxBytes =>
      match parseSidxFragments sidxBytes indexRangeStart with
      | [] => profile
      | fragments => { profile with
          segments := fragments.zipIdx.map fun f => fragmentSegment segment f.1 f.2
          indexRange := none }
    | .error _ => profile
  | _, _ => profile

/-- `mpd_playlist_handler`, from the profiles of the parsed document on. The source joins the lines
with newlines. -/
def mpdPlaylistLines (encode : Str → Str) (isLive : Bool) (profiles : List IndexedProfile)
    (profileId proxyBase : Str) (params : MpdProxyParams) (startOffset : Option ℚ)
    (configuredDepth : ℕ) (headers : List (Str × Bytes)) : Except MpdError (List Str) :=
  let matching := (profiles.filter fun p => p.id = profileId).map fun p =>
    expandSegmentBaseSegments crates up p headers
  if matching = [] then
    .error (.mpd ("Profile ".toList ++ profileId ++ " not found in MPD".toList))
  else
    .ok (buildHlsMediaPlaylist encode isLive proxyBase params (matching.map (·.toMpdProfile)) []
      startOffset configuredDepth)

/-! ### Segments -/

variable (aes : BlockCipher)

/-- The stream of a decrypter as a body. -/
def DashBody.ofYielded (y : Yielded) : DashBody :=
  .streaming (y.items.map fun item => item.mapError .app) y.aborted

/-- The stream of a segment of a large file, which is decrypted on its way. -/
def decryptedStream (q : SegmentQuery) (kid key range : Str) (initBytes : Bytes)
    (headers : List (Str × Bytes)) : DashBody :=
  match up.createStream q.segmentUrl (withRange crates range headers) with
  | .ok (some chunks) =>
    .ofYielded (decryptSegmentStreaming aes initBytes chunks kid key (!q.useMap))
  | .ok none => .streaming [.error (.proxy "CDN returned empty body".toList)] false
  | .error e => .streaming [.error e] false

/-- What is sent for a segment. The outer `Option` is `none` on an abort. -/
def segmentBody (q : SegmentQuery) (headers : List (Str × Bytes)) :
    Option (Except MpdError DashBody) :=
  -- a failed fetch of the init segment is not told
  let initBytes := (fetchWithRange crates up q.initUrl q.initRange headers).toOption.getD []
  let fetched := fetchWithRange crates up q.segmentUrl q.segmentRange headers
  match q.keyId, q.key, q.segmentRange with
  | some kid, some key, some range =>
    some (.ok (decryptedStream crates up aes q kid key range initBytes headers))
  | some kid, some key, none =>
    match fetched with
    | .error e => some (.error e)
    | .ok segmentBytes =>
      (decryptSegment aes initBytes segmentBytes kid key (!q.useMap)).map fun result =>
        match result with
        | .ok decrypted => .ok (.whole decrypted)
        | .error msg => .error (.app (.drm msg))
  | _, _, _ =>
    some <| fetched.map fun segmentBytes =>
      .whole (if q.useMap ∨ initBytes = [] then segmentBytes else initBytes ++ segmentBytes)

/-- A stream closes its connection at the end. -/
def segmentResponse (contentType : Str) (body : DashBody) : DashResponse where
  contentType := contentType
  headers := match body with
    | .whole _ => []
    | .streaming _ _ => [("connection".toList, "close".toList)]
  body := body

def initResponse (contentType : Str) (initBytes : Bytes) : DashResponse where
  contentType := contentType
  headers := [("cache-control".toList, "no-cache".toList)]
  body := .whole initBytes

/-- `mpd_segment_handler`. -/
def mpdSegmentHandler (web : WebCrates) (proxyData : ProxyData) (queryString : Str) :
    Option (Except MpdError DashResponse) :=
  match readSegmentQuery web queryString with
  | .error e => some (.error (.app e))
  | .ok q =>
    (segmentBody crates up aes q (buildRequestHeaders crates proxyData)).map fun result =>
      result.map (segmentResponse
        (mimeTypeToContentType q.mimeType (formValue web queryString "remux_to_ts".toList)))

/-- The init segment for a player: without its encryption boxes if there are keys. -/
def processedInit (keyId key : Option Str) (rawInit : Bytes) : Option (Except Str Bytes) :=
  match keyId, key with
  | some kid, some key => processDrmInitSegment rawInit kid key
  | _, _ => some (.ok rawInit)

/-- `mpd_init_handler`. -/
def mpdInitHandler (web : WebCrates) (proxyData : ProxyData) (queryString : Str) :
    Option (Except MpdError DashResponse) :=
  match readInitQuery web queryString with
  | .error e => some (.error (.app e))
  | .ok q =>
    match fetchWithRange crates up q.initUrl q.initRange (buildRequestHeaders crates proxyData) with
    | .error e => some (.error e)
    | .ok rawInit => (processedInit q.keyId q.key rawInit).map fun result =>
      (result.mapError fun msg => .app (.drm msg)).map (initResponse
        (mimeTypeToContentType q.mimeType (formValue web queryString "remux_to_ts".toList)))

/-- What a player has of a URL of the proxy: its request passes the middleware, and is routed to one
of the two handlers. -/
def playerGets (web : WebCrates) (tokens : TokenCrates) (features : Features) (apiPassword : Str)
    (now : ℕ) (proxyBase url : Str) : Option DashResponse := do
  let uri ← requestUri proxyBase url
  let req ← ((AuthMiddleware.new apiPassword).call web tokens now ⟨.get, uri, none, none⟩).toOption
  let proxyData ← req.proxyData
  let answer ← match (routed web features req).1 with
    | .mpdSegmentHandler => mpdSegmentHandler crates up aes web proxyData req.queryString
    | .mpdInitHandler => mpdInitHandler crates up web proxyData req.queryString
    | _ => none
  answer.toOption

end Handlers

end MediaFlow
