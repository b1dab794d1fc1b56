import MediaFlow.Hls.CacheKey
import MediaFlow.Hls.Completeness
import MediaFlow.Mpd.Handler
import MediaFlow.Proxy.ForwardResponse

/-!
# Handlers of HLS requests

`hls/handler.rs` and `hls/segment.rs`. A playlist is fetched, rewritten and, where its segments go
through the proxy, registered for pre-fetching. A segment comes from the cache of the pre-fetcher, or
from upstream with the status of its response.

Each handler is split in what it asks for and what it makes of the answer.
-/

open ByteString Text Json

namespace MediaFlow

open ManifestProcessor

/-! ### Playlists -/

/-- `extract_proxy_params`, with the password of the configuration. -/
def extractProxyParams (apiPassword : Str) (proxyData : ProxyData) : ProxyParams where
  apiPassword := apiPassword
  passHeaders := stringMembers proxyData.requestHeaders
  playlistUrl := none

def ProxyParams.withPlaylistUrl (params : ProxyParams) (playlistUrl : Str) : ProxyParams :=
  { params with playlistUrl := some playlistUrl }

/-- The options that a query string asks for. -/
def manifestOptions (web : WebCrates) (queryString : Str) : ManifestOptions where
  keyOnlyProxy := queryFlag (formValue web queryString "key_only_proxy".toList)
  noProxy := queryFlag (formValue web queryString "no_proxy".toList)
  forcePlaylistProxy := queryFlag (formValue web queryString "force_playlist_proxy".toList)
  startOffset := (formValue web queryString "start_offset".toList).bind parseF64
  forceStartOffset := (formValue web queryString "start_offset".toList).isSome

def gracefulEndPlaylist (message : Str) : Str :=
  "#EXTM3U\n#EXT-X-VERSION:3\n#EXT-X-TARGETDURATION:1\n#EXT-X-PLAYLIST-TYPE:VOD\n# ".toList ++ message ++
    "\n#EXT-X-ENDLIST\n".toList

def errorPlaylist (errorMessage : Str) : Str :=
  gracefulEndPlaylist ("Error: ".toList ++ errorMessage)

/-- What `fetch_bytes_with_final_url` gives: the body, and the URL to which redirects led. -/
structure FetchedPlaylist (crate : JoinCrate) where
  content : Bytes
  finalUrl : Str
  /-- It is the text of a `reqwest::Url`. -/
  parses : crate.parses finalUrl = true

/-- A playlist that is sent: rewritten, with the parameters of its URLs, or one that says why there is
none. -/
inductive PlaylistBody
  | rewritten (pl : Processed) (params : ProxyParams)
  | notice (text : Str)

/-- A call of `register_playlist`. -/
structure PlaylistRegistration where
  playlistUrl : Str
  segmentUrls : List Str
  headers : List (Str × Str)

/-- The response, all with the content type of playlists, and what is registered meanwhile. -/
structure PlaylistResponse where
  headers : List (Str × Str)
  body : PlaylistBody
  registered : Option PlaylistRegistration

section Playlists

variable (web : WebCrates) (crates : HlsCrates) (mint : MintCrates) (proxyBase : Str)

/-- The lines as they are sent, the one at `i` with the initialisation vector `draw i`. -/
def renderLines (params : ProxyParams) (draw : ℕ → Bytes) (now : ℕ) (ls : List Written) : Str :=
  unlines (ls.zipIdx.map fun w => w.1.flatMap (Piece.render web mint proxyBase params (draw w.2) now))

/-- `processed.contains("#EXTM3U")`. What m3u8-rs writes begins with it. -/
def isRealM3u8 (params : ProxyParams) (draw : ℕ → Bytes) (now : ℕ) : Processed → Bool
  | .lines ls => contains (renderLines web mint proxyBase params draw now ls) "#EXTM3U".toList
  | .master _ | .media .. => true

/-- The segments that are pre-fetched: the first `prebufferSegments` ones, unless the player does not
fetch them from the proxy, or not as segments. -/
def playlistRegistration (opts : ManifestOptions) (params : ProxyParams) (isGet : Bool)
    (prebufferSegments : ℕ) (fetched : FetchedPlaylist crates.toJoinCrate) : Option PlaylistRegistration :=
  if isGet ∧ opts.noProxy = false ∧ opts.keyOnlyProxy = false ∧ opts.forcePlaylistProxy = false then
    let segmentUrls := (mediaSegmentUrls crates fetched.content
      fetched.finalUrl).take prebufferSegments
    if segmentUrls = [] then none else some ⟨fetched.finalUrl, segmentUrls, params.passHeaders⟩
  else none

/-- `hls_manifest_handler`, from the answer to its fetch on. -/
def manifestResponse (opts : ManifestOptions) (baseParams : ProxyParams) (isGet : Bool)
    (prebufferSegments : ℕ) (draw : ℕ → Bytes) (now : ℕ) :
    Option (FetchedPlaylist crates.toJoinCrate) → PlaylistResponse
  | none =>
    { headers := []
      body := .notice (gracefulEndPlaylist "Stream unavailable".toList)
      registered := none }
  | some fetched =>
    let params := baseParams.withPlaylistUrl fetched.finalUrl
    let registered := playlistRegistration crates opts params isGet prebufferSegments fetched
    let processed := process crates opts fetched.content fetched.finalUrl
    if isRealM3u8 web mint proxyBase params draw now processed then
      { headers := [("cache-control".toList, "no-cache, no-store".toList)]
        body := .rewritten processed params
        registered }
    else
      { headers := []
        body := .notice (errorPlaylist "Invalid upstream response".toList)
        registered }

end Playlists

/-! ### Segments -/

/-- What the crates for HTTP do for segments. -/
structure SegmentCrates extends HttpCrates where
  /-- `HeaderValue::to_str`. -/
  toStr : Bytes → Option Str

/-- The errors of a response from upstream. -/
inductive SegmentError
  | app (e : AppError)
  | proxy (msg : Str)
  | upstream (msg : Str)
deriving DecidableEq

/-- What `create_stream` gives; there is no body for HEAD. -/
structure StreamedResponse where
  status : ℕ
  isStatus : 100 ≤ status ∧ status < 1000
  headers : List (Str × Bytes)
  body : Option (List (Except SegmentError Bytes))

/-- The body of a segment's response, with its size where that is stated. -/
structure SegmentBody where
  size : Option ℕ
  items : List (Except SegmentError Bytes)
deriving DecidableEq

structure SegmentResponse where
  status : ℕ
  headers : Str → List Bytes
  body : SegmentBody

/-- `hls_segment_content_type`. -/
def hlsSegmentContentType (url : Str) : Str :=
  let extension := Utils.segmentExtension url
  if extension = "ts".toList then "video/mp2t".toList
  else if extension = "m4s".toList ∨ extension = "mp4".toList then "video/mp4".toList
  else "application/octet-stream".toList

/-- The headers of a segment's response that come from upstream. -/
def segmentHeaderNames : List Str :=
  ["content-type".toList, "content-length".toList, "content-range".toList, "accept-ranges".toList,
    "cache-control".toList]

section Segments

variable (crates : HeaderCrates) (http : SegmentCrates)

/-- The headers with those of a request passed on top. A name or a value that is not valid is left
out. -/
def mergePassHeaders (headers : List (Str × Bytes)) (passHeaders : List (Str × Str)) :
    List (Str × Bytes) :=
  passHeaders.foldl (fun headers kv =>
    match crates.headerName kv.1, crates.headerValue kv.2 with
    | some name, some value => insertHeader headers name value
    | _, _ => headers) headers

/-- The headers of the request for a playlist: those that are passed. -/
theorem buildRequestHeaders_eq (proxyData : ProxyData) :
    buildRequestHeaders crates proxyData =
      mergePassHeaders crates [] (stringMembers proxyData.requestHeaders) :=
  rfl

/-- The headers of the request for a segment: the player's range, so that it can seek within the
segment, and those that are passed. -/
def segmentRequestHeaders (range : Option Bytes) (passHeaders : List (Str × Str)) :
    List (Str × Bytes) :=
  mergePassHeaders crates (range.elim [] fun value => [(rangeName, value)]) passHeaders

/-- A header of the response that comes from upstream. A value that is no text is sent empty. -/
def mirrorHeader (upstream : List (Str × Bytes)) (fields : Str → List Bytes) (name : Str) :
    Str → List Bytes :=
  match upstream.lookup name with
  | none => fields
  | some value =>
    match http.valueFromStr ((http.toStr value).getD []) with
    | some converted => insertField fields (name, converted)
    | none => fields

/-- `apply_custom_headers`. -/
def applyCustomHeaders (fields : Str → List Bytes) (custom : Option Value) : Str → List Bytes :=
  (stringMembers custom).foldl (fun fields kv =>
    match http.headerName kv.1, http.valueFromStr kv.2 with
    | some name, some value => insertField fields (name, value)
    | _, _ => fields) fields

/-- The `Content-Length` of upstream, 0 without a proper one. -/
def upstreamLength (upstream : List (Str × Bytes)) : ℕ :=
  ((upstream.lookup "content-length".toList).bind fun value =>
    (http.toStr value).bind parseU64).getD 0

/-- The response with a segment that is in the cache. -/
def cachedSegmentResponse (destination : Str) (bytes : Bytes) (responseHeaders : Option Value) :
    SegmentResponse where
  status := 200
  headers :=
    let fields := [("content-type".toList, UrlCoding.utf8 (hlsSegmentContentType destination)),
      ("cache-control".toList, UrlCoding.utf8 "no-cache".toList),
      ("content-length".toList, UrlCoding.utf8 (decimal bytes.length))].foldl insertField fun _ => []
    applyCustomHeaders http fields responseHeaders
  body := ⟨some bytes.length, [.ok bytes]⟩

/-- The response with what upstream sends, with its status. -/
def streamedSegmentResponse (upstream : StreamedResponse) (responseHeaders : Option Value) :
    SegmentResponse where
  status := if 100 ≤ upstream.status ∧ upstream.status < 1000 then upstream.status else 200
  headers := applyCustomHeaders http
    (segmentHeaderNames.foldl (mirrorHeader http upstream.headers) fun _ => []) responseHeaders
  body :=
    let contentLength := upstreamLength http upstream.headers
    match upstream.body with
    | some items => ⟨if contentLength > 0 then some contentLength else none, items⟩
    | none => ⟨some contentLength, []⟩

/-- `get_cached_segment` of the handler: with a range nothing is looked up. -/
def cachedSegmentFor (lookUp : Str → Option Bytes) (hasRange : Bool) (proxyData : ProxyData) :
    Option Bytes :=
  if hasRange then none
  else lookUp (segmentCacheKey proxyData.destination (stringMembers proxyData.requestHeaders))

/-- `hls_segment_handler`, with the cache as it is then. -/
def hlsSegmentHandler (lookUp : Str → Option Bytes)
    (createStream : Str → List (Str × Bytes) → Except SegmentError StreamedResponse)
    (range : Option Bytes) (proxyData : ProxyData) : Except SegmentError SegmentResponse :=
  match cachedSegmentFor lookUp range.isSome proxyData with
  | some bytes =>
    .ok (cachedSegmentResponse http proxyData.destination bytes proxyData.responseHeaders)
  | none =>
    (createStream proxyData.destination
      (segmentRequestHeaders crates range (stringMembers proxyData.requestHeaders))).map fun upstream =>
        streamedSegmentResponse http upstream proxyData.responseHeaders

end Segments

/-- `hls_manifest_handler`; `hls_playlist_handler` calls it. -/
def hlsManifestHandler (web : WebCrates) (crates : HlsCrates) (mint : MintCrates)
    (headerCrates : HeaderCrates) (proxyBase apiPassword : Str) (prebufferSegments : ℕ)
    (fetch : Str → List (Str × Bytes) → Option (FetchedPlaylist crates.toJoinCrate)) (draw : ℕ → Bytes) (now : ℕ)
    (isGet : Bool) (proxyData : ProxyData) (queryString : Str) : PlaylistResponse :=
  let baseParams := extractProxyParams apiPassword proxyData
  manifestResponse web crates mint proxyBase (manifestOptions web queryString) baseParams isGet
    prebufferSegments draw now
    (fetch proxyData.destination (mergePassHeaders headerCrates [] baseParams.passHeaders))

end MediaFlow
