import MediaFlow.Server.Request

/-!
# The route table

The services that `main.rs` registers, in order of registration. The features of the build decide
which blocks there are.
-/

open Text Routing

namespace MediaFlow

/-- The features that register routes. -/
structure Features where
  hls : Bool := true
  mpd : Bool := true
  telegram : Bool := true
  transcode : Bool := false
  acestream : Bool := true
  extractors : Bool := true
  xtream : Bool := true
  webUi : Bool := true

inductive Handler where
  | generateUrl
  | generateUrls
  | base64Encode
  | base64Decode
  | base64Check
  | health
  | metricsHandler
  | hlsManifestHandler
  | hlsPlaylistHandler
  | hlsSegmentHandler
  | mpdManifestHandler
  | mpdPlaylistHandler
  | mpdSegmentHandler
  | mpdInitHandler
  | telegramStreamHandler
  | telegramInfoHandler
  | telegramStatusHandler
  | sessionStartHandler
  | sessionVerifyHandler
  | session2faHandler
  | sessionCancelHandler
  | transcodeHandler
  | transcodeHlsInitHandler
  | transcodeHlsPlaylistHandler
  | transcodeHlsSegmentHandler
  | acestreamManifestHandler
  | acestreamStreamHandler
  | acestreamSegmentHandler
  | acestreamStatusHandler
  | extractorVideoHandler
  | proxyStreamGet
  | proxyStreamHead
  | getPublicIp
  | proxyForward
  | epgProxyHandler
  | playerApiHandler
  | xmltvHandler
  | getPlaylistHandler
  | panelApiHandler
  | liveStreamHandler
  | movieStreamHandler
  | seriesStreamHandler
  | timeshiftHandler
  | shortStreamHandler
  | playlistBuilderHandler
  | speedtestRedirectHandler
  | speedtestConfigHandler
  | indexHandler
  /-- The embedded static files, and 404 for other paths. -/
  | defaultService
deriving DecidableEq, Repr

namespace Handler

/-- The handlers with an argument `ReqData<ProxyData>`: without `ProxyData` among the extensions of
the request they are not called. -/
def takesProxyData : Handler → Bool
  | hlsManifestHandler | hlsPlaylistHandler | hlsSegmentHandler | mpdManifestHandler
  | mpdPlaylistHandler | mpdSegmentHandler | mpdInitHandler | extractorVideoHandler
  | proxyStreamGet | proxyStreamHead | proxyForward => true
  | _ => false

/-- The handlers that are for everyone: URL generation, health, the UI pages, the index page and
the embedded static files. -/
def isOpen : Handler → Bool
  | generateUrl | generateUrls | health | speedtestRedirectHandler | playlistBuilderHandler
  | indexHandler | defaultService => true
  | _ => false

/-- The handlers of the Xtream Codes block. -/
def isXtream : Handler → Bool
  | playerApiHandler | xmltvHandler | getPlaylistHandler | panelApiHandler | liveStreamHandler
  | movieStreamHandler | seriesStreamHandler | timeshiftHandler | shortStreamHandler => true
  | _ => false

theorem isOpen_of_isXtream {h : Handler} : h.isXtream = true → h.isOpen = false := by
  cases h <;> decide

end Handler

/-! ### Guards -/

/-- The first segment of the path is not an internal scope. -/
def notInternalPrefix (req : Request) : Bool :=
  let firstSeg := (req.path.dropWhile (· = '/')).takeWhile (· ≠ '/')
  ¬ ["proxy".toList, "extractor".toList, "playlist".toList, "speedtest".toList, "health".toList,
    "metrics".toList].contains firstSeg

/-- The guard of a route: its method, if it has one, and whether it is for external paths only. -/
structure Guard where
  method : Option Method
  external : Bool := false

def Guard.admits (req : Request) (g : Guard) : Bool :=
  g.method.all (· = req.method) && (!g.external || notInternalPrefix req)

def get (pattern : String) (handler : Handler) : Route Guard Handler :=
  ⟨pattern.toList, ⟨some .get, false⟩, handler⟩

def head (pattern : String) (handler : Handler) : Route Guard Handler :=
  ⟨pattern.toList, ⟨some .head, false⟩, handler⟩

def post (pattern : String) (handler : Handler) : Route Guard Handler :=
  ⟨pattern.toList, ⟨some .post, false⟩, handler⟩

/-- A GET and a HEAD route for one path. -/
def getHead (pattern : String) (handler : Handler) : List (Route Guard Handler) :=
  [get pattern handler, head pattern handler]

/-- The routes that are not for internal paths. -/
def getHeadGuarded (pattern : String) (handler : Handler) : List (Route Guard Handler) :=
  [⟨pattern.toList, ⟨some .get, true⟩, handler⟩, ⟨pattern.toList, ⟨some .head, true⟩, handler⟩]

/-! ### The blocks -/

open Handler

/-- Services of a feature. -/
def whenEnabled (enabled : Bool) (services : List (Service Guard Handler)) :
    List (Service Guard Handler) :=
  if enabled then services else []

def rootRoutes : List (Service Guard Handler) :=
  [.route (post "/generate_url" generateUrl),
    .route (post "/generate_urls" generateUrls),
    .route (post "/generate_encrypted_or_encoded_url" generateUrl),
    .route (post "/base64/encode" base64Encode),
    .route (post "/base64/decode" base64Decode),
    .route (get "/base64/check" base64Check),
    .scope "/health".toList [get "" health],
    .route (get "/metrics" metricsHandler)]

def hlsScope : Service Guard Handler :=
  .scope "/proxy/hls".toList
    (getHead "/manifest" hlsManifestHandler
      ++ getHead "/manifest.m3u8" hlsManifestHandler
      ++ getHead "/playlist" hlsPlaylistHandler
      ++ getHead "/playlist.m3u8" hlsPlaylistHandler
      ++ getHead "/key_proxy/manifest.m3u8" hlsManifestHandler
      ++ getHead "/segment" hlsSegmentHandler
      ++ getHead "/segment.{ext}" hlsSegmentHandler)

def mpdScope : Service Guard Handler :=
  .scope "/proxy/mpd".toList
    (getHead "/manifest" mpdManifestHandler
      ++ getHead "/manifest.m3u8" mpdManifestHandler
      ++ getHead "/manifest.mpd" mpdManifestHandler
      ++ getHead "/playlist" mpdPlaylistHandler
      ++ getHead "/playlist.m3u8" mpdPlaylistHandler
      ++ getHead "/segment" mpdSegmentHandler
      ++ getHead "/segment.mp4" mpdSegmentHandler
      ++ getHead "/segment.ts" mpdSegmentHandler
      ++ getHead "/segment.{ext}" mpdSegmentHandler
      ++ getHead "/init" mpdInitHandler
      ++ getHead "/init.mp4" mpdInitHandler)

def telegramScope : Service Guard Handler :=
  .scope "/proxy/telegram".toList
    (getHead "/stream" telegramStreamHandler
      ++ getHead "/stream/{filename:.*}" telegramStreamHandler
      ++ [get "/info" telegramInfoHandler, get "/status" telegramStatusHandler,
        post "/session/start" sessionStartHandler, post "/session/verify" sessionVerifyHandler,
        post "/session/2fa" session2faHandler, post "/session/cancel" sessionCancelHandler])

def transcodeScope : Service Guard Handler :=
  .scope "/proxy/transcode".toList
    [get "" transcodeHandler,
      get "/" transcodeHandler,
      get "/init.mp4" transcodeHlsInitHandler,
      get "/hls/playlist" transcodeHlsPlaylistHandler,
      get "/hls/segment" transcodeHlsSegmentHandler,
      get "/hls/init" transcodeHlsInitHandler]

def acestreamScope : Service Guard Handler :=
  .scope "/proxy/acestream".toList
    (getHead "/manifest.m3u8" acestreamManifestHandler
      ++ getHead "/stream" acestreamStreamHandler
      ++ [get "/segment.ts" acestreamSegmentHandler,
        get "/segment.{ext}" acestreamSegmentHandler,
        get "/status" acestreamStatusHandler])

def extractorScope : Service Guard Handler :=
  .scope "/extractor".toList
    (getHead "/video" extractorVideoHandler ++ getHead "/video.{ext}" extractorVideoHandler)

def proxyScope : Service Guard Handler :=
  .scope "/proxy".toList
    [get "/stream" proxyStreamGet,
      head "/stream" proxyStreamHead,
      get "/stream/{filename:.*}" proxyStreamGet,
      head "/stream/{filename:.*}" proxyStreamHead,
      post "/generate_url" generateUrl,
      get "/ip" getPublicIp,
      ⟨"/forward".toList, ⟨none, false⟩, proxyForward⟩,
      get "/epg" epgProxyHandler,
      head "/epg" epgProxyHandler]

def xtreamRoutes : List (Route Guard Handler) :=
  [get "/player_api.php" playerApiHandler,
    get "/xmltv.php" xmltvHandler,
    get "/get.php" getPlaylistHandler,
    get "/panel_api.php" panelApiHandler]
    ++ getHead "/live/{username}/{password}/{stream_id}.{ext}" liveStreamHandler
    ++ getHead "/live/{username}/{password}/{stream_id}" liveStreamHandler
    ++ getHead "/movie/{username}/{password}/{stream_id}.{ext}" movieStreamHandler
    ++ getHead "/movie/{username}/{password}/{stream_id}" movieStreamHandler
    ++ getHead "/series/{username}/{password}/{stream_id}/{season}/{episode}.{ext}"
      seriesStreamHandler
    ++ getHead "/series/{username}/{password}/{stream_id}" seriesStreamHandler
    ++ getHead "/timeshift/{username}/{password}/{duration}/{start}/{stream_id}.ts" timeshiftHandler
    ++ getHead "/timeshift/{username}/{password}/{duration}/{start}/{stream_id}.{ext}"
      timeshiftHandler
    ++ getHead "/streaming/timeshift.php" timeshiftHandler
    ++ getHead "/hls/{token}/{stream_id}.m3u8" liveStreamHandler
    ++ getHead "/hlsr/{token}/{username}/{password}/{channel_id}/{start}/{end}/index.m3u8"
      liveStreamHandler
    -- short streams must be last
    ++ getHeadGuarded "/{username}/{password}/{stream_id}.{ext}" shortStreamHandler
    ++ getHeadGuarded "/{username}/{password}/{stream_id}" shortStreamHandler

def uiRoutes : List (Service Guard Handler) :=
  [.scope "/playlist".toList [get "/builder" playlistBuilderHandler],
    .scope "/speedtest".toList
      [get "" speedtestRedirectHandler, post "/config" speedtestConfigHandler]]

/-- The services of the application. -/
def routeTable (features : Features) : List (Service Guard Handler) :=
  rootRoutes
    ++ whenEnabled features.hls [hlsScope]
    ++ whenEnabled features.mpd [mpdScope]
    ++ whenEnabled features.telegram [telegramScope]
    ++ whenEnabled features.transcode [transcodeScope]
    ++ whenEnabled features.acestream [acestreamScope]
    ++ whenEnabled features.extractors [extractorScope]
    ++ [proxyScope]
    ++ whenEnabled features.xtream (xtreamRoutes.map .route)
    ++ uiRoutes
    ++ whenEnabled features.webUi [.route (get "/" indexHandler)]

/-- The handler that a request is routed to, with the values of the placeholders. -/
def routed (web : WebCrates) (features : Features) (req : Request) : Handler × List Str :=
  dispatch web.matcher (Guard.admits req) defaultService (routeTable features)
    (web.requote req.path)

/-- The handler is called: its argument `ReqData<ProxyData>`, if it has one, can be taken. -/
def Reaches (web : WebCrates) (features : Features) (req : Request) (h : Handler) : Prop :=
  (routed web features req).1 = h ∧ (h.takesProxyData = true → req.proxyData ≠ none)

end MediaFlow
