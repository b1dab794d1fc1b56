import MediaFlow.Hls.Links
import MediaFlow.Lib.Browsing

/-!
# A player's session

A player that has the URL of the proxy for a playlist follows the URLs in the playlists that it gets:
to further playlists, to keys and init segments, to segments. `followsDirectly`: what the proxy does
for it is what a player does by itself that has the playlist's own URL, sends the headers that were
passed at first, and resolves each URI against the URL of the playlist with it. So nothing else is
asked for upstream, however deep the playlists go, and what upstream sends is what the player gets.
-/

open ByteString Text UrlCoding Routing

namespace MediaFlow

open ManifestProcessor

/-! ### The player by itself -/

/-- The values of each `URI="..."` in a text. -/
def attributeUris (s : Str) : List Str := (routesOf (rewriteAllUris (.proxied .key) s)).map Prod.snd

def Place.uris (p : Place Str) : List Str :=
  if p.kind.hasAttributes then attributeUris p.text else [p.text]

/-- A line is a URI, or has some in its attributes. -/
def lineUris (line : Str) : List Str := if isUrlLine line then [line] else attributeUris line

/-- The URIs of a playlist, as m3u8-rs reads it or else line by line. -/
def playlistUris (crates : HlsCrates) (content : Bytes) : List Str :=
  if isIptvPlaylist content then (lines (contentText content)).flatMap lineUris
  else
    match crates.parsePlaylist content with
    | some (.master pl) => pl.places.flatMap Place.uris
    | some (.media pl) => pl.places.flatMap Place.uris
    | none => (lines (contentText content)).flatMap lineUris

/-- Where a resource is looked for. -/
inductive Asked
  | cache (key : Str)
  | upstream (url : Str) (headers : List (Str × Bytes))

/-- What is done for a player, and what comes of it. -/
inductive PlayerAccess (crate : JoinCrate)
  | playlist (url : Str) (headers : List (Str × Bytes)) (answer : Option (FetchedPlaylist crate))
  /-- With the status and the body that the player gets. -/
  | media (asked : Asked) (received : Except SegmentError (ℕ × List (Except SegmentError Bytes)))

/-- How a player follows a URL: as one of a playlist or of a segment, with what upstream answers, or
else with what a cache has. -/
inductive DirectVisit (crate : JoinCrate)
  | playlist (fetch : Str → List (Str × Bytes) → Option (FetchedPlaylist crate))
  | media (range : Option Bytes)
      (createStream : Str → List (Str × Bytes) → Except SegmentError StreamedResponse)
  | cached (bytes : Bytes)

def StreamedResponse.received (r : StreamedResponse) : ℕ × List (Except SegmentError Bytes) :=
  (r.status, r.body.getD [])

/-- The player itself, with the headers that it sends. -/
def directVisit (srv : HlsServer) (headers : List (Str × Str)) (url : Str) :
    DirectVisit srv.hls.toJoinCrate → Visited Str (PlayerAccess srv.hls.toJoinCrate)
  | .playlist fetch =>
    let sent := mergePassHeaders srv.headers [] headers
    { noted := [.playlist url sent (fetch url sent)]
      links := (fetch url sent).elim [] fun fetched =>
        (playlistUris srv.hls fetched.content).map
          (Utils.resolveUrl srv.hls.toJoinCrate fetched.finalUrl) }
  | .media range createStream =>
    let sent := segmentRequestHeaders srv.headers range headers
    { noted := [.media (.upstream url sent) ((createStream url sent).map StreamedResponse.received)]
      links := [] }
  | .cached bytes =>
    { noted := [.media (.cache (segmentCacheKey url headers)) (.ok (200, [.ok bytes]))]
      links := [] }

/-! ### The player of the proxy -/

/-- A URL of the proxy in a playlist, with the parameters that it is written with. -/
structure ProxyLink where
  endpoint : Endpoint
  destination : Str
  params : ProxyParams

/-- How a URL of the proxy is followed: the initialisation vector and the time with which it was
written, the request, and what upstream and the cache of segments have. -/
structure ProxyVisit (crate : JoinCrate) where
  iv : Bytes
  iv_length : iv.length = 16
  minted : ℕ
  later : ℕ
  clientIp : Option Str
  range : Option Bytes
  fetch : Str → List (Str × Bytes) → Option (FetchedPlaylist crate)
  createStream : Str → List (Str × Bytes) → Except SegmentError StreamedResponse
  lookUp : Str → Option Bytes
  /-- The vectors that are drawn for the lines of the next playlist. -/
  draw : ℕ → Bytes

/-- The texts of a playlist in which URIs may be. -/
def writtenTexts : Processed → List Written
  | .lines ls => ls
  | .master pl => pl.places.map Place.text
  | .media pl _ => pl.places.map Place.text

def PlaylistBody.links : PlaylistBody → List ProxyLink
  | .rewritten pl params =>
    ((writtenTexts pl).flatMap routesOf).map fun route => ⟨route.1, route.2, params⟩
  | .notice _ => []

namespace HlsServer

variable (srv : HlsServer)

def visitPlaylist (e : ProxyVisit srv.hls.toJoinCrate) (proxyData : ProxyData) (queryString : Str) :
    Visited ProxyLink (PlayerAccess srv.hls.toJoinCrate) :=
  let sent := buildRequestHeaders srv.headers proxyData
  { noted := [.playlist proxyData.destination sent (e.fetch proxyData.destination sent)]
    links := (hlsManifestHandler srv.web srv.hls srv.mint srv.headers srv.proxyBase srv.apiPassword
      srv.prebufferSegments e.fetch e.draw e.later true proxyData queryString).body.links }

def visitSegment (e : ProxyVisit srv.hls.toJoinCrate) (proxyData : ProxyData) :
    Visited ProxyLink (PlayerAccess srv.hls.toJoinCrate) :=
  let passHeaders := stringMembers proxyData.requestHeaders
  let asked : Asked :=
    if (cachedSegmentFor e.lookUp e.range.isSome proxyData).isSome then
      .cache (segmentCacheKey proxyData.destination passHeaders)
    else .upstream proxyData.destination (segmentRequestHeaders srv.headers e.range passHeaders)
  { noted := [.media asked ((hlsSegmentHandler srv.headers srv.http e.lookUp e.createStream e.range
      proxyData).map fun response => (response.status, response.body.items))]
    links := [] }

/-- The player requests a URL of the proxy: its request passes the middleware and is routed. -/
def visit (link : ProxyLink) (e : ProxyVisit srv.hls.toJoinCrate) :
    Visited ProxyLink (PlayerAccess srv.hls.toJoinCrate) :=
  let url := (Piece.proxied link.endpoint link.destination).render srv.web srv.mint srv.proxyBase
    link.params e.iv e.minted
  match (AuthMiddleware.new srv.apiPassword).call srv.web srv.mint.toTokenCrates e.later
      (requestFor e.clientIp (trimEndMatches '/' srv.proxyBase) url) with
  | .error _ => .nothing
  | .ok req =>
    match req.proxyData, (routed srv.web srv.features req).1 with
    | some proxyData, .hlsManifestHandler => srv.visitPlaylist e proxyData req.queryString
    | some proxyData, .hlsSegmentHandler => srv.visitSegment e proxyData
    | _, _ => .nothing

end HlsServer

section Proof

/-! ### URIs -/

section Uris

variable {crates : HlsCrates} {baseUrl : Str}

/-- The destinations of a text are URIs, resolved. -/
def ResolvedFrom (crates : HlsCrates) (baseUrl : Str) (uris : List Str) (w : Written) : Prop :=
  ∀ route ∈ routesOf w, ∃ uri ∈ uris, route.2 = Utils.resolveUrl crates.toJoinCrate baseUrl uri

theorem resolvedFrom_verbatim (uris : List Str) (s : Str) :
    ResolvedFrom crates baseUrl uris (verbatim s) := by
  intro route hroute
  cases hroute

theorem resolvedFrom_proxied (endpoint : Endpoint) {uris : List Str} {uri : Str} (h : uri ∈ uris) :
    ResolvedFrom crates baseUrl uris
      [.proxied endpoint (Utils.resolveUrl crates.toJoinCrate baseUrl uri)] := by
  intro route hroute
  obtain rfl := List.mem_singleton.mp hroute
  exact ⟨uri, h, rfl⟩

/-- The one URI that is rewritten is among those of the text. -/
theorem resolvedFrom_rewriteUriValue (endpoint : Endpoint) (s : Str) :
    ResolvedFrom crates baseUrl (attributeUris s)
      (rewriteUriValue (target crates {} endpoint baseUrl) s) := by
  rw [rewriteUriValue_eq]
  cases hsplit : splitFirstUri s with
  | none => exact resolvedFrom_verbatim _ s
  | some parts =>
    obtain ⟨before, uri, after⟩ := parts
    have hmem : uri ∈ attributeUris s := by
      unfold attributeUris
      rw [rewriteAllUris_of_some hsplit]
      exact List.mem_cons_self
    exact resolvedFrom_proxied endpoint hmem

theorem resolvedFrom_rewriteSegmentOrPlaylistUri {uris : List Str} {uri : Str} (h : uri ∈ uris) :
    ResolvedFrom crates baseUrl uris [rewriteSegmentOrPlaylistUri crates {} uri baseUrl] := by
  unfold rewriteSegmentOrPlaylistUri
  dsimp only
  rw [if_neg Bool.false_ne_true, if_neg Bool.false_ne_true, if_neg Bool.false_ne_true]
  split
  · exact resolvedFrom_proxied _ h
  · exact resolvedFrom_proxied _ h

theorem resolvedFrom_rewriteAttributes (isPlaylist : Bool) (s : Str) :
    ResolvedFrom crates baseUrl (attributeUris s)
      (rewriteAttributes crates (proxying {}) baseUrl isPlaylist s) := by
  unfold rewriteAttributes
  split
  · exact resolvedFrom_rewriteUriValue _ s
  · exact resolvedFrom_verbatim _ s

theorem resolvedFrom_writtenInMaster (p : Place Str) :
    ResolvedFrom crates baseUrl p.uris (writtenInMaster crates {} baseUrl p).text := by
  obtain ⟨kind, text⟩ := p
  have hself : text ∈ [text] := List.mem_singleton_self text
  cases kind with
  | sessionData => exact resolvedFrom_verbatim _ text
  | sessionKey => exact resolvedFrom_verbatim _ text
  | tag name =>
    unfold writtenInMaster
    dsimp only
    split
    · exact resolvedFrom_rewriteAttributes true text
    · exact resolvedFrom_verbatim _ text
  | variant => exact resolvedFrom_proxied .manifest hself
  | rendition => exact resolvedFrom_proxied .manifest hself
  | key => exact resolvedFrom_proxied .manifest hself
  | map => exact resolvedFrom_proxied .manifest hself
  | segment => exact resolvedFrom_proxied .manifest hself

theorem resolvedFrom_writtenInMedia (p : Place Str) :
    ResolvedFrom crates baseUrl p.uris (writtenInMedia crates {} baseUrl p).text := by
  obtain ⟨kind, text⟩ := p
  have hself : text ∈ [text] := List.mem_singleton_self text
  cases kind with
  | tag name => exact resolvedFrom_rewriteAttributes _ text
  | key => exact resolvedFrom_proxied .key hself
  | map => exact resolvedFrom_proxied .segment hself
  | variant => exact resolvedFrom_rewriteSegmentOrPlaylistUri hself
  | rendition => exact resolvedFrom_rewriteSegmentOrPlaylistUri hself
  | sessionData => exact resolvedFrom_rewriteSegmentOrPlaylistUri hself
  | sessionKey => exact resolvedFrom_rewriteSegmentOrPlaylistUri hself
  | segment => exact resolvedFrom_rewriteSegmentOrPlaylistUri hself

/-- The routes of a line are its URIs. -/
theorem mem_lineRoutes {line : Str} {route : Endpoint × Str}
    (h : route ∈ lineRoutes crates {} baseUrl line) :
    ∃ uri ∈ lineUris line, route.2 = Utils.resolveUrl crates.toJoinCrate baseUrl uri := by
  unfold lineRoutes at h
  rw [(@processLine_routes_eq crates {} baseUrl _ rfl line).1] at h
  unfold lineUris
  split at h
  · cases h
  next hheader =>
  split at h
  · cases h
  split at h
  · next hurl =>
    rw [if_pos (show isUrlLine line = true from decide_eq_true ⟨hheader, hurl⟩)]
    exact resolvedFrom_rewriteSegmentOrPlaylistUri (List.mem_singleton_self line) route h
  next hurl =>
  rw [if_neg fun hline => hurl (of_decide_eq_true hline).2]
  split at h
  · exact resolvedFrom_rewriteUriValue _ line route h
  · cases h

theorem mem_routes_of_lines {content : Str} {route : Endpoint × Str}
    (h : route ∈ (processLines crates {} content baseUrl).flatMap routesOf) :
    ∃ uri ∈ (lines content).flatMap lineUris,
      route.2 = Utils.resolveUrl crates.toJoinCrate baseUrl uri := by
  unfold processLines at h
  rw [@processLinesFrom_routes crates {} baseUrl ⟨rfl, rfl⟩ _ rfl] at h
  obtain ⟨line, hline, hroute⟩ := List.mem_flatMap.mp h
  obtain ⟨uri, huri, heq⟩ := mem_lineRoutes hroute
  exact ⟨uri, List.mem_flatMap.mpr ⟨line, hline, huri⟩, heq⟩

/-- Places that are written one by one. -/
theorem mem_routes_of_places {places : List (Place Str)} {f : Place Str → Place Written}
    (hf : ∀ p, ResolvedFrom crates baseUrl p.uris (f p).text) {route : Endpoint × Str}
    (h : route ∈ ((places.map f).map Place.text).flatMap routesOf) :
    ∃ uri ∈ places.flatMap Place.uris, route.2 = Utils.resolveUrl crates.toJoinCrate baseUrl uri := by
  obtain ⟨w, hw, hroute⟩ := List.mem_flatMap.mp h
  rw [List.map_map] at hw
  obtain ⟨p, hp, rfl⟩ := List.mem_map.mp hw
  obtain ⟨uri, huri, heq⟩ := hf p route hroute
  exact ⟨uri, List.mem_flatMap.mpr ⟨p, hp, huri⟩, heq⟩

/-- **What a rewritten playlist leads to** are the URIs of the playlist, resolved. -/
theorem mem_routes_of_process {content : Bytes} {route : Endpoint × Str}
    (h : route ∈ (writtenTexts (process crates {} content baseUrl)).flatMap routesOf) :
    ∃ uri ∈ playlistUris crates content,
      route.2 = Utils.resolveUrl crates.toJoinCrate baseUrl uri := by
  unfold process at h
  unfold playlistUris
  by_cases hiptv : isIptvPlaylist content = true
  · rw [if_pos hiptv] at h ⊢
    exact mem_routes_of_lines h
  rw [if_neg hiptv] at h ⊢
  cases hparse : crates.parsePlaylist content with
  | none =>
    rw [hparse] at h
    exact mem_routes_of_lines h
  | some parsed =>
    rw [hparse] at h
    cases parsed with
    | master pl =>
      dsimp only [writtenTexts] at h
      rw [show processMaster crates {} pl baseUrl = processMaster crates (proxying {}) pl baseUrl from rfl,
        places_processMaster] at h
      exact mem_routes_of_places resolvedFrom_writtenInMaster h
    | media pl =>
      dsimp only [writtenTexts] at h
      rw [show processMedia crates {} pl baseUrl = processMedia crates (proxying {}) pl baseUrl from rfl,
        places_processMedia] at h
      exact mem_routes_of_places resolvedFrom_writtenInMedia h

end Uris

/-! ### Visits -/

section Visits

variable {srv : HlsServer} (hsrv : srv.Documented)

include hsrv

/-- A path under `/proxy/hls` is looked up in its scope. -/
theorem routed_hls {req : Request} {handler : Handler} {values : List Str} (hpercent : '%' ∉ req.path)
    (hroot : rootRoutes.findSome?
      (Service.recognize standardMatcher (Guard.admits req) .defaultService req.path) = none)
    (hscope : Service.recognize standardMatcher (Guard.admits req) .defaultService req.path hlsScope =
      some (handler, values)) :
    (routed srv.web srv.features req).1 = handler := by
  unfold routed dispatch routeTable
  rw [hsrv.routes.requote hpercent, hsrv.routes.matcher, hsrv.enabled]
  simp only [whenEnabled, if_true, List.append_assoc]
  rw [List.findSome?_append, hroot, Option.none_or, List.findSome?_append, List.findSome?_cons, hscope]
  rfl

/-- What is requested at an endpoint is routed to its handler. -/
theorem routed_endpoint {headers : List (Str × Str)} {destination : Str} {endpoint : Endpoint}
    {req : Request} (h : BroughtBack srv headers destination endpoint req) :
    (routed srv.web srv.features req).1 =
      if endpoint = .manifest then .hlsManifestHandler else .hlsSegmentHandler := by
  obtain ⟨method, ⟨path, query⟩, addr, pd⟩ := req
  obtain rfl : method = .get := h.method
  have hpath : path = _ := h.path
  cases endpoint with
  | manifest =>
    obtain rfl : path = "/proxy/hls/manifest".toList := hpath
    exact routed_hls hsrv (show '%' ∉ "/proxy/hls/manifest".toList by decide) rfl rfl
  | key =>
    obtain rfl : path = "/proxy/hls/segment".toList := hpath
    exact routed_hls hsrv (show '%' ∉ "/proxy/hls/segment".toList by decide) rfl rfl
  | segment =>
    obtain rfl : path = "/proxy/hls/segment.".toList ++ Utils.segmentExtension destination := hpath
    have hextension : Utils.segmentExtension destination ∈ ["m4s".toList, "mp4".toList, "m4a".toList,
        "m4v".toList, "aac".toList, "ts".toList] := by
      unfold Utils.segmentExtension
      dsimp only
      repeat' split
      all_goals decide
    clear h
    generalize Utils.segmentExtension destination = extension at hextension ⊢
    have hpercent : '%' ∉ "/proxy/hls/segment.".toList ++ extension := by
      fin_cases hextension <;> decide
    fin_cases hextension <;> exact routed_hls hsrv hpercent rfl rfl

/-- The URL at the proxy of a player's URL. -/
structure LinkOf (srv : HlsServer) (headers : List (Str × Str)) (link : ProxyLink) (url : Str) :
    Prop where
  destination : link.destination = url
  url_ne : url ≠ []
  params : ∃ playlistUrl, playlistUrl ≠ some [] ∧ link.params = srv.params headers playlistUrl

theorem resolveUrl_ne {base : Str} (hbase : srv.hls.parses base = true) (uri : Str) :
    Utils.resolveUrl srv.hls.toJoinCrate base uri ≠ [] := by
  unfold Utils.resolveUrl
  rw [if_pos hbase]
  split
  · next hweb =>
    rintro rfl
    exact absurd hweb (by decide)
  · split
    · next resolved hjoin =>
      rintro rfl
      exact hsrv.joined _ _ hjoin
    · exact fun hnil => List.cons_ne_nil _ _ (List.append_eq_nil_iff.mp hnil).2

variable {headers : List (Str × Str)} {destination : Str} {req : Request} {pd : ProxyData}

/-- **A visit of a playlist** is one of the player itself. -/
theorem visitPlaylist_follows (hoptions : manifestOptions srv.web req.queryString = {})
    (hdestination : pd.destination = destination) (hpass : stringMembers pd.requestHeaders = headers)
    (e : ProxyVisit srv.hls.toJoinCrate) :
    (srv.visitPlaylist e pd req.queryString).Follows (LinkOf srv headers)
      (directVisit srv headers destination (.playlist e.fetch)) := by
  have hsent : buildRequestHeaders srv.headers pd = mergePassHeaders srv.headers [] headers := by
    rw [buildRequestHeaders_eq, hpass]
  refine ⟨fun link hlink => ?_, ?_⟩
  · unfold HlsServer.visitPlaylist at hlink
    dsimp only at hlink
    unfold hlsManifestHandler at hlink
    dsimp only [extractProxyParams] at hlink
    unfold directVisit
    rw [hoptions, hdestination, hpass] at hlink
    dsimp only
    cases hfetch : e.fetch destination (mergePassHeaders srv.headers [] headers) with
    | none =>
      rw [hfetch] at hlink
      cases hlink
    | some fetched =>
      rw [hfetch] at hlink
      unfold manifestResponse at hlink
      dsimp only at hlink
      split at hlink
      · obtain ⟨route, hroute, rfl⟩ := List.mem_map.mp hlink
        obtain ⟨uri, huri, heq⟩ := mem_routes_of_process hroute
        have hurl : fetched.finalUrl ≠ [] := by
          intro hnil
          have hparses := fetched.parses
          rw [hnil, hsrv.noEmptyUrl] at hparses
          cases hparses
        exact ⟨_, List.mem_map_of_mem huri,
          { destination := heq
            url_ne := resolveUrl_ne hsrv fetched.parses uri
            params := ⟨some fetched.finalUrl, fun hsome => hurl (Option.some.inj hsome), rfl⟩ }⟩
      · cases hlink
  · unfold HlsServer.visitPlaylist directVisit
    dsimp only
    rw [hsent, hdestination]

omit hsrv in
/-- **A visit of a segment** is one of the player itself, or a look into a cache. -/
theorem visitSegment_follows (hdestination : pd.destination = destination)
    (hpass : stringMembers pd.requestHeaders = headers) (e : ProxyVisit srv.hls.toJoinCrate) :
    ∃ e', (srv.visitSegment e pd).Follows (LinkOf srv headers)
      (directVisit srv headers destination e') := by
  unfold HlsServer.visitSegment hlsSegmentHandler
  rw [hpass, hdestination]
  dsimp only
  cases cachedSegmentFor e.lookUp e.range.isSome pd with
  | some bytes => exact ⟨.cached bytes, ⟨List.forall_mem_nil _, rfl⟩⟩
  | none =>
    refine ⟨.media e.range e.createStream, ⟨List.forall_mem_nil _, ?_⟩⟩
    unfold directVisit
    dsimp only
    cases e.createStream destination (segmentRequestHeaders srv.headers e.range headers) with
    | error err => rfl
    | ok upstream =>
      have hstatus : (if 100 ≤ upstream.status ∧ upstream.status < 1000 then upstream.status else 200) =
          upstream.status := if_pos upstream.isStatus
      have hitems : (streamedSegmentResponse srv.http upstream pd.responseHeaders).body.items =
          upstream.body.getD [] := by
        unfold streamedSegmentResponse
        dsimp only
        cases upstream.body with
        | none => rfl
        | some items => rfl
      show [PlayerAccess.media _ (.ok ((if _ then _ else 200), _))] = _
      rw [hstatus, hitems]
      rfl

/-- A request that passes the middleware is a visit of the player itself. -/
theorem visit_of_call (hheaders : PassedOn headers) {link : ProxyLink} {url : Str}
    (h : LinkOf srv headers link url) (e : ProxyVisit srv.hls.toJoinCrate)
    (hcall : (AuthMiddleware.new srv.apiPassword).call srv.web srv.mint.toTokenCrates e.later
      (requestFor e.clientIp (trimEndMatches '/' srv.proxyBase)
        ((Piece.proxied link.endpoint link.destination).render srv.web srv.mint srv.proxyBase
          link.params e.iv e.minted)) = .ok req) :
    ∃ e', (srv.visit link e).Follows (LinkOf srv headers) (directVisit srv headers url e') := by
  obtain ⟨endpoint, destination, params⟩ := link
  obtain ⟨rfl, hne, playlistUrl, hplaylist, rfl⟩ := h
  have hback := call_link hsrv hheaders hne hplaylist endpoint e.iv_length e.minted e.later e.clientIp
    hcall
  obtain ⟨pd, hpd, hdestination, hpass⟩ := hback.proxyData
  unfold HlsServer.visit
  dsimp only at hcall ⊢
  rw [hcall]
  dsimp only
  rw [hpd, routed_endpoint hsrv hback]
  cases endpoint with
  | manifest => exact ⟨_, visitPlaylist_follows hsrv hback.options hdestination hpass e⟩
  | key => exact visitSegment_follows hdestination hpass e
  | segment => exact visitSegment_follows hdestination hpass e

/-- **A visit** is one of the player itself, or nothing. -/
theorem visit_follows (hheaders : PassedOn headers) {link : ProxyLink} {url : Str}
    (h : LinkOf srv headers link url) (e : ProxyVisit srv.hls.toJoinCrate) :
    srv.visit link e = .nothing ∨
      ∃ e', (srv.visit link e).Follows (LinkOf srv headers) (directVisit srv headers url e') := by
  cases hcall : (AuthMiddleware.new srv.apiPassword).call srv.web srv.mint.toTokenCrates e.later
      (requestFor e.clientIp (trimEndMatches '/' srv.proxyBase)
        ((Piece.proxied link.endpoint link.destination).render srv.web srv.mint srv.proxyBase
          link.params e.iv e.minted)) with
  | error err =>
    left
    unfold HlsServer.visit
    dsimp only
    rw [hcall]
  | ok req => exact .inr (visit_of_call hsrv hheaders h e hcall)

end Visits

end Proof

/-! ### Sessions -/

/-- The sessions that begin with the URL of the proxy for a playlist. -/
def proxySession (srv : HlsServer) (headers : List (Str × Str)) (playlist : Str) :
    Machine (Browser ProxyLink (PlayerAccess srv.hls.toJoinCrate))
      (ℕ × ProxyVisit srv.hls.toJoinCrate) :=
  browsing ⟨.manifest, playlist, srv.params headers none⟩ srv.visit

/-- The sessions of a player without the proxy. -/
def directSession (srv : HlsServer) (headers : List (Str × Str)) (playlist : Str) :
    Machine (Browser Str (PlayerAccess srv.hls.toJoinCrate))
      (ℕ × DirectVisit srv.hls.toJoinCrate) :=
  browsing playlist (directVisit srv headers)

/-- A server without a password; its crates read no playlists, so these are rewritten line by line. -/
def openServer : HlsServer where
  web := { standardWeb with
    parseUri := fun s => if s.length < 65535 then some (splitUri s) else none }
  hls :=
    { parses := fun s => !s.isEmpty
      join := fun _ path => some ("http://h/".toList ++ path)
      parsePlaylist := fun _ => none }
  mint := { noPayload with urlSafeEncode := Base64.encodeUrlSafe }
  headers := ⟨some, fun s => some (utf8 s)⟩
  http := { asciiHttp with toStr := fromUtf8 }
  features := ⟨true, true, true, true, true, true, true, true⟩
  proxyBase := "http://p".toList
  apiPassword := []
  prebufferSegments := 1

theorem openServer_documented : openServer.Documented where
  codes := ⟨rfl, rfl, rfl⟩
  uris := by
    intro path query hpath hchars hquery
    have hstandard := @standardWeb_parsesUris path query hpath hchars hquery
    by_cases hshort : (pathAndQuery path query).length < 65535
    · exact (if_pos hshort).trans ((hstandard hshort).trans (if_pos hshort).symm)
    · exact (if_neg hshort).trans (if_neg hshort).symm
  routes := ⟨rfl, fun _ => rfl⟩
  enabled := rfl
  alphabet := fun bytes c hc => unreserved_encodeUrlSafe bytes c hc
  mints := fun h => absurd rfl h
  noEmptyUrl := rfl
  joined := fun _ _ h => nomatch Option.some.inj h

/-- A referer, which each request upstream is to have. -/
def refererHeaders : List (Str × Str) := [("referer".toList, "r".toList)]

theorem refererHeaders_passedOn : PassedOn refererHeaders where
  sorted := List.pairwise_singleton _ _
  names := by decide +kernel
  values := by decide
  unmarked := by decide

/-- Upstream has a playlist of one variant, and the variant with one segment. -/
def twoLevels (url : Str) : Str :=
  if url = "http://h/m.m3u8".toList then "#EXTM3U\n#EXT-X-STREAM-INF:BANDWIDTH=1\nv.m3u8\n".toList
  else "#EXTM3U\n#EXTINF:4,\ns.ts\n".toList

def twoLevelVisit : ProxyVisit openServer.hls.toJoinCrate where
  iv := List.replicate 16 0
  iv_length := rfl
  minted := 0
  later := 0
  clientIp := none
  range := none
  fetch url _ := some ⟨utf8 (twoLevels url), "http://h/".toList, rfl⟩
  createStream _ _ := .ok ⟨200, by decide, [], some [.ok [7]]⟩
  lookUp _ := none
  draw _ := []

/-- From the playlist to the variant, and on to the segment. -/
def threeVisits : Option (Browser ProxyLink (PlayerAccess openServer.hls.toJoinCrate)) :=
  (proxySession openServer refererHeaders "http://h/m.m3u8".toList).run
    [(0, twoLevelVisit), (1, twoLevelVisit), (2, twoLevelVisit)]

end MediaFlow
