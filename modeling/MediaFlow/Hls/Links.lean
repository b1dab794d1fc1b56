import MediaFlow.Auth.Bypass
import MediaFlow.Hls.Handler

/-!
# What a URL of the proxy brings back

A player requests a URL that a rewritten playlist holds. `call_link`: a request that passes the
middleware has the endpoint of the URL, its destination, and the headers that were passed when the
playlist was requested; whether they came in a token or in the query string makes no difference.
-/

open ByteString Text UrlCoding Json Routing

namespace MediaFlow

/-! ### Headers as a list -/

/-- Maps with the same values are the same. -/
theorem sorted_ext {m m' : Map} (h : m.Sorted) (h' : m'.Sorted)
    (hlookup : ∀ name, m.lookup name = m'.lookup name) : m = m' := by
  have hmem (kv : Str × Value) : kv ∈ m ↔ kv ∈ m' := by
    rw [← lookup_eq_some_iff_mem h.nodup, ← lookup_eq_some_iff_mem h'.nodup, hlookup]
  have hperm : m.Perm m' :=
    (List.perm_ext_iff_of_nodup h.nodup.of_map h'.nodup.of_map).mpr hmem
  exact hperm.eq_of_pairwise (fun a b _ _ hab hba => absurd (lt_trans hab hba) (lt_irrefl _)) h h'

/-- Headers as an object has them: by name. -/
def HeadersSorted (headers : List (Str × Str)) : Prop := headers.Pairwise fun a b => a.1 < b.1

theorem HeadersSorted.nodup {headers : List (Str × Str)} (h : HeadersSorted headers) :
    (headers.map Prod.fst).Nodup :=
  List.pairwise_map.mpr (h.imp fun hlt => ne_of_lt hlt)

/-- The object of headers in order. -/
def headerMembers (headers : List (Str × Str)) : Map := headers.map fun kv => (kv.1, .string kv.2)

theorem lookup_headerMembers (headers : List (Str × Str)) (name : Str) :
    (headerMembers headers).lookup name = (headers.lookup name).map .string := by
  induction headers with
  | nil => rfl
  | cons kv rest ih =>
    obtain ⟨k, v⟩ := kv
    show ((k, Value.string v) :: headerMembers rest).lookup name = _
    rw [List.lookup_cons, List.lookup_cons, ih]
    cases name == k with
    | true => rfl
    | false => rfl

/-- **Headers that are found are the headers**, in their order. -/
theorem stringMembers_eq {headers : List (Str × Str)} (hheaders : HeadersSorted headers) {m : Map}
    (hm : m.Sorted) (h : ∀ name, m.lookup name = (headers.lookup name).map .string) :
    stringMembers (some (.object m)) = headers := by
  have hsorted : (headerMembers headers).Sorted := List.pairwise_map.mpr hheaders
  have heq : m = headerMembers headers :=
    sorted_ext hm hsorted fun name => by rw [h, lookup_headerMembers]
  rw [heq]
  show (headerMembers headers).filterMap _ = _
  unfold headerMembers
  rw [List.filterMap_map]
  exact List.filterMap_some

/-- The headers that the middleware finds in a query are in order. -/
theorem sorted_addHeader (params : Map) :
    (params.foldl addHeader ([], [])).1.Sorted := by
  induction params using List.reverseRecOn with
  | nil => exact List.Pairwise.nil
  | append_singleton params member ih =>
    rw [List.foldl_append, List.foldl_cons, List.foldl_nil, addHeader]
    split
    · exact ih.insert _ _
    · split
      · exact ih
      · exact ih

/-! ### The server -/

/-- The settings of the server, with what other crates do for it. -/
structure HlsServer where
  web : WebCrates
  hls : HlsCrates
  mint : MintCrates
  headers : HeaderCrates
  http : SegmentCrates
  features : Features
  proxyBase : Str
  apiPassword : Str
  prebufferSegments : ℕ

/-- What is relied on of the crates: that URLs are coded and routed as they are documented to be, that
a text is a `Uri` unless it is too long, that tokens can be read if there is a password, and that no
URL is empty. -/
structure HlsServer.Documented (srv : HlsServer) : Prop where
  codes : srv.web.CodesUrls
  uris : ∀ {path query : Str}, path ≠ [] → (∀ c ∈ path, pathChar c = true) →
    (∀ c ∈ query, queryChar c = true) → srv.web.parseUri (pathAndQuery path query) =
      if (pathAndQuery path query).length < 65535 then some ⟨path, query⟩ else none
  routes : srv.web.RoutesPaths
  enabled : srv.features.hls = true
  alphabet : ∀ bytes, ∀ c ∈ srv.mint.urlSafeEncode bytes, unreserved c = true
  mints : srv.apiPassword ≠ [] → ∀ payload, srv.mint.Mints payload
  noEmptyUrl : srv.hls.parses [] = false
  joined : ∀ base path, srv.hls.join base path ≠ some []

/-- Headers that a URL can carry: their names need no encoding, none has the prefix of a parameter or
belongs to one request only, and none is empty. -/
structure PassedOn (headers : List (Str × Str)) : Prop where
  sorted : HeadersSorted headers
  names : ∀ kv ∈ headers, encode kv.1 = kv.1
  values : ∀ kv ∈ headers, kv.2 ≠ []
  unmarked : ∀ kv ∈ headers, ¬ "h_".toList <+: kv.1 ∧ isPerRequest kv.1 = false

section Requests

variable {proxyBase destination : Str} {params : ProxyParams} (endpoint : Endpoint)

/-- Only the URL of a segment has a parameter of its own. -/
theorem queryParams_request : (endpoint.request proxyBase destination params).queryParams = [] ∨
    ∃ playlistUrl, params.playlistUrl = some playlistUrl ∧
      (endpoint.request proxyBase destination params).queryParams =
        [("playlist_url".toList, playlistUrl)] := by
  cases endpoint with
  | manifest => exact .inl rfl
  | key => exact .inl rfl
  | segment =>
    unfold Endpoint.request proxySegmentUrl
    cases params.playlistUrl with
    | none => exact .inl rfl
    | some playlistUrl => exact .inr ⟨playlistUrl, rfl, rfl⟩

theorem valued_request (hheaders : PassedOn params.passHeaders) (hdestination : destination ≠ [])
    (hplaylist : params.playlistUrl ≠ some []) :
    (endpoint.request proxyBase destination params).Valued := by
  have hqueries := @queryParams_request proxyBase destination params endpoint
  exact {
    expiration := by cases endpoint <;> rfl
    ip := by cases endpoint <;> rfl
    destination := by cases endpoint <;> exact hdestination
    queryParams := by
      intro kv hkv
      rcases hqueries with hnil | ⟨playlistUrl, hurl, hone⟩
      · rw [hnil] at hkv
        cases hkv
      · rw [hone] at hkv
        rw [List.mem_singleton.mp hkv]
        exact fun hempty => hplaylist (hurl.trans (congrArg some hempty))
    requestHeaders := by cases endpoint <;> exact hheaders.values
    responseHeaders := by cases endpoint <;> nofun
    propagated := by cases endpoint <;> nofun
    removed := by cases endpoint <;> nofun
    transformer := by cases endpoint <;> nofun
    queryParams_nodup := by
      rcases hqueries with hnil | ⟨_, -, hone⟩
      · rw [hnil]
        exact List.nodup_nil
      · rw [hone]
        exact List.nodup_singleton _
    requestHeaders_nodup := by cases endpoint <;> exact hheaders.sorted.nodup
    responseHeaders_nodup := by cases endpoint <;> exact List.nodup_nil }

theorem writtenAlike_request {web : WebCrates} {mint : MintCrates}
    (hheaders : PassedOn params.passHeaders) :
    (endpoint.request proxyBase destination params).WrittenAlike web mint := by
  cases endpoint <;>
    exact ⟨hheaders.unmarked, nofun, rfl, rfl, rfl, nofun⟩

/-- A plain URL has the parameters of a token. -/
theorem params_request {web : WebCrates} {mint : MintCrates} (hheaders : PassedOn params.passHeaders)
    (hdestination : destination ≠ []) (hplaylist : params.playlistUrl ≠ some []) :
    (endpoint.request proxyBase destination params).params =
      (endpoint.request proxyBase destination params).tokenParams := by
  rw [params_eq (@writtenAlike_request proxyBase destination params endpoint web mint hheaders)
    (valued_request endpoint hheaders hdestination hplaylist)]
  cases endpoint <;> rfl

/-- The parameters: the destination, the playlist and the headers. -/
theorem mem_tokenParams_request {p : Str × Str}
    (h : p ∈ (endpoint.request proxyBase destination params).tokenParams) :
    p.1 = "d".toList ∨ p.1 = "playlist_url".toList ∨
      ∃ kv ∈ params.passHeaders, p = ("h_".toList ++ kv.1, kv.2) := by
  rcases mem_tokenParams h with rfl | hq | ⟨k, hk, hname⟩ | ⟨k, hk, -⟩
  · exact .inl rfl
  · refine .inr (.inl ?_)
    rcases @queryParams_request proxyBase destination params endpoint with hnil | ⟨_, -, hone⟩
    · rw [hnil] at hq
      cases hq
    · rw [hone] at hq
      rw [List.mem_singleton.mp hq]
  · refine .inr (.inr ⟨(k, p.2), ?_, Prod.ext hname rfl⟩)
    cases endpoint <;> exact hk
  · cases endpoint <;> cases hk

theorem tokenParams_names (hheaders : PassedOn params.passHeaders) :
    ∀ p ∈ (endpoint.request proxyBase destination params).tokenParams, encode p.1 = p.1 := by
  intro p hp
  rcases mem_tokenParams_request endpoint hp with hname | hname | ⟨kv, hkv, rfl⟩
  · rw [hname]
    decide
  · rw [hname]
    decide +kernel
  · show encode ("h_".toList ++ kv.1) = _
    rw [encode_append, hheaders.names kv hkv]
    rfl

/-- A header among the parameters. -/
theorem lastValue_header (hheaders : PassedOn params.passHeaders) (name : Str) :
    lastValue ("h_".toList ++ name) (endpoint.request proxyBase destination params).tokenParams =
      params.passHeaders.lookup name := by
  have hresponse : (endpoint.request proxyBase destination params).responseHeaders = [] := by
    cases endpoint <;> rfl
  have hrequest : (endpoint.request proxyBase destination params).requestHeaders = params.passHeaders := by
    cases endpoint <;> rfl
  have hquery : lastValue ("h_".toList ++ name)
      (endpoint.request proxyBase destination params).queryParams = none := by
    rcases @queryParams_request proxyBase destination params endpoint with hnil | ⟨_, -, hone⟩
    · rw [hnil]
      rfl
    · rw [hone]
      exact lastValue_singleton_of_ne _ nofun
  have hd : lastValue ("h_".toList ++ name)
      [("d".toList, (endpoint.request proxyBase destination params).destinationUrl)] = none :=
    lastValue_singleton_of_ne _ nofun
  unfold GenerateUrlRequest.tokenParams
  rw [hresponse, hrequest, List.map_nil, List.append_nil, lastValue_append, lastValue_append,
    lastValue_marked hheaders.sorted.nodup, hquery, hd, Option.or_none, Option.or_none]

/-- The query of a request asks for no options. -/
theorem manifestOptions_pairs {web : WebCrates} (hweb : web.CodesUrls) {pairs : List (Str × Str)}
    (hnames : ∀ p ∈ pairs, encode p.1 = p.1)
    (hown : ∀ p ∈ pairs, p.1 = "d".toList ∨ p.1 = "playlist_url".toList ∨ "h_".toList <+: p.1) :
    manifestOptions web (joinFields (encodedFields pairs)) = {} := by
  have hnone {key : Str} (hkey : key ≠ "d".toList ∧ key ≠ "playlist_url".toList ∧
      ¬ "h_".toList <+: key) : formValue web (joinFields (encodedFields pairs)) key = none := by
    unfold formValue
    rw [hweb.formPairs, formPairs_encodedFields hnames, lastValue_eq_none_iff]
    rintro p hp rfl
    rcases hown p hp with h | h | h
    · exact hkey.1 h
    · exact hkey.2.1 h
    · exact hkey.2.2 h
  unfold manifestOptions
  rw [hnone (by decide), hnone (by decide), hnone (by decide), hnone (by decide)]
  rfl

end Requests

/-! ### What the middleware passes on -/

/-- A token ends at the first slash. -/
theorem splitPathToken_slash {token : Str} (h : '/' ∉ token) (rest : Str) :
    AuthMiddleware.splitPathToken (token ++ '/' :: rest) = (token, '/' :: rest) := by
  unfold AuthMiddleware.splitPathToken
  rw [find_singleton_append h]
  exact Prod.ext List.take_left List.drop_left

section Calls

variable {srv : HlsServer} (hsrv : srv.Documented) {headers : List (Str × Str)}
  (hheaders : PassedOn headers) {destination : Str} (hdestination : destination ≠ [])
  {playlistUrl : Option Str} (hplaylist : playlistUrl ≠ some []) (endpoint : Endpoint)

/-- What the server writes in a URL. -/
def HlsServer.params (srv : HlsServer) (headers : List (Str × Str)) (playlistUrl : Option Str) :
    ProxyParams :=
  ⟨srv.apiPassword, headers, playlistUrl⟩

/-- A request that reaches the router has what the URL was written with. -/
structure BroughtBack (srv : HlsServer) (headers : List (Str × Str)) (destination : Str)
    (endpoint : Endpoint) (req : Request) : Prop where
  method : req.method = .get
  path : req.path = (endpoint.request srv.proxyBase destination (srv.params headers none)).endpointPath
  options : manifestOptions srv.web req.queryString = {}
  proxyData : ∃ pd, req.proxyData = some pd ∧ pd.destination = destination ∧
    stringMembers pd.requestHeaders = headers

theorem endpointPath_params (playlistUrl : Option Str) :
    (endpoint.request srv.proxyBase destination (srv.params headers playlistUrl)).endpointPath =
      (endpoint.request srv.proxyBase destination (srv.params headers none)).endpointPath := by
  cases endpoint <;> rfl

include hsrv hheaders hdestination hplaylist

theorem call_link_of_password (hpassword : srv.apiPassword ≠ []) {iv : Bytes} (hiv : iv.length = 16)
    (minted later : ℕ) (clientIp : Option Str) {req : Request}
    (hcall : (AuthMiddleware.new srv.apiPassword).call srv.web srv.mint.toTokenCrates later
      (requestFor clientIp (trimEndMatches '/' srv.proxyBase)
        ((Piece.proxied endpoint destination).render srv.web srv.mint srv.proxyBase
          (srv.params headers playlistUrl) iv minted)) = .ok req) :
    BroughtBack srv headers destination endpoint req := by
  have hvalued := @valued_request srv.proxyBase destination (srv.params headers playlistUrl) endpoint
    hheaders hdestination hplaylist
  have hrender := @render_of_password srv.web srv.mint srv.proxyBase destination
    (srv.params headers playlistUrl) endpoint iv minted hpassword
  have hpath := @endpointPath_request srv.proxyBase destination (srv.params headers playlistUrl) endpoint
  have hfields : (endpoint.request srv.proxyBase destination
      (srv.params headers playlistUrl)).destinationUrl = destination ∧
      (endpoint.request srv.proxyBase destination (srv.params headers playlistUrl)).requestHeaders =
        headers := by
    cases endpoint <;> exact ⟨rfl, rfl⟩
  have hpairs := @mem_payloadPairs _ hvalued minted
  have hown := @mem_tokenParams_request srv.proxyBase destination (srv.params headers playlistUrl) endpoint
  have hnames := @tokenParams_names srv.proxyBase destination (srv.params headers playlistUrl) endpoint
    hheaders
  have hendpoint := @endpointPath_params srv headers destination endpoint playlistUrl
  rw [hrender] at hcall
  generalize endpoint.request srv.proxyBase destination (srv.params headers playlistUrl) = g
    at hvalued hpath hfields hpairs hown hnames hendpoint hcall
  have hmint := hsrv.mints hpassword (g.payload minted)
  have hexp : (g.payload minted).exp = none := congrArg (Option.map _) hvalued.expiration
  have hdecrypt := fun h => decrypt_encrypt hmint hiv hexp hvalued.ip h later clientIp
  generalize htoken : (EncryptionHandler.new (utf8 (srv.params headers playlistUrl).apiPassword)).encrypt
    srv.mint iv (g.payload minted) = token at hcall
  have hchars : ∀ c ∈ token, unreserved c = true := by
    rw [← htoken]
    exact hmint.alphabet _
  obtain ⟨name, hname, hplain⟩ := hpath
  -- the path has neither a query nor a fragment
  have hall : ∀ c ∈ "/_token_".toList ++ (token ++ g.endpointPath), pathChar c = true := by
    intro c hc
    rcases List.mem_append.mp hc with hc | hc
    · have hmark : "/_token_".toList.all pathChar = true := by decide
      exact List.all_eq_true.mp hmark c hc
    · rcases List.mem_append.mp hc with hc | hc
      · unfold pathChar encodingChar
        rw [hchars c hc]
        rfl
      · rw [hname] at hc
        exact hplain c hc
  rw [(requestFor_append (not_mem_of_pathChar (by decide) hall) (not_mem_of_pathChar (by decide) hall)
    List.not_mem_nil).2, call_of_pathToken hpassword (stripPrefix_append _ _) (if_neg hpassword)] at hcall
  obtain ⟨pd, newUri, hpd, huri, rfl⟩ := callPathToken_ok_iff.mp hcall
  have hsplit : AuthMiddleware.splitPathToken (token ++ g.endpointPath) = (token, g.endpointPath) := by
    have hslash : '/' ∉ token := fun h => absurd (hchars _ h) (by decide)
    rw [hname]
    exact splitPathToken_slash hslash ("proxy/hls/".toList ++ name)
  rw [hsplit] at hpd huri
  obtain rfl : g.payload minted = pd := by
    have hok := (hdecrypt (EncryptionHandler.new (utf8 srv.apiPassword))).symm.trans
      ((congrArg (fun t => (EncryptionHandler.new (utf8 srv.apiPassword)).decrypt srv.mint.toTokenCrates
        later t clientIp) htoken).trans hpd)
    exact Except.ok.inj hok
  have hquery : buildQueryFromProxyData srv.web (g.payload minted) [] =
      joinFields (encodedFields (payloadPairs (g.payload minted))) := by
    unfold buildQueryFromProxyData
    exact intercalate_queryPair hsrv.codes _
  have hpayloadNames : ∀ p ∈ payloadPairs (g.payload minted), encode p.1 = p.1 :=
    fun p hp => hnames p ((hpairs p).mp hp)
  have hne : g.endpointPath ≠ [] := by
    rw [hname]
    exact List.cons_ne_nil _ _
  dsimp only [Request.queryString] at huri
  rw [hquery, hsrv.uris hne (fun c hc => hplain c (hname ▸ hc))
    fun c hc => queryChar_of_mem hpayloadNames hc] at huri
  obtain ⟨-, hnew⟩ := Option.ite_none_right_eq_some.mp huri
  exact {
    method := rfl
    path := by
      rw [← Option.some.inj hnew, ← hendpoint]
      rfl
    options := by
      rw [← Option.some.inj hnew]
      refine manifestOptions_pairs hsrv.codes hpayloadNames fun p hp => ?_
      rcases hown ((hpairs p).mp hp) with h | h | ⟨kv, -, rfl⟩
      · exact .inl h
      · exact .inr (.inl h)
      · exact .inr (.inr (List.prefix_append _ _))
    proxyData := by
      refine ⟨_, rfl, hfields.1, ?_⟩
      show stringMembers (some (toValue g.requestHeaders)) = _
      rw [hfields.2]
      exact stringMembers_eq hheaders.sorted (toMembers_sorted _)
        (toMembers_lookup hheaders.sorted.nodup) }

theorem call_link_of_noPassword (hpassword : srv.apiPassword = []) (iv : Bytes) (minted later : ℕ)
    (clientIp : Option Str) {req : Request}
    (hcall : (AuthMiddleware.new srv.apiPassword).call srv.web srv.mint.toTokenCrates later
      (requestFor clientIp (trimEndMatches '/' srv.proxyBase)
        ((Piece.proxied endpoint destination).render srv.web srv.mint srv.proxyBase
          (srv.params headers playlistUrl) iv minted)) = .ok req) :
    BroughtBack srv headers destination endpoint req := by
  have hvalued := @valued_request srv.proxyBase destination (srv.params headers playlistUrl) endpoint
    hheaders hdestination hplaylist
  have hrender := @render_of_noPassword srv.web srv.mint srv.proxyBase destination
    (srv.params headers playlistUrl) endpoint iv minted hsrv.codes hpassword
  obtain ⟨name, hname, hplain⟩ := @endpointPath_request srv.proxyBase destination
    (srv.params headers playlistUrl) endpoint
  have hparams := @params_request srv.proxyBase destination (srv.params headers playlistUrl) endpoint
    srv.web srv.mint hheaders hdestination hplaylist
  have hown := @mem_tokenParams_request srv.proxyBase destination (srv.params headers playlistUrl) endpoint
  have hnames := @tokenParams_names srv.proxyBase destination (srv.params headers playlistUrl) endpoint
    hheaders
  have hheader := @lastValue_header srv.proxyBase destination (srv.params headers playlistUrl) endpoint
    hheaders
  have hread := (@destination_request srv.web srv.proxyBase destination
    (srv.params headers playlistUrl) endpoint hsrv.codes hheaders.names).1
  have hendpoint := @endpointPath_params srv headers destination endpoint playlistUrl
  rw [hrender] at hcall
  generalize endpoint.request srv.proxyBase destination (srv.params headers playlistUrl) = g
    at hvalued hname hplain hparams hown hnames hheader hread hendpoint hcall
  have hvalues : ∀ p ∈ g.tokenParams, p.2 ≠ [] := hparams ▸ params_values hvalued
  rw [hparams] at hcall hread
  have hall : ∀ c ∈ g.endpointPath, pathChar c = true := fun c hc => hplain c (hname ▸ hc)
  rw [(requestFor_append (not_mem_of_pathChar (by decide) hall) (not_mem_of_pathChar (by decide) hall)
    (hash_not_mem_query hnames)).1] at hcall
  unfold AuthMiddleware.call at hcall
  rw [if_pos (show (AuthMiddleware.new srv.apiPassword).apiPassword = [] from hpassword)] at hcall
  unfold AuthMiddleware.callWithoutPassword at hcall
  dsimp only at hcall
  split at hcall
  · cases hcall
  · obtain rfl := Except.ok.inj hcall
    exact {
      method := rfl
      path := hendpoint
      options := by
        refine manifestOptions_pairs hsrv.codes hnames fun p hp => ?_
        rcases hown hp with h | h | ⟨kv, -, rfl⟩
        · exact .inl h
        · exact .inr (.inl h)
        · exact .inr (.inr (List.prefix_append _ _))
      proxyData := by
        refine ⟨_, rfl, hread, stringMembers_eq hheaders.sorted (sorted_addHeader _) fun name => ?_⟩
        have hstored := (@stored_eq srv.web (joinFields (encodedFields g.tokenParams))).2.1 name
        rw [takenValue_encodedFields hsrv.codes hnames hvalues, hheader] at hstored
        exact hstored }

/-- **A URL of the proxy brings back** what it was written with. -/
theorem call_link {iv : Bytes} (hiv : iv.length = 16) (minted later : ℕ) (clientIp : Option Str)
    {req : Request}
    (hcall : (AuthMiddleware.new srv.apiPassword).call srv.web srv.mint.toTokenCrates later
      (requestFor clientIp (trimEndMatches '/' srv.proxyBase)
        ((Piece.proxied endpoint destination).render srv.web srv.mint srv.proxyBase
          (srv.params headers playlistUrl) iv minted)) = .ok req) :
    BroughtBack srv headers destination endpoint req := by
  by_cases hpassword : srv.apiPassword = []
  · exact call_link_of_noPassword hsrv hheaders hdestination hplaylist endpoint hpassword iv minted later
      clientIp hcall
  · exact call_link_of_password hsrv hheaders hdestination hplaylist endpoint hpassword hiv minted later
      clientIp hcall

end Calls

/-! ### URLs that are not too long -/

/-- The URL is a `Uri` without its token, too. -/
def HlsServer.Fits (srv : HlsServer) (endpoint : Endpoint) (destination : Str) (params : ProxyParams) :
    Prop :=
  let g := endpoint.request srv.proxyBase destination params
  (pathAndQuery (g.remainingPath srv.web)
    (buildQueryFromProxyData srv.web (g.payload 0) [])).length < 65535

section Fitting

variable {srv : HlsServer} (hsrv : srv.Documented) {headers : List (Str × Str)}
  (hheaders : PassedOn headers) {destination : Str} {playlistUrl : Option Str} (endpoint : Endpoint)
  (hfits : srv.Fits endpoint destination (srv.params headers playlistUrl))

include hheaders hfits

theorem unambiguous_request : (endpoint.request srv.proxyBase destination
    (srv.params headers playlistUrl)).Unambiguous srv.web srv.mint := by
  have hqueries := @queryParams_request srv.proxyBase destination (srv.params headers playlistUrl) endpoint
  obtain ⟨name, hname, hplain⟩ := @endpointPath_request srv.proxyBase destination
    (srv.params headers playlistUrl) endpoint
  exact {
    names := by
      intro kv hkv
      have hmem : kv ∈ (endpoint.request srv.proxyBase destination
          (srv.params headers playlistUrl)).queryParams ∨ kv ∈ headers := by
        cases endpoint <;> simpa [Endpoint.request, proxyManifestUrl, proxySegmentUrl, proxyKeyUrl,
          hlsUrlRequest, HlsServer.params] using hkv
      rcases hmem with hmem | hmem
      · rcases hqueries with hnil | ⟨_, -, hone⟩
        · rw [hnil] at hmem
          cases hmem
        · rw [hone] at hmem
          rw [List.mem_singleton.mp hmem]
          exact (by decide +kernel : encode "playlist_url".toList = "playlist_url".toList)
      · exact hheaders.names kv hmem
    reserved := by
      intro kv hkv
      rcases hqueries with hnil | ⟨_, -, hone⟩
      · rw [hnil] at hkv
        cases hkv
      · rw [hone] at hkv
        rw [List.mem_singleton.mp hkv]
        exact (by decide : "playlist_url".toList ∉ ["d".toList, "url".toList, "token".toList,
          "x_headers".toList, "transformer".toList] ∧ ¬ "h_".toList <+: "playlist_url".toList ∧
            ¬ "r_".toList <+: "playlist_url".toList ∧ ¬ "rp_".toList <+: "playlist_url".toList)
    endpoint := fun c hc => hplain c (hname ▸ hc)
    noToken := by
      unfold GenerateUrlRequest.plainPath
      rw [hname]
      rfl
    short := by
      intro now
      have hpayload : (endpoint.request srv.proxyBase destination
          (srv.params headers playlistUrl)).payload now =
          (endpoint.request srv.proxyBase destination (srv.params headers playlistUrl)).payload 0 := by
        cases endpoint <;> rfl
      rw [hpayload]
      exact hfits }

include hsrv in
/-- **Its request passes the middleware.** -/
theorem exists_call (hdestination : destination ≠ []) (hplaylist : playlistUrl ≠ some []) {iv : Bytes}
    (hiv : iv.length = 16) (minted later : ℕ) (clientIp : Option Str) :
    ∃ req, (AuthMiddleware.new srv.apiPassword).call srv.web srv.mint.toTokenCrates later
      (requestFor clientIp (trimEndMatches '/' srv.proxyBase)
        ((Piece.proxied endpoint destination).render srv.web srv.mint srv.proxyBase
          (srv.params headers playlistUrl) iv minted)) = .ok req := by
  have hvalued := @valued_request srv.proxyBase destination (srv.params headers playlistUrl) endpoint
    hheaders hdestination hplaylist
  have hplain := unambiguous_request hheaders endpoint hfits
  have hbase := @base_request srv.proxyBase destination (srv.params headers playlistUrl) endpoint
  have huris : srv.web.ParsesUris := by
    intro path query hpath hchars hquery hshort
    rw [hsrv.uris hpath hchars hquery, if_pos hshort]
  have hopt := @apiPassword_request srv.proxyBase destination (srv.params headers playlistUrl) endpoint
  unfold Piece.render
  rw [← hbase]
  dsimp only
  generalize endpoint.request srv.proxyBase destination (srv.params headers playlistUrl) = g
    at hvalued hplain hopt ⊢
  have hsame (password : Option Str) (h : g.apiPassword = password) :
      { g with apiPassword := password } = g := by
    rw [← h]
  unfold ProxyParams.apiPasswordOpt at hopt
  by_cases hpassword : srv.apiPassword = []
  · rw [if_pos (show (srv.params headers playlistUrl).apiPassword = [] from hpassword)] at hopt
    have hcall := call_plain hsrv.codes hsrv.alphabet hvalued hplain iv minted later clientIp
    rw [hsame none hopt] at hcall
    rw [hpassword]
    exact ⟨_, hcall⟩
  · rw [if_neg (show (srv.params headers playlistUrl).apiPassword ≠ [] from hpassword)] at hopt
    have hcall := call_encrypted hsrv.codes huris (hsrv.mints hpassword (g.payload minted)) hiv hpassword
      hvalued hplain later clientIp
    rw [hsame (some srv.apiPassword) hopt] at hcall
    exact ⟨_, hcall⟩

end Fitting

end MediaFlow
