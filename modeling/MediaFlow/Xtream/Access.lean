import MediaFlow.Auth.Bypass
import MediaFlow.Xtream.Auth

/-!
# Access to the Xtream Codes handlers

The handlers of `xtream/handler.rs` check the password that the user name embeds. The middleware
decides first, on the query and on the ending of the path, and does not look at user names.

* `reachesXtream_iff`: which of the requests that a handler would accept get there.
-/

open Text Json Routing

namespace MediaFlow

/-- How many placeholders a handler reads from the path, for those that read any. -/
def Handler.pathArity : Handler → Option ℕ
  | .liveStreamHandler | .movieStreamHandler => some 4
  | .seriesStreamHandler => some 6
  | .timeshiftHandler => some 5
  | .shortStreamHandler => some 3
  | _ => none

/-- The user name that a handler reads: the first placeholder, when there are as many as it takes,
or the parameter of this name, when there is a password too. -/
def xcUsername (web : WebCrates) (req : Request) (h : Handler) (values : List Str) : Option Str :=
  match h.pathArity with
  | some arity => if arity ≤ values.length then values.head?.map web.pathValue else none
  | none => do
    let username ← web.query req "username".toList
    let _ ← web.query req "password".toList
    return username

/-- The check of a handler accepts the request. -/
def XcAccepts (web : WebCrates) (base64 : Base64Crate) (apiPassword : Str) (req : Request)
    (h : Handler) (values : List Str) : Prop :=
  ∃ username creds, xcUsername web req h values = some username ∧
    parseUsernameWithUpstream base64 username = .ok creds ∧
    verifyXcApiPassword creds.apiPassword apiPassword = .ok ()

/-- A path as it is received. -/
structure Uri.WellFormed (uri : Uri) : Prop where
  slash : uri.path.head? = some '/'
  question : '?' ∉ uri.path
  fragment : '#' ∉ uri.path

/-- What is relied on of the parser of URIs: a path stays a path when a query is added. -/
def WebCrates.ParsesPaths (web : WebCrates) : Prop :=
  ∀ {uri newUri : Uri} {query : Str}, uri.WellFormed →
    web.parseUri (pathAndQuery uri.path query) = some newUri → newUri.path = uri.path

/-- The middleware lets a request pass on its query or on its path: the path ends like a static
file, or the query has a token that is accepted, or it has no token and the password. -/
def PassesOnQuery (web : WebCrates) (crates : TokenCrates) (now : ℕ) (mw : AuthMiddleware)
    (req : Request) : Prop :=
  isStaticAsset req.path = true ∨
    match ((extractQueryParams web req.queryString).lookup "token".toList).bind Value.asStr with
    | some token => Accepts crates now mw req token
    | none => ((extractQueryParams web req.queryString).lookup "api_password".toList).bind
        Value.asStr = some mw.apiPassword

/-- The user name at the front of the path is a path token that is accepted, and what is left is
routed to the same handler. -/
def PassesOnPathToken (web : WebCrates) (crates : TokenCrates) (features : Features) (now : ℕ)
    (mw : AuthMiddleware) (req : Request) (h : Handler) : Prop :=
  ∃ afterMarker handler proxyData newUri,
    stripPrefix "/_token_".toList req.path = some afterMarker ∧
    mw.encryptionHandler = some handler ∧
    handler.decrypt crates now (AuthMiddleware.splitPathToken afterMarker).1 req.realipRemoteAddr
      = .ok proxyData ∧
    web.parseUri (pathAndQuery (AuthMiddleware.splitPathToken afterMarker).2
      (buildQueryFromProxyData web proxyData req.queryString)) = some newUri ∧
    (routed web features { req with uri := newUri, proxyData := some proxyData }).1 = h

/-- The request reaches the handler. -/
def ReachesXtream (web : WebCrates) (crates : TokenCrates) (features : Features) (now : ℕ)
    (mw : AuthMiddleware) (req : Request) (h : Handler) : Prop :=
  ∃ passed, mw.call web crates now req = .ok passed ∧ (routed web features passed).1 = h

/-- An Xtream request that its handler accepts reaches the handler. -/
def LetsXtreamThrough (web : WebCrates) (crates : TokenCrates) (base64 : Base64Crate)
    (features : Features) (now : ℕ) (mw : AuthMiddleware) (req : Request) : Prop :=
  ∀ h values, routed web features req = (h, values) → h.isXtream = true →
    XcAccepts web base64 mw.apiPassword req h values →
    ReachesXtream web crates features now mw req h

variable {web : WebCrates} {crates : TokenCrates} {now : ℕ} {features : Features}

/-- Routing looks at the method and at the path only. -/
theorem routed_congr {req req' : Request} (hmethod : req'.method = req.method)
    (hpath : req'.path = req.path) : routed web features req' = routed web features req := by
  have hadmits : Guard.admits req' = Guard.admits req := by
    ext g
    unfold Guard.admits notInternalPrefix
    rw [hmethod, hpath]
  unfold routed
  rw [hadmits, hpath]

/-- An open endpoint is not routed to an Xtream handler. -/
theorem not_mem_openEndpoints (hweb : web.RoutesPaths) {req : Request} {h : Handler}
    {values : List Str} (hrouted : routed web features req = (h, values))
    (hxtream : h.isXtream = true) : req.path ∉ openEndpoints := by
  intro hmem
  have hopen := openEndpoints_open hweb features hmem
  rw [hrouted, Handler.isOpen_of_isXtream hxtream] at hopen
  cases hopen

/-- Which requests for an Xtream handler get there. -/
theorem reachesXtream_iff (hweb : web.RoutesPaths) (hparse : web.ParsesPaths) {apiPassword : Str}
    (hpw : apiPassword ≠ []) {req : Request} (huri : req.uri.WellFormed) {h : Handler}
    {values : List Str} (hrouted : routed web features req = (h, values))
    (hxtream : h.isXtream = true) :
    ReachesXtream web crates features now (.new apiPassword) req h ↔
      stripPrefix "/_token_".toList req.path = none ∧
          PassesOnQuery web crates now (.new apiPassword) req ∨
        PassesOnPathToken web crates features now (.new apiPassword) req h := by
  have hhandler := encryptionHandler_new hpw
  have hpassword : (AuthMiddleware.new apiPassword).apiPassword ≠ [] := hpw
  -- a request with the same method and path gets to the same handler
  have hsame : ∀ passed : Request, passed.method = req.method → passed.path = req.path →
      (routed web features passed).1 = h := by
    intro passed hmethod hpath
    rw [routed_congr hmethod hpath, hrouted]
  cases hmarker : stripPrefix "/_token_".toList req.path with
  | some afterMarker =>
    unfold ReachesXtream PassesOnPathToken
    rw [call_of_pathToken hpassword hmarker hhandler]
    constructor
    · rintro ⟨passed, hcall, hreach⟩
      obtain ⟨proxyData, newUri, hdec, huri, rfl⟩ := callPathToken_ok_iff.mp hcall
      exact .inr ⟨afterMarker, _, proxyData, newUri, hmarker, hhandler, hdec, huri, hreach⟩
    · rintro (⟨hnone, -⟩ | ⟨am, handler, proxyData, newUri, ham, hh, hdec, huri, hreach⟩)
      · cases hnone
      · rw [hmarker] at ham
        rw [hhandler] at hh
        cases ham
        cases hh
        exact ⟨_, callPathToken_ok_iff.mpr ⟨proxyData, newUri, hdec, huri, rfl⟩, hreach⟩
  | none =>
    have hnot : ¬ PassesOnPathToken web crates features now (.new apiPassword) req h := by
      rintro ⟨am, _, _, _, ham, _⟩
      rw [hmarker] at ham
      cases ham
    rw [or_iff_left hnot, and_iff_right rfl]
    unfold ReachesXtream PassesOnQuery
    rw [call_of_noPathToken hpw hmarker]
    by_cases hstatic : isStaticAsset req.path = true
    · refine ⟨fun _ => .inl hstatic, fun _ => ⟨req, if_pos (.inr hstatic), ?_⟩⟩
      exact hsame req rfl rfl
    have hclosed : ¬ (openEndpoints.contains req.path = true ∨ isStaticAsset req.path = true) := by
      rintro (hopen | hs)
      · exact not_mem_openEndpoints hweb hrouted hxtream (List.contains_iff_mem.mp hopen)
      · exact hstatic hs
    rw [callQuery_of_closed hpw hclosed, or_iff_right hstatic]
    cases ((extractQueryParams web req.queryString).lookup "token".toList).bind Value.asStr with
    | some token =>
      constructor
      · rintro ⟨passed, hcall, -⟩
        obtain ⟨proxyData, hdec, -⟩ := callQueryToken_ok_iff.mp hcall
        exact ⟨_, proxyData, hhandler, hdec⟩
      · rintro ⟨handler, proxyData, hh, hdec⟩
        rw [hhandler] at hh
        cases hh
        refine ⟨_, callQueryToken_ok_iff.mpr ⟨proxyData, hdec, rfl⟩, hsame _ rfl ?_⟩
        -- the path is that of the request, whether the new URI is parsed or not
        show ((web.parseUri (pathAndQuery req.path
          (buildQueryFromProxyData web proxyData []))).getD req.uri).path = req.path
        cases hnew : web.parseUri (pathAndQuery req.path
            (buildQueryFromProxyData web proxyData [])) with
        | none => rfl
        | some newUri => exact hparse huri hnew
    | none =>
      constructor
      · rintro ⟨passed, hcall, -⟩
        exact (callPassword_ok_iff.mp hcall).1
      · intro hlookup
        exact ⟨_, callPassword_ok_iff.mpr ⟨hlookup, rfl⟩, hsame _ rfl rfl⟩

/-- **When accepted Xtream requests are let through**: when the middleware lets them pass on their
query or on the ending of their path, or on a path token. -/
theorem letsXtreamThrough_iff (hweb : web.RoutesPaths) (hparse : web.ParsesPaths)
    (base64 : Base64Crate) {apiPassword : Str} (hpw : apiPassword ≠ []) {req : Request}
    (huri : req.uri.WellFormed) :
    LetsXtreamThrough web crates base64 features now (.new apiPassword) req ↔
      ∀ h values, routed web features req = (h, values) → h.isXtream = true →
        XcAccepts web base64 apiPassword req h values →
        stripPrefix "/_token_".toList req.path = none ∧
            PassesOnQuery web crates now (.new apiPassword) req ∨
          PassesOnPathToken web crates features now (.new apiPassword) req h := by
  constructor
  · intro hlets h values hrouted hxtream haccepts
    exact (reachesXtream_iff hweb hparse hpw huri hrouted hxtream).mp
      (hlets h values hrouted hxtream haccepts)
  · intro hcond h values hrouted hxtream haccepts
    exact (reachesXtream_iff hweb hparse hpw huri hrouted hxtream).mpr
      (hcond h values hrouted hxtream haccepts)

/-! ### A live stream with the password in its user name -/

/-- The user `u` of an upstream server, with the password `secret`. -/
def secretUser : Str := "aHR0cDovL3VwLmV4YW1wbGU6dTpzZWNyZXQ".toList

theorem parse_secretUser : parseUsernameWithUpstream standardBase64 secretUser
    = .ok ⟨"http://up.example/".toList, "u".toList, some "secret".toList⟩ := by
  have hparse : tryParseBase64Username standardBase64 secretUser
      = some ⟨"http://up.example/".toList, "u".toList, some "secret".toList⟩ := by
    decide +kernel
  unfold parseUsernameWithUpstream
  rw [hparse]

/-- A GET for a live stream of this user. -/
def liveRequest (query : String) : Request :=
  getRequest "/live/aHR0cDovL3VwLmV4YW1wbGU6dTpzZWNyZXQ/p/1.ts" query

theorem standardWeb_parsesPaths : standardWeb.ParsesPaths := by
  intro uri newUri query huri h
  obtain rfl := Option.some.inj h
  unfold splitUri pathAndQuery
  split
  · next hq =>
    split at hq
    · obtain ⟨heq, -⟩ := splitOnce_eq_some_iff.mp hq
      exact absurd (by rw [heq]; simp) huri.question
    · rw [splitOnce_of_not_mem huri.question] at hq
      cases hq
      rfl
  · next hq =>
    split
    · rfl
    · next hne =>
      rw [if_neg hne, splitOnce_of_not_mem huri.question] at hq
      cases hq

/-- With the password in the query too, it is let through. -/
theorem letsXtreamThrough_withPassword :
    LetsXtreamThrough standardWeb noTokens standardBase64 {} 0 (.new "secret".toList)
      (liveRequest "api_password=secret") :=
  (letsXtreamThrough_iff standardWeb_routesPaths standardWeb_parsesPaths standardBase64
    (by decide) ⟨by decide, by decide, by decide⟩).mpr fun _ _ _ _ _ =>
      .inl ⟨by decide +kernel, .inr (show ((extractQueryParams standardWeb
        "api_password=secret".toList).lookup "api_password".toList).bind Value.asStr
          = some "secret".toList by decide +kernel)⟩

/-- Without it, the middleware answers 401 to a request that the handler would accept. -/
theorem liveRequest_not_letsXtreamThrough :
    ¬ LetsXtreamThrough standardWeb noTokens standardBase64 {} 0 (.new "secret".toList)
      (liveRequest "") := by
  intro h
  have hrouted : routed standardWeb {} (liveRequest "")
      = (.liveStreamHandler, [secretUser, "p".toList, "1".toList, "ts".toList]) := by
    decide +kernel
  have haccepts : XcAccepts standardWeb standardBase64 "secret".toList (liveRequest "")
      .liveStreamHandler [secretUser, "p".toList, "1".toList, "ts".toList] :=
    ⟨secretUser, _, rfl, parse_secretUser, rfl⟩
  obtain ⟨passed, hcall, -⟩ := h _ _ hrouted rfl haccepts
  have herror : (AuthMiddleware.new "secret".toList).call standardWeb noTokens 0 (liveRequest "")
      = .error (.auth "Invalid or missing authentication".toList) := rfl
  rw [herror] at hcall
  cases hcall

end MediaFlow
