import MediaFlow.Auth.Middleware
import MediaFlow.Server.Routes

/-!
# What reaches a handler without authentication

With a password configured, the middleware lets a request pass that carries the password or a token,
and it lets every path pass that is an open endpoint or that ends like a static file. The decision
on the path is taken before routing, and routes with a placeholder in their last segment take paths
that end like static files too.

* `call_ok`: what a request that passes is;
* `openEndpoints_open`: the open endpoints are routed to handlers that are for everyone;
* `authenticatesFirst_iff`: when a handler is reached by authenticated requests only.
-/

open Text Json Routing

namespace MediaFlow

/-- What is relied on of the router: patterns and scopes are compared with the path, in which
nothing changes when it has no escapes. -/
structure WebCrates.RoutesPaths (web : WebCrates) : Prop where
  matcher : web.matcher = standardMatcher
  requote : ∀ {path : Str}, '%' ∉ path → web.requote path = path

section Carried

variable (web : WebCrates) (crates : TokenCrates) (now : ℕ) (mw : AuthMiddleware)

/-- A query string carries a parameter. -/
def CarriesParam (query key value : Str) : Prop :=
  ∃ pair ∈ query.splitOn '&', ∃ v, splitOnce '=' pair = some (key, v) ∧ urldecodeOr web v = value

/-- `decrypt` accepts a token of this request. -/
def Accepts (req : Request) (token : Str) : Prop :=
  ∃ handler proxyData, mw.encryptionHandler = some handler ∧
    handler.decrypt crates now token req.realipRemoteAddr = .ok proxyData

/-- The request carries the password, or a token (in its query or its path) that is accepted. -/
inductive Authenticated (req : Request) : Prop where
  | password : CarriesParam web req.queryString "api_password".toList mw.apiPassword →
      Authenticated req
  | queryToken {token : Str} : CarriesParam web req.queryString "token".toList token →
      Accepts crates now mw req token → Authenticated req
  | pathToken {afterMarker : Str} : stripPrefix "/_token_".toList req.path = some afterMarker →
      Accepts crates now mw req (AuthMiddleware.splitPathToken afterMarker).1 → Authenticated req

end Carried

/-- Handlers that are not for everyone are reached by authenticated requests only. -/
def AuthenticatesFirst (web : WebCrates) (crates : TokenCrates) (features : Features) (now : ℕ)
    (mw : AuthMiddleware) (req : Request) : Prop :=
  ∀ passed h, mw.call web crates now req = .ok passed → Reaches web features passed h →
    h.isOpen = false → Authenticated web crates now mw req

/-! ### The query parameters -/

variable {web : WebCrates} {crates : TokenCrates} {now : ℕ}

/-- A parameter that is extracted is one of the pairs, and has a value. -/
theorem lookup_extractQueryParams {query key : Str} {v : Value}
    (h : (extractQueryParams web query).lookup key = some v) :
    ∃ pair ∈ query.splitOn '&', ∃ value, splitOnce '=' pair = some (key, value) ∧ value ≠ [] ∧
      v = .string (urldecodeOr web value) := by
  -- the last pair of this name decides, so the pairs are taken from the end
  unfold extractQueryParams at h
  generalize query.splitOn '&' = pairs at h ⊢
  induction pairs using List.reverseRecOn with
  | nil => cases h
  | append_singleton pairs pair ih =>
    have hearlier : (pairs.foldl (extractParam web) []).lookup key = some v →
        ∃ p ∈ pairs ++ [pair], ∃ value, splitOnce '=' p = some (key, value) ∧ value ≠ [] ∧
          v = .string (urldecodeOr web value) := fun h =>
      (ih h).imp fun p hp => ⟨List.mem_append_left _ hp.1, hp.2⟩
    rw [List.foldl_append, List.foldl_cons, List.foldl_nil, extractParam] at h
    cases hsplit : splitOnce '=' pair with
    | none =>
      rw [hsplit] at h
      exact hearlier h
    | some kv =>
      obtain ⟨k, value⟩ := kv
      simp only [hsplit] at h
      by_cases hne : k ≠ [] ∧ value ≠ []
      · rw [if_pos hne] at h
        by_cases hk : key = k
        · rw [hk, Map.lookup_insert_self] at h
          exact ⟨pair, by simp, value, by rw [hsplit, hk], hne.2, (Option.some.inj h).symm⟩
        · rw [Map.lookup_insert_of_ne hk] at h
          exact hearlier h
      · rw [if_neg hne] at h
        exact hearlier h

theorem carriesParam_of_lookup {query key value : Str}
    (h : ((extractQueryParams web query).lookup key).bind Value.asStr = some value) :
    CarriesParam web query key value := by
  obtain ⟨v, hv, hstr⟩ := Option.bind_eq_some_iff.mp h
  obtain ⟨pair, hmem, raw, hsplit, -, rfl⟩ := lookup_extractQueryParams hv
  exact ⟨pair, hmem, raw, hsplit, Option.some.inj hstr⟩

/-! ### What passes -/

theorem encryptionHandler_new {apiPassword : Str} (h : apiPassword ≠ []) :
    (AuthMiddleware.new apiPassword).encryptionHandler
      = some (.new (UrlCoding.utf8 apiPassword)) :=
  if_neg h

/-- A token in the query: it is accepted. -/
theorem callQueryToken_ok_iff {handler : EncryptionHandler} {req passed : Request} {token : Str} :
    AuthMiddleware.callQueryToken web crates now handler req token = .ok passed ↔
      ∃ proxyData, handler.decrypt crates now token req.realipRemoteAddr = .ok proxyData ∧
        passed = { req with
          uri := (web.parseUri (pathAndQuery req.path
            (buildQueryFromProxyData web proxyData []))).getD req.uri
          proxyData := some proxyData } := by
  unfold AuthMiddleware.callQueryToken
  cases hdec : handler.decrypt crates now token req.realipRemoteAddr with
  | error e => exact ⟨(fun h => nomatch h), fun ⟨_, h, _⟩ => nomatch h⟩
  | ok proxyData =>
    constructor
    · intro h
      exact ⟨proxyData, rfl, (Except.ok.inj h).symm⟩
    · rintro ⟨_, hpd, rfl⟩
      cases hpd
      rfl

/-- The password: it is the configured one. -/
theorem callPassword_ok_iff {mw : AuthMiddleware} {req passed : Request} {queryParams : Map} :
    mw.callPassword req queryParams = .ok passed ↔
      (queryParams.lookup "api_password".toList).bind Value.asStr = some mw.apiPassword ∧
        passed = { req with proxyData := some (buildProxyDataFromQuery queryParams) } := by
  unfold AuthMiddleware.callPassword
  cases (queryParams.lookup "api_password".toList).bind Value.asStr with
  | none => exact ⟨(fun h => nomatch h), fun ⟨h, _⟩ => nomatch h⟩
  | some password =>
    show (if password = mw.apiPassword then _ else _) = _ ↔ _
    by_cases heq : password = mw.apiPassword
    · rw [if_pos heq, heq]
      exact ⟨fun h => ⟨rfl, (Except.ok.inj h).symm⟩, fun ⟨_, h⟩ => by rw [h]⟩
    · rw [if_neg heq]
      exact ⟨(fun h => nomatch h), fun ⟨h, _⟩ => absurd (Option.some.inj h) heq⟩

theorem call_of_noPathToken {apiPassword : Str} (hpw : apiPassword ≠ []) {req : Request}
    (h : stripPrefix "/_token_".toList req.path = none) :
    (AuthMiddleware.new apiPassword).call web crates now req
      = (AuthMiddleware.new apiPassword).callQuery web crates now req := by
  unfold AuthMiddleware.call
  rw [if_neg (show (AuthMiddleware.new apiPassword).apiPassword ≠ [] from hpw), h]

/-- A query that decides: a token goes before a password. -/
theorem callQuery_of_closed {apiPassword : Str} (hpw : apiPassword ≠ []) {req : Request}
    (h : ¬ (openEndpoints.contains req.path = true ∨ isStaticAsset req.path = true)) :
    (AuthMiddleware.new apiPassword).callQuery web crates now req
      = match ((extractQueryParams web req.queryString).lookup "token".toList).bind Value.asStr with
        | some token => AuthMiddleware.callQueryToken web crates now
            (.new (UrlCoding.utf8 apiPassword)) req token
        | none => (AuthMiddleware.new apiPassword).callPassword req
            (extractQueryParams web req.queryString) := by
  unfold AuthMiddleware.callQuery
  rw [if_neg h, encryptionHandler_new hpw]
  cases htoken : ((extractQueryParams web req.queryString).lookup "token".toList).bind
      Value.asStr with
  | none => simp only [htoken]
  | some token => simp only [htoken]

/-- **What passes**: authenticated requests, and paths that are open endpoints or end like static
files, which pass as they are. -/
theorem call_ok {apiPassword : Str} (hpw : apiPassword ≠ []) {req passed : Request}
    (h : (AuthMiddleware.new apiPassword).call web crates now req = .ok passed) :
    Authenticated web crates now (.new apiPassword) req ∨
      stripPrefix "/_token_".toList req.path = none ∧ passed = req ∧
        (req.path ∈ openEndpoints ∨ isStaticAsset req.path = true) := by
  have hhandler := encryptionHandler_new hpw
  have hpassword : (AuthMiddleware.new apiPassword).apiPassword ≠ [] := hpw
  cases hmarker : stripPrefix "/_token_".toList req.path with
  | some afterMarker =>
    rw [call_of_pathToken hpassword hmarker hhandler] at h
    obtain ⟨proxyData, newUri, hdec, -, -⟩ := callPathToken_ok_iff.mp h
    exact .inl (.pathToken hmarker ⟨_, proxyData, hhandler, hdec⟩)
  | none =>
    rw [call_of_noPathToken hpw hmarker] at h
    by_cases hopen : openEndpoints.contains req.path = true ∨ isStaticAsset req.path = true
    · unfold AuthMiddleware.callQuery at h
      rw [if_pos hopen] at h
      exact .inr ⟨rfl, (Except.ok.inj h).symm, hopen.imp List.contains_iff_mem.mp id⟩
    rw [callQuery_of_closed hpw hopen] at h
    split at h
    · next token htoken =>
      obtain ⟨proxyData, hdec, -⟩ := callQueryToken_ok_iff.mp h
      exact .inl (.queryToken (carriesParam_of_lookup htoken) ⟨_, proxyData, hhandler, hdec⟩)
    · exact .inl (.password (carriesParam_of_lookup (callPassword_ok_iff.mp h).1))

/-! ### The open endpoints -/

/-- The handlers of the routes that match a path, whatever their guards say. -/
def matchingHandlers (path : Str) : Service Guard Handler → List Handler
  | .route r => if (standardMatcher.captures r.pattern path).isSome then [r.handler] else []
  | .scope p routes =>
    match below p path with
    | none => []
    | some rest => .defaultService :: (routes.filter fun r =>
        (standardMatcher.captures r.pattern rest).isSome).map Route.handler

theorem mem_matchingHandlers {path : Str} {admits : Guard → Bool} {s : Service Guard Handler}
    {result : Handler × List Str}
    (h : s.recognize standardMatcher admits .defaultService path = some result) :
    result.1 ∈ matchingHandlers path s := by
  -- a route that is taken matches
  have hroute : ∀ {path : Str} {r : Route Guard Handler} {result : Handler × List Str},
      r.recognize standardMatcher admits path = some result →
      r.handler = result.1 ∧ (standardMatcher.captures r.pattern path).isSome = true := by
    intro path r result h
    unfold Route.recognize at h
    split at h
    · obtain ⟨values, hvalues, rfl⟩ := Option.map_eq_some_iff.mp h
      exact ⟨rfl, by rw [hvalues]; rfl⟩
    · cases h
  cases s with
  | route r =>
    obtain ⟨hhandler, hmatch⟩ := hroute h
    rw [matchingHandlers, if_pos hmatch, hhandler]
    exact List.mem_singleton_self _
  | scope p routes =>
    obtain ⟨rest, hrest, rfl⟩ := Option.map_eq_some_iff.mp h
    rw [matchingHandlers, show below p path = some rest from hrest]
    cases hfind : routes.findSome? (Route.recognize standardMatcher admits rest) with
    | none => exact List.mem_cons_self
    | some found =>
      obtain ⟨r, hr, hrec⟩ := List.exists_of_findSome?_eq_some hfind
      obtain ⟨hhandler, hmatch⟩ := hroute hrec
      refine List.mem_cons_of_mem _ (List.mem_map.mpr ⟨r, List.mem_filter.mpr ⟨hr, hmatch⟩, ?_⟩)
      exact hhandler

/-- All services, whatever the features. -/
def allServices : List (Service Guard Handler) :=
  rootRoutes ++ [hlsScope] ++ [mpdScope] ++ [telegramScope] ++ [transcodeScope] ++ [acestreamScope]
    ++ [extractorScope] ++ [proxyScope] ++ xtreamRoutes.map .route ++ uiRoutes
    ++ [.route (get "/" .indexHandler)]

theorem whenEnabled_subset (enabled : Bool) (services : List (Service Guard Handler)) :
    whenEnabled enabled services ⊆ services := by
  cases enabled with
  | true => exact List.Subset.refl _
  | false => exact List.nil_subset _

theorem append_subset_append {l₁ l₂ l₃ l₄ : List (Service Guard Handler)} (h : l₁ ⊆ l₂)
    (h' : l₃ ⊆ l₄) : l₁ ++ l₃ ⊆ l₂ ++ l₄ :=
  List.append_subset.mpr ⟨List.subset_append_of_subset_left _ h,
    List.subset_append_of_subset_right _ h'⟩

theorem routeTable_subset (features : Features) : routeTable features ⊆ allServices := by
  unfold routeTable allServices
  repeat' apply append_subset_append
  all_goals first
    | exact List.Subset.refl _
    | exact whenEnabled_subset _ _

/-- **The open endpoints are routed to handlers that are for everyone**, by every method and with
every choice of features. -/
theorem openEndpoints_open (hweb : web.RoutesPaths) (features : Features) {req : Request}
    (h : req.path ∈ openEndpoints) : (routed web features req).1.isOpen = true := by
  have hall : (openEndpoints.all fun path =>
      !path.contains '%' && (allServices.flatMap (matchingHandlers path)).all Handler.isOpen)
        = true := by
    decide +kernel
  have hpath := List.all_eq_true.mp hall _ h
  rw [Bool.and_eq_true] at hpath
  obtain ⟨hescape, hopen⟩ := hpath
  have hquote : web.requote req.path = req.path := by
    refine hweb.requote fun hmem => ?_
    rw [List.contains_iff_mem.mpr hmem] at hescape
    cases hescape
  unfold routed dispatch
  rw [hquote, hweb.matcher]
  cases hfind : (routeTable features).findSome?
      (Service.recognize standardMatcher (Guard.admits req) .defaultService req.path) with
  | none => rfl
  | some result =>
    obtain ⟨s, hs, hrec⟩ := List.exists_of_findSome?_eq_some hfind
    refine List.all_eq_true.mp hopen _ (List.mem_flatMap.mpr ⟨s, routeTable_subset features hs, ?_⟩)
    exact mem_matchingHandlers hrec

/-! ### The condition -/

/-- A path that ends like a static file passes as it is. -/
theorem call_of_isStaticAsset {apiPassword : Str} (hpw : apiPassword ≠ []) {req : Request}
    (hmarker : stripPrefix "/_token_".toList req.path = none)
    (h : isStaticAsset req.path = true) :
    (AuthMiddleware.new apiPassword).call web crates now req = .ok req := by
  rw [call_of_noPathToken hpw hmarker]
  exact if_pos (.inr h)

/-- **When handlers are reached by authenticated requests only**: when the path does not end like a
static file, or has a path token, or is routed to a handler that is for everyone or one that takes
`ProxyData`; and for requests that are authenticated anyway. -/
theorem authenticatesFirst_iff (hweb : web.RoutesPaths) (features : Features) {apiPassword : Str}
    (hpw : apiPassword ≠ []) {req : Request} (hfresh : req.proxyData = none) :
    AuthenticatesFirst web crates features now (.new apiPassword) req ↔
      (isStaticAsset req.path = true →
        (stripPrefix "/_token_".toList req.path).isSome = true ∨
          (routed web features req).1.isOpen = true ∨
          (routed web features req).1.takesProxyData = true) ∨
        Authenticated web crates now (.new apiPassword) req := by
  constructor
  · intro h
    by_contra hnot
    obtain ⟨hcond, hauth⟩ := not_or.mp hnot
    obtain ⟨hstatic, hcond⟩ := Classical.not_imp.mp hcond
    obtain ⟨hmarker, hcond⟩ := not_or.mp hcond
    obtain ⟨hopen, htakes⟩ := not_or.mp hcond
    rw [Bool.not_eq_true, Option.isSome_eq_false_iff, Option.isNone_iff_eq_none] at hmarker
    refine hauth (h req _ (call_of_isStaticAsset hpw hmarker hstatic) ⟨rfl, ?_⟩ ?_)
    · exact fun ht => absurd ht htakes
    · exact Bool.not_eq_true _ ▸ hopen
  · intro hcond passed h hcall hreach hprotected
    rcases call_ok hpw hcall with hauth | ⟨hmarker, rfl, hpath⟩
    · exact hauth
    rcases hcond with hcond | hauth
    · exfalso
      obtain ⟨hrouted, hproxy⟩ := hreach
      rcases hpath with hpath | hstatic
      · have hopen := openEndpoints_open hweb features hpath
        rw [hrouted, hprotected] at hopen
        cases hopen
      · rcases hcond hstatic with hsome | hopen | htakes
        · rw [hmarker] at hsome
          cases hsome
        · rw [hrouted, hprotected] at hopen
          cases hopen
        · rw [hrouted] at htakes
          exact hproxy htakes hfresh
    · exact hauth

/-! ### A path that ends like a script -/

theorem standardWeb_routesPaths : standardWeb.RoutesPaths := ⟨rfl, fun _ => rfl⟩

/-- Crates that accept no token. -/
def noTokens : TokenCrates :=
  ⟨fun _ => .error [], fun _ _ _ => none, fun _ => none, fun _ => .error []⟩

def getRequest (path query : String) : Request :=
  ⟨.get, ⟨path.toList, query.toList⟩, some "192.0.2.1".toList, none⟩

/-- The endpoint of another scope with the same ending takes `ProxyData`. -/
theorem authenticatesFirst_hlsSegment :
    AuthenticatesFirst standardWeb noTokens {} 0 (.new "secret".toList)
      (getRequest "/proxy/hls/segment.js" "d=http://cdn.example/1.ts") :=
  (authenticatesFirst_iff standardWeb_routesPaths {} (by decide) rfl).mpr
    (.inl fun _ => .inr (.inr (by decide +kernel)))

/-- An acestream segment is fetched for everyone who asks for it as a script. -/
theorem segmentJs_not_authenticatesFirst :
    ¬ AuthenticatesFirst standardWeb noTokens {} 0 (.new "secret".toList)
      (getRequest "/proxy/acestream/segment.js" "d=http://cdn.example/1.ts") := by
  intro h
  have hcall : (AuthMiddleware.new "secret".toList).call standardWeb noTokens 0
      (getRequest "/proxy/acestream/segment.js" "d=http://cdn.example/1.ts") = .ok _ :=
    call_of_isStaticAsset (by decide) (by decide) (by decide +kernel)
  have hreach : Reaches standardWeb {}
      (getRequest "/proxy/acestream/segment.js" "d=http://cdn.example/1.ts")
      .acestreamSegmentHandler := by
    refine ⟨by decide +kernel, fun ht => ?_⟩
    cases ht
  cases h _ _ hcall hreach rfl with
  | password hcarries =>
    obtain ⟨pair, hmem, v, hsplit, -⟩ := hcarries
    have hpairs : (getRequest "/proxy/acestream/segment.js"
        "d=http://cdn.example/1.ts").queryString.splitOn '&'
          = ["d=http://cdn.example/1.ts".toList] := by decide +kernel
    rw [hpairs] at hmem
    rw [List.mem_singleton.mp hmem] at hsplit
    have hkey : (splitOnce '=' "d=http://cdn.example/1.ts".toList).map Prod.fst
        = some "api_password".toList := by
      rw [hsplit]
      rfl
    revert hkey
    decide +kernel
  | queryToken _ haccepts =>
    obtain ⟨handler, proxyData, -, hdec⟩ := haccepts
    cases hdec
  | pathToken _ haccepts =>
    obtain ⟨handler, proxyData, -, hdec⟩ := haccepts
    cases hdec

end MediaFlow
