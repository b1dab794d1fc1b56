import MediaFlow.Server.Request

/-!
# The authentication middleware

`auth/middleware.rs`: what is done with a request before it is routed. `call` gives the request that
is passed on to the router, or the error that is answered.
-/

open Text Json UrlCoding

namespace MediaFlow

def openEndpoints : List Str :=
  ["/proxy/generate_url".toList, "/generate_url".toList, "/generate_urls".toList,
    "/generate_encrypted_or_encoded_url".toList, "/health".toList, "/speedtest".toList,
    "/url-generator".toList, "/playlist/builder".toList]

/-- `Path::extension`: of the last component, `.` components apart, what follows its last dot. There
is none when the dot is its first character. -/
def pathExtension (path : Str) : Option Str :=
  match ((path.splitOn '/').filter fun name => name ≠ [] ∧ name ≠ ['.']).getLast? with
  | none => none
  | some name =>
    if name = "..".toList then none
    else
      match splitOnce '.' name.reverse with
      | none => none
      | some (extension, stem) => if stem = [] then none else some extension.reverse

def staticExtensions : List Str :=
  ["html".toList, "js".toList, "css".toList, "png".toList, "jpg".toList, "jpeg".toList,
    "ico".toList, "svg".toList, "woff".toList, "woff2".toList, "ttf".toList]

/-- Static web UI assets (html/js/css/images) are public — they contain no secrets. -/
def isStaticAsset (path : Str) : Bool :=
  path = ['/'] || (pathExtension path).any fun e => staticExtensions.contains e

/-- A query parameter that is a request header or a response header. -/
def addHeader (headers : Map × Map) (member : Str × Value) : Map × Map :=
  match stripPrefix "h_".toList member.1 with
  | some stripped => (headers.1.insert stripped member.2, headers.2)
  | none =>
    match stripPrefix "r_".toList member.1 with
    | some stripped => (headers.1, headers.2.insert stripped member.2)
    | none => headers

/-- `ProxyData` from the query parameters: `d` or `url` is the destination, `h_*` are request headers
and `r_*` response headers. -/
def buildProxyDataFromQuery (queryParams : Map) : ProxyData :=
  let destination := (((queryParams.lookup "d".toList).or (queryParams.lookup "url".toList)).bind
    Value.asStr).getD []
  let headers := queryParams.foldl addHeader ([], [])
  { destination := destination
    queryParams := some (.object queryParams)
    requestHeaders := some (.object headers.1)
    responseHeaders := some (.object headers.2)
    exp := none
    ip := none }

/-- The members of an object with string values, and none of anything else. -/
def stringMembers : Option Value → List (Str × Str)
  | some (.object members) => members.filterMap fun (k, v) => v.asStr.map (k, ·)
  | _ => []

section Web

variable (web : WebCrates)

/-- `urlencoding::decode`, or the text as it is. -/
def urldecodeOr (s : Str) : Str := (web.urldecode s).getD s

/-- One pair of a query string; it counts when it has a name and a value. -/
def extractParam (params : Map) (pair : Str) : Map :=
  match splitOnce '=' pair with
  | some (key, value) =>
    if key ≠ [] ∧ value ≠ [] then params.insert key (.string (urldecodeOr web value)) else params
  | none => params

/-- `AuthMiddleware::extract_query_params`. -/
def extractQueryParams (queryString : Str) : Map :=
  (queryString.splitOn '&').foldl (extractParam web) []

/-- The parameters of a query string that are kept beside those of a token. -/
def keptPairs (existingQs : Str) : List (Str × Str) :=
  if existingQs = [] then []
  else
    (existingQs.splitOn '&').filterMap fun segment =>
      match splitOnce '=' segment with
      | some (k, v) =>
        if k ≠ "token".toList ∧ k ≠ "api_password".toList then some (k, urldecodeOr web v) else none
      | none => none

/-- The parameters of a payload. -/
def payloadPairs (proxyData : ProxyData) : List (Str × Str) :=
  (if proxyData.destination = [] then [] else [("d".toList, proxyData.destination)])
    ++ stringMembers proxyData.queryParams
    ++ (stringMembers proxyData.requestHeaders).map (fun (k, v) => ("h_".toList ++ k, v))
    ++ (stringMembers proxyData.responseHeaders).map (fun (k, v) => ("r_".toList ++ k, v))

/-- One parameter of a query string. -/
def queryPair (pair : Str × Str) : Str := pair.1 ++ '=' :: web.urlencode pair.2

/-- Reconstruct a query string from a decrypted `ProxyData`, so that every handler can read it as if
the parameters had never been encrypted. -/
def buildQueryFromProxyData (proxyData : ProxyData) (existingQs : Str) : Str :=
  ['&'].intercalate ((keptPairs web existingQs ++ payloadPairs proxyData).map (queryPair web))

/-- A path with a query, if there is one. -/
def pathAndQuery (path query : Str) : Str :=
  if query = [] then path else path ++ '?' :: query

structure AuthMiddleware where
  encryptionHandler : Option EncryptionHandler
  apiPassword : Str

def AuthMiddleware.new (apiPassword : Str) : AuthMiddleware where
  encryptionHandler := if apiPassword = [] then none else some (.new (utf8 apiPassword))
  apiPassword := apiPassword

namespace AuthMiddleware

variable (crates : TokenCrates) (now : ℕ) (mw : AuthMiddleware)

def noPasswordMessage : Str :=
  ("Server has no api_password configured but request carries an encrypted token. " ++
    "Set APP__AUTH__API_PASSWORD on the server to the same value used to mint the token.").toList

/-- The operator has set no password. -/
def callWithoutPassword (req : Request) : Except AppError Request :=
  let queryParams := extractQueryParams web req.queryString
  if "/_token_".toList.isPrefixOf req.path ∨ (queryParams.lookup "token".toList).isSome then
    .error (.auth noPasswordMessage)
  else .ok { req with proxyData := some (buildProxyDataFromQuery queryParams) }

/-- The token of a path, and the path that remains. -/
def splitPathToken (afterMarker : Str) : Str × Str :=
  match find ['/'] afterMarker with
  | some pos => (afterMarker.take pos, afterMarker.drop pos)
  | none => (afterMarker, ['/'])

/-- A path token: `/_token_{encrypted_token}/endpoint`. -/
def callPathToken (handler : EncryptionHandler) (req : Request) (afterMarker : Str) :
    Except AppError Request := do
  let (token, remainingPath) := splitPathToken afterMarker
  let proxyData ← handler.decrypt crates now token req.realipRemoteAddr
  let qs := buildQueryFromProxyData web proxyData req.queryString
  match web.parseUri (pathAndQuery remainingPath qs) with
  | none =>
    .error (.internal "Failed to rewrite request URI after token extraction".toList)
  | some newUri => .ok { req with uri := newUri, proxyData := some proxyData }

/-- A token among the query parameters. -/
def callQueryToken (handler : EncryptionHandler) (req : Request) (token : Str) :
    Except AppError Request := do
  let proxyData ← handler.decrypt crates now token req.realipRemoteAddr
  let qs := buildQueryFromProxyData web proxyData []
  let newUri := (web.parseUri (pathAndQuery req.path qs)).getD req.uri
  return { req with uri := newUri, proxyData := some proxyData }

/-- The direct password. -/
def callPassword (req : Request) (queryParams : Map) : Except AppError Request :=
  match (queryParams.lookup "api_password".toList).bind Value.asStr with
  | some password =>
    if password = mw.apiPassword then
      .ok { req with proxyData := some (buildProxyDataFromQuery queryParams) }
    else .error (.auth "Invalid or missing authentication".toList)
  | none => .error (.auth "Invalid or missing authentication".toList)

/-- A request without a path token. -/
def callQuery (req : Request) : Except AppError Request :=
  if openEndpoints.contains req.path ∨ isStaticAsset req.path then .ok req
  else
    let queryParams := extractQueryParams web req.queryString
    match (queryParams.lookup "token".toList).bind Value.asStr, mw.encryptionHandler with
    | some token, some handler => callQueryToken web crates now handler req token
    | _, _ => callPassword mw req queryParams

/-- `AuthMiddlewareService::call`, up to the call of the wrapped service. -/
def call (req : Request) : Except AppError Request :=
  if mw.apiPassword = [] then callWithoutPassword web req
  else
    match stripPrefix "/_token_".toList req.path, mw.encryptionHandler with
    | some afterMarker, some handler => callPathToken web crates now handler req afterMarker
    | _, _ => callQuery web crates now mw req

end AuthMiddleware

end Web

/-! ### Path tokens -/

section PathToken

variable {web : WebCrates} {crates : TokenCrates} {now : ℕ} {handler : EncryptionHandler}
  {req passed : Request} {afterMarker : Str}

theorem call_of_pathToken {mw : AuthMiddleware} (hpassword : mw.apiPassword ≠ [])
    (hpath : stripPrefix "/_token_".toList req.path = some afterMarker)
    (hhandler : mw.encryptionHandler = some handler) :
    mw.call web crates now req =
      AuthMiddleware.callPathToken web crates now handler req afterMarker := by
  unfold AuthMiddleware.call
  rw [if_neg hpassword, hpath, hhandler]

/-- A token that is part of the path: it is accepted, and the rest of the path is a URI. -/
theorem callPathToken_ok_iff :
    AuthMiddleware.callPathToken web crates now handler req afterMarker = .ok passed ↔
      ∃ proxyData newUri,
        handler.decrypt crates now (AuthMiddleware.splitPathToken afterMarker).1
          req.realipRemoteAddr = .ok proxyData ∧
        web.parseUri (pathAndQuery (AuthMiddleware.splitPathToken afterMarker).2
          (buildQueryFromProxyData web proxyData req.queryString)) = some newUri ∧
        passed = { req with uri := newUri, proxyData := some proxyData } := by
  unfold AuthMiddleware.callPathToken
  cases hdec : handler.decrypt crates now (AuthMiddleware.splitPathToken afterMarker).1
      req.realipRemoteAddr with
  | error e =>
    simp only [hdec]
    constructor
    · intro h
      cases h
    · rintro ⟨_, _, h, -⟩
      cases h
  | ok proxyData =>
    simp only [hdec]
    dsimp only [bind, Except.bind]
    cases huri : web.parseUri (pathAndQuery (AuthMiddleware.splitPathToken afterMarker).2
        (buildQueryFromProxyData web proxyData req.queryString)) with
    | none =>
      constructor
      · intro h
        cases h
      · rintro ⟨_, _, hpd, h, -⟩
        cases hpd
        rw [huri] at h
        cases h
    | some newUri =>
      constructor
      · intro h
        exact ⟨proxyData, newUri, rfl, huri, (Except.ok.inj h).symm⟩
      · rintro ⟨_, _, hpd, h, rfl⟩
        cases hpd
        rw [huri] at h
        cases h
        rfl

end PathToken

end MediaFlow
