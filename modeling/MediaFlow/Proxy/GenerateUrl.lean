import MediaFlow.Auth.Middleware
import MediaFlow.Proxy.ForwardGuard
import MediaFlow.Xtream.Auth

/-!
# Generated URLs

`build_proxy_url` of `proxy/handler.rs`, which writes a request to the proxy as a URL, with its
parameters in a token or in the query string, and `resolve_stream_destination`, which reads the
destination back.
-/

open ByteString Text Json UrlCoding

namespace MediaFlow

/-- A request for a URL. Maps are in the order in which they are walked. -/
structure GenerateUrlRequest where
  mediaflowProxyUrl : Str
  endpoint : Option Str
  destinationUrl : Str
  queryParams : List (Str × Str)
  requestHeaders : List (Str × Str)
  responseHeaders : List (Str × Str)
  /-- Headers propagated to HLS and DASH segments (`rp_`). -/
  propagateResponseHeaders : List (Str × Str)
  /-- Response header names to strip (`x_headers`). -/
  removeResponseHeaders : List Str
  streamTransformer : Option Str
  filename : Option Str
  expiration : Option ℕ
  ip : Option Str
  apiPassword : Option Str
  base64EncodeDestination : Bool

/-- Headers of one request, which do not belong in a URL. -/
def supportedRequestHeaders : List Str := ["range".toList, "if-range".toList]

/-- What other crates do to write tokens and URLs; `urlSafeEncode` writes tokens too. -/
structure MintCrates extends TokenCrates, Base64Crate where
  /-- AES-256-CBC encryption under a key and an initialisation vector, with PKCS#7 padding. -/
  encryptPadded : Bytes → Bytes → Bytes → Bytes
  /-- `serde_json::to_vec` for `ProxyData`. -/
  writeProxyData : ProxyData → Bytes
  /-- `Url::parse`. -/
  parseUrl : Str → Option Url

/-- `serde_json::to_value` for a map of strings. -/
def toValue (m : List (Str × Str)) : Value :=
  .object (m.foldl (fun members kv => Map.insert members kv.1 (.string kv.2)) [])

section Crates

variable (crates : MintCrates)

/-- `EncryptionHandler::encrypt`, with the initialisation vector that is drawn. -/
def EncryptionHandler.encrypt (h : EncryptionHandler) (iv : Bytes) (data : ProxyData) : Str :=
  crates.urlSafeEncode (iv ++ crates.encryptPadded h.key iv (crates.writeProxyData data))

/-- `encode_url_to_base64`. -/
def encodeUrlToBase64 (url : Str) : Str := crates.urlSafeEncode (utf8 url)

/-- `decode_base64_url`. -/
def decodeBase64Url (encoded : Str) : Option Str := do
  let normalised := encoded.map Base64.toStandard
  let padding := (4 - (utf8 normalised).length % 4) % 4
  let bytes ← crates.standardDecode (normalised ++ List.replicate padding '=')
  let s ← fromUtf8 bytes
  let parsed ← crates.parseUrl s
  if parsed.scheme = [] ∨ parsed.host = none then none else some s

end Crates

/-! ### Building -/

/-- `str::trim_end_matches` for one character. -/
def trimEndMatches (c : Char) (s : Str) : Str := (s.reverse.dropWhile (· = c)).reverse

namespace GenerateUrlRequest

variable (g : GenerateUrlRequest)

def base : Str := trimEndMatches '/' g.mediaflowProxyUrl

def endpointPath : Str :=
  match g.endpoint.filter (· ≠ []) with
  | some ep => '/' :: ep.dropWhile (· = '/')
  | none => []

/-- The payload of the token at time `now`. -/
def payload (now : ℕ) : ProxyData where
  destination := g.destinationUrl
  queryParams := some (toValue g.queryParams)
  requestHeaders := some (toValue g.requestHeaders)
  responseHeaders := some (toValue g.responseHeaders)
  exp := g.expiration.map (now + ·)
  ip := g.ip

end GenerateUrlRequest

/-- A name with a prefix, unless it has it. -/
def prefixed (start name : Str) : Str := if start.isPrefixOf name then name else start ++ name

/-- Skip per-request dynamic headers: baking them into the URL would override the player's actual
seek headers on playback. Only ASCII letters are lower case letters of these names. -/
def isPerRequest (name : Str) : Bool :=
  let lower := name.map Char.toLower
  supportedRequestHeaders.contains ((stripPrefix "h_".toList lower).getD lower)

/-- The parameters of a map, with names that begin with `start`. -/
def prefixedParams (start : Str) (m : List (Str × Str)) : List (Str × Str) :=
  (m.filter fun kv => kv.2 ≠ []).map fun kv => (prefixed start kv.1, kv.2)

/-- The parameters of the query string of an unencrypted URL. -/
def GenerateUrlRequest.params (g : GenerateUrlRequest) : List (Str × Str) :=
  (if g.base64EncodeDestination then [] else [("d".toList, g.destinationUrl)])
    ++ g.queryParams.filter (fun kv => kv.2 ≠ [])
    ++ prefixedParams "h_".toList (g.requestHeaders.filter fun kv => !isPerRequest kv.1)
    ++ prefixedParams "r_".toList g.responseHeaders
    ++ prefixedParams "rp_".toList g.propagateResponseHeaders
    ++ (if g.removeResponseHeaders = [] then []
        else [("x_headers".toList, [','].intercalate g.removeResponseHeaders)])
    ++ (match g.streamTransformer with
        | some transformer => [("transformer".toList, transformer)]
        | none => [])

section Build

variable (web : WebCrates) (crates : MintCrates) (g : GenerateUrlRequest)

/-- The filename as the last part of the path. -/
def GenerateUrlRequest.filenamePath : Str :=
  match g.filename with
  | some fname => '/' :: web.urlencode fname
  | none => []

/-- The path of an unencrypted URL. -/
def GenerateUrlRequest.plainPath : Str :=
  g.endpointPath ++
    if g.base64EncodeDestination then '/' :: encodeUrlToBase64 crates g.destinationUrl
    else g.filenamePath web

/-- `build_proxy_url`, with the initialisation vector and the time. -/
def buildProxyUrl (iv : Bytes) (now : ℕ) : Str :=
  match g.apiPassword.filter (· ≠ []) with
  | some password =>
    let token := (EncryptionHandler.new (utf8 password)).encrypt crates iv (g.payload now)
    g.base ++ "/_token_".toList ++ token ++ g.endpointPath ++ g.filenamePath web
  | none =>
    let url := g.base ++ g.plainPath web crates
    if g.params = [] then url
    else url ++ '?' :: ['&'].intercalate (g.params.map (queryPair web))

end Build

/-! ### Reading back -/

/-- The part of a path that `/proxy/stream` and `/proxy/stream/{filename:.*}` leave. -/
def streamFilename (path : Str) : Option Str :=
  if path = "/proxy/stream".toList then some [] else stripPrefix "/proxy/stream/".toList path

section Destination

variable (crates : MintCrates)

/-- `resolve_stream_destination`. -/
def resolveStreamDestination (filename : Str) (proxyData : ProxyData) : Option Str :=
  if proxyData.destination ≠ [] then
    some ((decodeBase64Url crates proxyData.destination).getD proxyData.destination)
  else if filename ≠ [] then decodeBase64Url crates filename
  else none

/-- The destination of a handler: that of the stream handlers is resolved, the others take that of
`ProxyData`. -/
def handlerDestination (path : Str) (proxyData : ProxyData) : Str :=
  match streamFilename path with
  | some filename =>
    ((resolveStreamDestination crates filename proxyData).filter (· ≠ [])).getD proxyData.destination
  | none => proxyData.destination

end Destination

end MediaFlow
