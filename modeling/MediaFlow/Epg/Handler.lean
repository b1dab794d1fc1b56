import MediaFlow.Cache.Local
import MediaFlow.Lib.Djb2
import MediaFlow.Proxy.GenerateUrl

/-!
# EPG proxy

`epg/handler.rs`: programme guides are fetched from upstream and cached. The handler reads the
request, looks into the cache, and on a miss fetches the guide and stores it; the steps are functions
of their own here, as other requests run between them.

A query is the list of the entries of its hash map, in the order in which the map is walked. That
order is the map's own: it does not follow the order of the parameters in the URL, and differs from
request to request.
-/

open ByteString Text UrlCoding

namespace MediaFlow

/-- `HeaderMap::insert`: the value of a name that is there is replaced where it stands. -/
def insertHeader (headers : List (Str × Bytes)) (name : Str) (value : Bytes) : List (Str × Bytes) :=
  if headers.any fun h => h.1 = name then
    headers.map fun h => if h.1 = name then (name, value) else h
  else headers ++ [(name, value)]

/-- What other crates do to read an EPG request. -/
structure EpgCrates extends MintCrates where
  /-- `HeaderName::from_str`, the name in lower case. -/
  headerName : Str → Option Str
  /-- `HeaderValue::from_str`. -/
  headerValue : Str → Option Bytes
  /-- `HeaderValue::to_str`. -/
  toStr : Bytes → Option Str

/-- What the handler takes from a request. -/
structure EpgRequest where
  destination : Str
  /-- In seconds; 0 disables caching. -/
  effectiveTtl : ℕ
  /-- The headers for upstream, as the header map is walked. -/
  upstreamHeaders : List (Str × Bytes)
deriving DecidableEq

structure EpgResponse where
  headers : List (Str × Str)
  body : Bytes

def isHttpUrl (s : Str) : Bool :=
  "http://".toList.isPrefixOf s || "https://".toList.isPrefixOf s

/-- Short (8-char) hash for cache keys. -/
def djb2Short (input : Str) : Str := (hexPadded 16 (djb2 (2 ^ 64) (utf8 input))).take 8

def buildResponse (body : Bytes) (cacheStatus : Str) (ttl : ℕ) : EpgResponse where
  headers := [("content-type".toList, "application/xml; charset=utf-8".toList),
    ("X-EPG-Cache".toList, cacheStatus),
    ("Cache-Control".toList, "public, max-age=".toList ++ decimal ttl)]
  body := body

/-- The cache as it is made at the start, for the default TTL of the configuration. -/
def epgCache (cacheTtl : ℕ) : LocalCache := .new (fromSecs (max cacheTtl 1))

section Crates

variable (crates : EpgCrates)

/-- The headers of the `h_` parameters. A name or a value that is not valid is left out. -/
def queryHeaders (query : List (Str × Str)) : List (Str × Bytes) :=
  query.foldl (fun headers kv =>
    match stripPrefix "h_".toList kv.1 with
    | some headerName =>
      match crates.headerName headerName, crates.headerValue kv.2 with
      | some name, some value => insertHeader headers name value
      | _, _ => headers
    | none => headers) []

namespace EpgRequest

/-- `epg_proxy_handler`, up to the cache. `cacheTtl` is that of the configuration. -/
def ofQuery (cacheTtl : ℕ) (query : List (Str × Str)) : Except AppError EpgRequest := do
  let rawDest ← match query.lookup "d".toList with
    | some d => .ok d
    | none => .error (.badRequest "Missing 'd' (destination URL) parameter".toList)
  let destination ←
    if isHttpUrl rawDest then .ok rawDest
    else match decodeBase64Url crates.toMintCrates rawDest with
      | some url => .ok url
      | none => .error (.badRequest "Invalid destination URL or base64 encoding".toList)
  if isHttpUrl destination then
    .ok ⟨destination, ((query.lookup "cache_ttl".toList).bind parseU64).getD cacheTtl,
      queryHeaders crates query⟩
  else .error (.badRequest "Destination must be an http:// or https:// URL".toList)

variable (r : EpgRequest)

/-- The headers as the hash for the key takes them. A value that is not text counts as empty. -/
def headerRepr : Str :=
  "|".toList.intercalate
    (r.upstreamHeaders.map fun h => h.1 ++ ":".toList ++ (crates.toStr h.2).getD [])

def cacheKey : Str :=
  if r.upstreamHeaders = [] then r.destination
  else r.destination ++ "|".toList ++ djb2Short (r.headerRepr crates)

/-- The cache read. -/
def lookUp (cache : LocalCache) (now : ℕ) : Option CacheEntry :=
  if 0 < r.effectiveTtl then cache.live now (r.cacheKey crates) else none

/-- The cache after the fetch from upstream, with what was fetched. -/
def store (cache : LocalCache) (now : ℕ) (body : Bytes) : LocalCache :=
  if 0 < r.effectiveTtl then cache.set now (r.cacheKey crates) body else cache

variable {crates r}

theorem lookUp_eq_some_iff {cache : LocalCache} {now : ℕ} {e : CacheEntry} :
    r.lookUp crates cache now = some e ↔
      0 < r.effectiveTtl ∧ cache.live now (r.cacheKey crates) = some e := by
  unfold lookUp
  split
  · next h => exact (and_iff_right h).symm
  · next h => exact iff_of_false nofun fun h' => h h'.1

@[simp] theorem store_timeToLive (cache : LocalCache) (now : ℕ) (body : Bytes) :
    (r.store crates cache now body).timeToLive = cache.timeToLive := by
  unfold store
  split <;> rfl

theorem store_of_zero (h : r.effectiveTtl = 0) (cache : LocalCache) (now : ℕ) (body : Bytes) :
    r.store crates cache now body = cache :=
  if_neg h.not_gt

end EpgRequest

end Crates

end MediaFlow
