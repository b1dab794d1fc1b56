import MediaFlow.Auth.Encryption
import MediaFlow.Lib.Routing
import MediaFlow.Lib.UrlCoding

/-!
# Requests

A request as middleware and handlers see it, and what the server's crates do for them: percent- and
form-coding, URIs, and the comparison of paths with route patterns.
-/

open Text UrlCoding

namespace MediaFlow

inductive Method where
  | get
  | head
  | post
  | other (name : Str)
deriving DecidableEq

structure Uri where
  path : Str
  query : Str
deriving DecidableEq

structure Request where
  method : Method
  uri : Uri
  /-- `ConnectionInfo::realip_remote_addr`. -/
  realipRemoteAddr : Option Str
  /-- The `ProxyData` among the request's extensions. -/
  proxyData : Option ProxyData

def Request.path (req : Request) : Str := req.uri.path

def Request.queryString (req : Request) : Str := req.uri.query

/-- What other crates do with URLs. -/
structure WebCrates where
  /-- `urlencoding::encode`. -/
  urlencode : Str → Str
  /-- `urlencoding::decode`; there is none when the result is no UTF-8. -/
  urldecode : Str → Option Str
  /-- The pairs that `web::Query` reads, in order. -/
  formPairs : Str → List (Str × Str)
  /-- Parsing of a path and a query as a `Uri`. -/
  parseUri : Str → Option Uri
  /-- The path as the router sees it, its escapes undone except `%25`, `%2F` and `%2B`. -/
  requote : Str → Str
  matcher : Routing.Matcher
  /-- The value of a placeholder, as `web::Path` reads it from the path that is routed. -/
  pathValue : Str → Str

/-- The documented behaviour of percent-encoding and of form-urlencoded text. -/
structure WebCrates.CodesUrls (web : WebCrates) : Prop where
  urlencode : web.urlencode = encode
  urldecode : web.urldecode = decode
  formPairs : web.formPairs = UrlCoding.formPairs

/-- `web::Query<HashMap<String, String>>`: the last pair of a name wins. -/
def WebCrates.query (web : WebCrates) (req : Request) (key : Str) : Option Str :=
  lastValue key (web.formPairs req.queryString)

/-- A path and a query are parsed at the first question mark. -/
def splitUri (s : Str) : Uri :=
  match splitOnce '?' s with
  | some (path, query) => ⟨path, query⟩
  | none => ⟨s, []⟩

/-- The crates, for paths without escapes. -/
def standardWeb : WebCrates where
  urlencode := encode
  urldecode := decode
  formPairs := UrlCoding.formPairs
  parseUri s := some (splitUri s)
  requote := id
  matcher := Routing.standardMatcher
  pathValue := id

theorem standardWeb_codesUrls : standardWeb.CodesUrls := ⟨rfl, rfl, rfl⟩

end MediaFlow
