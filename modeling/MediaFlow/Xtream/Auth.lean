import MediaFlow.Error
import MediaFlow.Lib.Base64
import MediaFlow.Lib.UrlCoding

/-!
# Xtream Codes user names

`xtream/auth.rs`: the user name of a request carries the URL of the upstream server, the real user
name and possibly the API password.
-/

open ByteString Text UrlCoding

namespace MediaFlow

/-- Base64 as other crates do it. -/
structure Base64Crate where
  /-- `STANDARD.decode`. -/
  standardDecode : Str → Option Bytes
  /-- `URL_SAFE_NO_PAD.encode`. -/
  urlSafeEncode : Bytes → Str

def standardBase64 : Base64Crate := ⟨Base64.decode, Base64.encodeUrlSafe⟩

/-- Result of parsing a packed XC user name. -/
structure XcCredentials where
  /-- Upstream XC server base URL (always ends with `/`). -/
  upstreamBase : Str
  /-- The real XC user name to present to the upstream server. -/
  actualUsername : Str
  /-- MediaFlow API password, if embedded in the user name. -/
  apiPassword : Option Str
deriving DecidableEq

/-- `str::splitn` for one character. -/
def splitN (sep : Char) : ℕ → Str → List Str
  | 0, _ => []
  | 1, s => [s]
  | n + 2, s =>
    match splitOnce sep s with
    | some (part, rest) => part :: splitN sep (n + 1) rest
    | none => [s]

/-- `str::split_once` for a text that is not empty. -/
def splitOnceAt (pat s : Str) : Option (Str × Str) :=
  (find pat s).map fun pos => (s.take pos, s.drop (pos + pat.length))

def ensureTrailingSlash (url : Str) : Str :=
  if url.getLast? = some '/' then url else url ++ ['/']

/-- URL-safe characters are normalised and padding is added. -/
def paddedStandard (s : Str) : Str :=
  let normalised := s.map Base64.toStandard
  match (utf8 normalised).length % 4 with
  | 2 => normalised ++ "==".toList
  | 3 => normalised ++ "=".toList
  | _ => normalised

section Base64

variable (base64 : Base64Crate)

def tryParseBase64Username (username : Str) : Option XcCredentials := do
  let decoded ← base64.standardDecode (paddedStandard username)
  let decodedStr ← fromUtf8 decoded
  if !contains decodedStr "://".toList || !contains decodedStr ":".toList then none
  else
    let (proto, rest) ← splitOnceAt "://".toList decodedStr
    let url := fun (host : Str) => proto ++ "://".toList ++ host
    let (upstreamUrl, actualUsername, apiPassword) ←
      match splitN ':' 4 rest with
      | [host, actualUser] => some (url host, actualUser, none)
      | [host, second, third] =>
        if second.all Char.isDigit && (utf8 second).length ≤ 5 then
          some (url (host ++ ':' :: second), third, none)
        else some (url host, second, some third)
      | [host, port, actualUser, apiPwd] =>
        some (url (host ++ ':' :: port), actualUser, some apiPwd)
      | _ => none
    return ⟨ensureTrailingSlash upstreamUrl, actualUsername, apiPassword.filter (· ≠ [])⟩

def decodeUpstreamUrl (encoded : Str) : Except AppError Str :=
  match base64.standardDecode (paddedStandard encoded) with
  | none => .error (.badRequest "Invalid base64 upstream URL encoding".toList)
  | some decoded =>
    match fromUtf8 decoded with
    | none => .error (.badRequest "Upstream URL is not valid UTF-8".toList)
    | some url => .ok (ensureTrailingSlash url)

def invalidUsernameMessage : Str :=
  ("Invalid XC username format. Expected base64url-encoded string or " ++
    "legacy `\x7bbase64_upstream\x7d:\x7busername\x7d[:\x7bapi_password\x7d]`.").toList

/-- Legacy format: `{base64_upstream}:{actual_username}[:{api_password}]`. -/
def parseLegacyUsername (username : Str) : Except AppError XcCredentials := do
  let (upstreamEncoded, actualUsername, apiPassword) ←
    match splitN ':' 3 username with
    | [enc, user] => .ok (enc, user, none)
    | [enc, user, pwd] => .ok (enc, user, some pwd)
    | _ => .error (.badRequest invalidUsernameMessage)
  let upstreamBase ← decodeUpstreamUrl base64 upstreamEncoded
  return ⟨upstreamBase, actualUsername, apiPassword.filter (· ≠ [])⟩

/-- Parse a packed Xtream Codes user name into its components. -/
def parseUsernameWithUpstream (username : Str) : Except AppError XcCredentials :=
  match tryParseBase64Username base64 username with
  | some creds => .ok creds
  | none => parseLegacyUsername base64 username

/-- Build a base64url token that encodes upstream URL and user name (and API password). -/
def encodeUsernameToken (upstreamBase actualUsername : Str) (apiPassword : Option Str) : Str :=
  let upstreamClean := upstreamBase.rdropWhile (· = '/')
  let combined :=
    match apiPassword.filter (· ≠ []) with
    | some p => upstreamClean ++ ':' :: actualUsername ++ ':' :: p
    | none => upstreamClean ++ ':' :: actualUsername
  base64.urlSafeEncode (utf8 combined)

end Base64

/-- Verify the API password extracted from a user name against the server configuration. -/
def verifyXcApiPassword (embeddedPassword : Option Str) (configuredPassword : Str) :
    Except AppError Unit :=
  if configuredPassword = [] then .ok ()
  else
    match embeddedPassword with
    | none => .error (.forbidden
        "API password required. Username format: base64(\x7bupstream\x7d:\x7buser\x7d:\x7bapi_password\x7d)".toList)
    | some p =>
      if p = configuredPassword then .ok () else .error (.forbidden "Invalid API password".toList)

/-- With a password configured, the check is that this password is embedded. -/
theorem verifyXcApiPassword_ok_iff {embedded : Option Str} {configured : Str}
    (h : configured ≠ []) :
    verifyXcApiPassword embedded configured = .ok () ↔ embedded = some configured := by
  unfold verifyXcApiPassword
  rw [if_neg h]
  cases embedded with
  | none => exact ⟨(fun h => nomatch h), (fun h => nomatch h)⟩
  | some p =>
    show (if p = configured then _ else _) = _ ↔ _
    constructor
    · intro hok
      split at hok
      · next heq => rw [heq]
      · cases hok
    · intro heq
      exact if_pos (Option.some.inj heq)

end MediaFlow
