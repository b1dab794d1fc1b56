import MediaFlow.Lib.Json
import MediaFlow.Error

/-!
# Access tokens

`ProxyData` and `EncryptionHandler` of `auth/encryption.rs`: a token is a base64 text of an
initialisation vector and an AES-256-CBC ciphertext, and its payload is a JSON document in one of
two layouts. What is done by other crates (base64, the cipher, reading JSON) is a parameter.
-/

open ByteString Text Json

namespace MediaFlow

structure ProxyData where
  destination : Str
  queryParams : Option Value
  requestHeaders : Option Value
  responseHeaders : Option Value
  exp : Option ℕ
  ip : Option Str

namespace ProxyData

/-- The three objects that the members of a flat payload are sorted into. -/
structure FlatParts where
  queryParams : Map := []
  requestHeaders : Map := []
  responseHeaders : Map := []

/-- One member of a flat payload. Members come in order of their names, so `insert` appends. -/
def FlatParts.insert (parts : FlatParts) (member : Str × Value) : FlatParts :=
  let (k, v) := member
  match stripPrefix "h_".toList k with
  | some stripped => { parts with requestHeaders := parts.requestHeaders ++ [(stripped, v)] }
  | none =>
    match stripPrefix "r_".toList k with
    | some stripped => { parts with responseHeaders := parts.responseHeaders ++ [(stripped, v)] }
    | none => { parts with queryParams := parts.queryParams ++ [(k, v)] }

/-- An object, or nothing when it has no members. -/
def objectOrNone (m : Map) : Option Value := if m.isEmpty then none else some (.object m)

/-- `ProxyData::from_python_flat_dict`. -/
def fromPythonFlatDict (map : Map) : ProxyData :=
  let destination := ((map.lookup "d".toList).bind Value.asStr).getD []
  let map := map.without "d".toList
  let exp := (map.lookup "exp".toList).bind Value.asU64
  let map := map.without "exp".toList
  let ip := (map.lookup "ip".toList).bind Value.asStr
  let map := map.without "ip".toList
  let parts := map.foldl FlatParts.insert {}
  { destination := destination
    queryParams := objectOrNone parts.queryParams
    requestHeaders := objectOrNone parts.requestHeaders
    responseHeaders := objectOrNone parts.responseHeaders
    exp := exp
    ip := ip }

end ProxyData

/-- What other crates do for a token. The readers of JSON take the bytes of a document. -/
structure TokenCrates where
  /-- `URL_SAFE_NO_PAD.decode`; the error is its text. -/
  base64Decode : Str → Except Str Bytes
  /-- AES-256-CBC decryption under a key and an initialisation vector, and PKCS#7 unpadding. -/
  decryptPadded : Bytes → Bytes → Bytes → Option Bytes
  /-- `serde_json::from_slice::<ProxyData>`; the text of its error is not used. -/
  readProxyData : Bytes → Option ProxyData
  /-- `serde_json::from_slice::<Map<String, Value>>`. -/
  readMap : Bytes → Except Str Map

/-- An AES key of 32 bytes. -/
structure EncryptionHandler where
  key : Bytes
  key_length : key.length = 32

namespace EncryptionHandler

/-- `EncryptionHandler::new`: the password is padded with spaces, or cut, to 32 bytes. -/
def new (apiPassword : Bytes) : EncryptionHandler where
  key := (apiPassword ++ List.replicate 32 0x20).take 32
  key_length := by simp

variable (crates : TokenCrates) (h : EncryptionHandler)

/-- The decrypted payload of a token. -/
def payload (token : Str) : Except AppError Bytes :=
  match crates.base64Decode token with
  | .error e => .error (.auth ("Invalid token format: ".toList ++ e))
  | .ok encrypted =>
    if encrypted.length < 17 then .error (.auth "Token too short".toList)
    else
      match crates.decryptPadded h.key (encrypted.take 16) (encrypted.drop 16) with
      | none => .error (.auth "Decryption failed: invalid padding or corrupt token".toList)
      | some plaintext => .ok plaintext

/-- The payload as `ProxyData`: its own layout first, then the flat one. -/
def readPayload (plaintext : Bytes) : Except AppError ProxyData :=
  match crates.readProxyData plaintext with
  | some pd => .ok pd
  | none =>
    match crates.readMap plaintext with
    | .error e => .error (.auth ("Invalid token data: ".toList ++ e))
    | .ok flat => .ok (ProxyData.fromPythonFlatDict flat)

/-- The checks of expiry and client address. `now` is the time in whole seconds. -/
def check (now : ℕ) (clientIp : Option Str) (data : ProxyData) : Except AppError ProxyData :=
  if data.exp.any fun exp => exp < now then .error (.auth "Token has expired".toList)
  else if data.ip.any fun tokenIp => clientIp.any fun clientIp => tokenIp ≠ clientIp then
    .error (.auth "IP mismatch".toList)
  else .ok data

/-- `EncryptionHandler::decrypt`. -/
def decrypt (now : ℕ) (token : Str) (clientIp : Option Str) : Except AppError ProxyData := do
  let plaintext ← h.payload crates token
  let data ← readPayload crates plaintext
  check now clientIp data

end EncryptionHandler

end MediaFlow
