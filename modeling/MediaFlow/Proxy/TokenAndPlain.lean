import MediaFlow.Auth.FieldQuery
import MediaFlow.Proxy.GenerateUrl

/-!
# Encrypted and plain URLs

With a password, `build_proxy_url` puts a request in a token; without one, in the path and the query
string. `MeansTheSame` says that handlers see the same request for both.

The two branches treat names differently: only that of plain URLs leaves out the headers of one
request and spares names that have their prefix, and only it writes the parameters beside the
headers. `meansTheSame_iff` says when no difference shows.
-/

open ByteString Text Json UrlCoding

namespace MediaFlow

/-! ### What is relied on -/

/-- The characters of a path that needs no further encoding. -/
def pathChar (c : Char) : Bool := encodingChar c || c = '/'

/-- The characters of encoded pairs. -/
def queryChar (c : Char) : Bool := encodingChar c || c = '=' || c = '&'

/-- A `Uri` is read from a path and a query of plain characters, unless it is too long. -/
def WebCrates.ParsesUris (web : WebCrates) : Prop :=
  ∀ {path query : Str}, path ≠ [] → (∀ c ∈ path, pathChar c = true) →
    (∀ c ∈ query, queryChar c = true) → (pathAndQuery path query).length < 65535 →
    web.parseUri (pathAndQuery path query) = some ⟨path, query⟩

/-- Tokens can be read: decoding and decryption undo encoding and encryption, and the JSON text of
the payload is read as the payload. -/
structure MintCrates.Mints (crates : MintCrates) (payload : ProxyData) : Prop where
  base64 : ∀ bytes, crates.base64Decode (crates.urlSafeEncode bytes) = .ok bytes
  alphabet : ∀ bytes, ∀ c ∈ crates.urlSafeEncode bytes, unreserved c = true
  padding : ∀ key iv data, crates.encryptPadded key iv data ≠ []
  decrypts : ∀ {key iv : Bytes}, key.length = 32 → iv.length = 16 → ∀ data,
    crates.decryptPadded key iv (crates.encryptPadded key iv data) = some data
  reads : crates.readProxyData (crates.writeProxyData payload) = some payload

/-! ### What is to be shown -/

namespace GenerateUrlRequest

/-- A request with values for all that it names, and neither an expiration nor an address. -/
structure Valued (g : GenerateUrlRequest) : Prop where
  expiration : g.expiration = none
  ip : g.ip = none
  destination : g.destinationUrl ≠ []
  queryParams : ∀ kv ∈ g.queryParams, kv.2 ≠ []
  requestHeaders : ∀ kv ∈ g.requestHeaders, kv.2 ≠ []
  responseHeaders : ∀ kv ∈ g.responseHeaders, kv.2 ≠ []
  propagated : ∀ kv ∈ g.propagateResponseHeaders, kv.2 ≠ []
  removed : ∀ name ∈ g.removeResponseHeaders, name ≠ []
  transformer : g.streamTransformer ≠ some []
  -- the names of a map are different
  queryParams_nodup : (g.queryParams.map Prod.fst).Nodup
  requestHeaders_nodup : (g.requestHeaders.map Prod.fst).Nodup
  responseHeaders_nodup : (g.responseHeaders.map Prod.fst).Nodup

end GenerateUrlRequest

section MainResult

variable (web : WebCrates) (crates : MintCrates)

/-- The request that the server gets for a URL under `base`; a fragment is not sent. -/
def requestFor (clientIp : Option Str) (base url : Str) : Request where
  method := .get
  uri := splitUri (((stripPrefix base url).getD []).takeWhile (· ≠ '#'))
  realipRemoteAddr := clientIp
  proxyData := none

/-- Handlers see the same destination, parameters and headers, and no header of one request. -/
structure SameToHandlers (a b : Request) (pa pb : ProxyData) : Prop where
  destination : handlerDestination crates a.path pa = handlerDestination crates b.path pb
  query : ∀ key, key ≠ "d".toList → web.query a key = web.query b key
  requestHeaders : ∀ name, headerValue pa.requestHeaders name = headerValue pb.requestHeaders name
  responseHeaders : ∀ name, headerValue pa.responseHeaders name = headerValue pb.responseHeaders name
  unbaked : ∀ name, name.map Char.toLower ∈ supportedRequestHeaders →
    headerValue pa.requestHeaders name = none ∧ headerValue pb.requestHeaders name = none

/-- What the handlers of a server with the password see for the encrypted URL, those of a server
without one see for the plain URL. -/
def MeansTheSame (clientIp : Option Str) (password : Str) (iv : Bytes) (now later : ℕ)
    (g : GenerateUrlRequest) : Prop :=
  ∃ a b pa pb,
    (AuthMiddleware.new password).call web crates.toTokenCrates later (requestFor clientIp g.base
      (buildProxyUrl web crates { g with apiPassword := some password } iv now)) = .ok a ∧
    a.proxyData = some pa ∧
    (AuthMiddleware.new []).call web crates.toTokenCrates later (requestFor clientIp g.base
      (buildProxyUrl web crates { g with apiPassword := none } iv now)) = .ok b ∧
    b.proxyData = some pb ∧
    SameToHandlers web crates a b pa pb

end MainResult

/-! ### The condition -/

namespace GenerateUrlRequest

/-- The path that is left of an encrypted URL. -/
def remainingPath (web : WebCrates) (g : GenerateUrlRequest) : Str :=
  if g.endpointPath ++ g.filenamePath web = [] then ['/'] else g.endpointPath ++ g.filenamePath web

/-- Names that need no encoding and are not each other's, a plain endpoint, and no more than goes
into a `Uri`. -/
structure Unambiguous (web : WebCrates) (crates : MintCrates) (g : GenerateUrlRequest) : Prop where
  names : ∀ kv ∈ g.queryParams ++ g.requestHeaders ++ g.responseHeaders ++ g.propagateResponseHeaders,
    encode kv.1 = kv.1
  reserved : ∀ kv ∈ g.queryParams,
    kv.1 ∉ ["d".toList, "url".toList, "token".toList, "x_headers".toList, "transformer".toList] ∧
      ¬ "h_".toList <+: kv.1 ∧ ¬ "r_".toList <+: kv.1 ∧ ¬ "rp_".toList <+: kv.1
  endpoint : ∀ c ∈ g.endpointPath, pathChar c = true
  noToken : stripPrefix "/_token_".toList (g.plainPath web crates) = none
  short : ∀ now, (pathAndQuery (g.remainingPath web)
    (buildQueryFromProxyData web (g.payload now) [])).length < 65535

/-- The condition: names of headers have no prefix, none is a header of one request, nothing is given
of what only plain URLs carry, and a destination in the path is that of the token. -/
structure WrittenAlike (web : WebCrates) (crates : MintCrates) (g : GenerateUrlRequest) : Prop where
  requestHeaders : ∀ kv ∈ g.requestHeaders, ¬ "h_".toList <+: kv.1 ∧ isPerRequest kv.1 = false
  responseHeaders : ∀ kv ∈ g.responseHeaders, ¬ "r_".toList <+: kv.1
  propagated : g.propagateResponseHeaders = []
  removed : g.removeResponseHeaders = []
  transformer : g.streamTransformer = none
  destination : g.base64EncodeDestination = true →
    ∃ filename, streamFilename (g.plainPath web crates) = some filename ∧ filename ≠ [] ∧
      decodeBase64Url crates filename =
        some (handlerDestination crates (g.remainingPath web) (g.payload 0))

end GenerateUrlRequest

/-! ### The payload -/

/-- The members that `toValue` makes. -/
def toMembers (m : List (Str × Str)) : Map :=
  m.foldl (fun members kv => Map.insert members kv.1 (.string kv.2)) []

theorem toMembers_sorted (m : List (Str × Str)) : (toMembers m).Sorted :=
  Map.sorted_foldl_insert .string m

theorem toMembers_lookup {m : List (Str × Str)} (hnodup : (m.map Prod.fst).Nodup) (name : Str) :
    (toMembers m).lookup name = (m.lookup name).map .string :=
  Map.lookup_foldl_insert .string hnodup name

theorem headerValue_toValue {m : List (Str × Str)} (hnodup : (m.map Prod.fst).Nodup) (name : Str) :
    headerValue (some (toValue m)) name = (m.lookup name).map .string :=
  toMembers_lookup hnodup name

/-- The object of a map has the members of the map. -/
theorem mem_stringMembers_toValue {m : List (Str × Str)} (hnodup : (m.map Prod.fst).Nodup)
    (p : Str × Str) : p ∈ stringMembers (some (toValue m)) ↔ p ∈ m := by
  obtain ⟨k, v⟩ := p
  have hmember : (k, Value.string v) ∈ toMembers m ↔ (k, v) ∈ m := by
    rw [← lookup_eq_some_iff_mem (toMembers_sorted m).nodup, toMembers_lookup hnodup,
      ← lookup_eq_some_iff_mem hnodup]
    constructor
    · intro h
      obtain ⟨w, hw, heq⟩ := Option.map_eq_some_iff.mp h
      rw [hw, Value.string.inj heq]
    · intro h
      rw [h]
      rfl
  rw [← hmember]
  show (k, v) ∈ (toMembers m).filterMap _ ↔ _
  rw [List.mem_filterMap]
  constructor
  · rintro ⟨⟨k', w⟩, hmem, hw⟩
    obtain ⟨s, hs, heq⟩ := Option.map_eq_some_iff.mp hw
    cases heq
    rwa [Value.asStr_eq_some_iff.mp hs] at hmem
  · intro h
    exact ⟨_, h, rfl⟩

theorem stringMembers_toValue_nodup (m : List (Str × Str)) :
    ((stringMembers (some (toValue m))).map Prod.fst).Nodup := by
  refine List.Nodup.sublist ?_ (toMembers_sorted m).nodup
  show List.Sublist (((toMembers m).filterMap _).map Prod.fst) _
  induction toMembers m with
  | nil => exact List.Sublist.refl _
  | cons kv members ih =>
    obtain ⟨k, v⟩ := kv
    cases v with
    | string s => exact ih.cons_cons _
    | _ => exact ih.cons _

/-- The parameters of a token, in the order of the maps. -/
def GenerateUrlRequest.tokenParams (g : GenerateUrlRequest) : List (Str × Str) :=
  [("d".toList, g.destinationUrl)] ++ g.queryParams
    ++ g.requestHeaders.map (fun (k, v) => ("h_".toList ++ k, v))
    ++ g.responseHeaders.map (fun (k, v) => ("r_".toList ++ k, v))

section Reading

variable {web : WebCrates} {crates : MintCrates} {g : GenerateUrlRequest}

theorem payloadPairs_payload (hg : g.Valued) (now : ℕ) :
    payloadPairs (g.payload now) = [("d".toList, g.destinationUrl)]
      ++ stringMembers (some (toValue g.queryParams))
      ++ (stringMembers (some (toValue g.requestHeaders))).map (fun (k, v) => ("h_".toList ++ k, v))
      ++ (stringMembers (some (toValue g.responseHeaders))).map
        (fun (k, v) => ("r_".toList ++ k, v)) := by
  unfold payloadPairs
  rw [if_neg (show (g.payload now).destination ≠ [] from hg.destination)]
  rfl

/-- **The payload of a token reads like the maps** that it is made of. -/
theorem lastValue_payloadPairs (hg : g.Valued) (now : ℕ) (key : Str) :
    lastValue key (payloadPairs (g.payload now)) = lastValue key g.tokenParams := by
  have hmarked : ∀ (start : Str) {m : List (Str × Str)}, (m.map Prod.fst).Nodup →
      lastValue key ((stringMembers (some (toValue m))).map fun (k, v) => (start ++ k, v)) =
        lastValue key (m.map fun (k, v) => (start ++ k, v)) := by
    intro start m hm
    have hnames : ∀ l : List (Str × Str), (l.map Prod.fst).Nodup →
        ((l.map fun (k, v) => (start ++ k, v)).map Prod.fst).Nodup := by
      intro l hl
      have hinj := hl.map (f := (start ++ ·)) fun a b h => List.append_cancel_left h
      rw [List.map_map] at hinj ⊢
      exact hinj
    refine lastValue_congr (hnames _ (stringMembers_toValue_nodup m)) (hnames m hm) (fun p => ?_) key
    simp only [List.mem_map, mem_stringMembers_toValue hm]
  have hquery : lastValue key (stringMembers (some (toValue g.queryParams))) =
      lastValue key g.queryParams :=
    lastValue_congr (stringMembers_toValue_nodup _) hg.queryParams_nodup
      (mem_stringMembers_toValue hg.queryParams_nodup) key
  rw [payloadPairs_payload hg, GenerateUrlRequest.tokenParams]
  simp only [lastValue_append, hmarked _ hg.requestHeaders_nodup, hmarked _ hg.responseHeaders_nodup,
    hquery]

theorem mem_payloadPairs (hg : g.Valued) (now : ℕ) (p : Str × Str) :
    p ∈ payloadPairs (g.payload now) ↔ p ∈ g.tokenParams := by
  rw [payloadPairs_payload hg, GenerateUrlRequest.tokenParams]
  simp only [List.mem_append, List.mem_map, mem_stringMembers_toValue hg.queryParams_nodup,
    mem_stringMembers_toValue hg.requestHeaders_nodup,
    mem_stringMembers_toValue hg.responseHeaders_nodup]

/-! ### The requests -/

/-- The server reads a target without a fragment up to its question mark. -/
theorem requestFor_append {clientIp : Option Str} {base path : Str} (hquestion : '?' ∉ path)
    (hhash : '#' ∉ path) {query : Str} (hquery : '#' ∉ query) :
    requestFor clientIp base (base ++ (path ++ '?' :: query)) = ⟨.get, ⟨path, query⟩, clientIp, none⟩ ∧
      requestFor clientIp base (base ++ path) = ⟨.get, ⟨path, []⟩, clientIp, none⟩ := by
  have hsent : ∀ s : Str, '#' ∉ s → s.takeWhile (· ≠ '#') = s := by
    intro s hs
    refine List.takeWhile_eq_self_iff.mpr fun c hc => decide_eq_true ?_
    rintro rfl
    exact hs hc
  have hnone : splitOnce '?' path = none := by
    cases hsplit : splitOnce '?' path with
    | none => rfl
    | some kv =>
      obtain ⟨rfl, -⟩ := splitOnce_eq_some_iff.mp hsplit
      exact absurd (List.mem_append_right _ List.mem_cons_self) hquestion
  have hall : '#' ∉ path ++ '?' :: query := by
    intro hmem
    rcases List.mem_append.mp hmem with hmem | hmem
    · exact hhash hmem
    · rcases List.mem_cons.mp hmem with hmem | hmem
      · cases hmem
      · exact hquery hmem
  unfold requestFor
  rw [stripPrefix_append, stripPrefix_append, Option.getD_some, Option.getD_some, hsent _ hall,
    hsent _ hhash, splitUri, splitUri, splitOnce_of_not_mem hquestion, hnone]
  exact ⟨rfl, rfl⟩

theorem not_mem_of_pathChar {c : Char} (hc : pathChar c = false) {path : Str}
    (h : ∀ d ∈ path, pathChar d = true) : c ∉ path := by
  intro hmem
  rw [h c hmem] at hc
  cases hc

/-- The path of a filename is plain. -/
theorem filenamePath_pathChar (hweb : web.CodesUrls) {c : Char} (hc : c ∈ g.filenamePath web) :
    pathChar c = true := by
  unfold GenerateUrlRequest.filenamePath at hc
  split at hc
  · rcases List.mem_cons.mp hc with rfl | hc
    · rfl
    · rw [hweb.urlencode] at hc
      unfold pathChar
      rw [encodingChar_of_mem_encode hc]
      rfl
  · cases hc

/-- **A token is accepted**, and gives the payload back. -/
theorem decrypt_encrypt {payload : ProxyData} (hmint : crates.Mints payload) {iv : Bytes}
    (hiv : iv.length = 16) (hexp : payload.exp = none) (hip : payload.ip = none)
    (h : EncryptionHandler) (later : ℕ) (clientIp : Option Str) :
    h.decrypt crates.toTokenCrates later (h.encrypt crates iv payload) clientIp = .ok payload := by
  have hpos : 0 < (crates.encryptPadded h.key iv (crates.writeProxyData payload)).length :=
    List.length_pos_iff.mpr (hmint.padding _ _ _)
  have hlen : ¬ (iv ++ crates.encryptPadded h.key iv (crates.writeProxyData payload)).length < 17 := by
    rw [List.length_append]
    omega
  have hpayload : h.payload crates.toTokenCrates (h.encrypt crates iv payload) =
      .ok (crates.writeProxyData payload) := by
    unfold EncryptionHandler.payload EncryptionHandler.encrypt
    rw [hmint.base64]
    simp only
    rw [if_neg hlen, List.take_left' hiv, List.drop_left' hiv, hmint.decrypts h.key_length hiv]
  have hread : EncryptionHandler.readPayload crates.toTokenCrates (crates.writeProxyData payload) =
      .ok payload := by
    unfold EncryptionHandler.readPayload
    rw [hmint.reads]
  have hcheck : EncryptionHandler.check later clientIp payload = .ok payload := by
    unfold EncryptionHandler.check
    rw [hexp, hip]
    rfl
  unfold EncryptionHandler.decrypt
  rw [hpayload]
  show (EncryptionHandler.readPayload crates.toTokenCrates (crates.writeProxyData payload) >>=
    EncryptionHandler.check later clientIp) = _
  rw [hread]
  exact hcheck

/-! ### The names of the parameters -/

theorem prefix_prefixed (start name : Str) : start <+: prefixed start name := by
  unfold prefixed
  split
  · next h => exact List.isPrefixOf_iff_prefix.mp h
  · exact List.prefix_append _ _

theorem encode_prefixed {start name : Str} (hstart : encode start = start)
    (hname : encode name = name) : encode (prefixed start name) = prefixed start name := by
  unfold prefixed
  split
  · exact hname
  · rw [encode_append, hstart, hname]

theorem mem_prefixedParams {start : Str} {m : List (Str × Str)} {p : Str × Str}
    (h : p ∈ prefixedParams start m) : p.2 ≠ [] ∧ ∃ k, (k, p.2) ∈ m ∧ p.1 = prefixed start k := by
  obtain ⟨kv, hkv, rfl⟩ := List.mem_map.mp h
  obtain ⟨hmem, hvalue⟩ := List.mem_filter.mp hkv
  exact ⟨by simpa using hvalue, kv.1, hmem, rfl⟩

/-- What a parameter of a plain URL is. -/
theorem mem_params {p : Str × Str} (h : p ∈ g.params) :
    (g.base64EncodeDestination = false ∧ p = ("d".toList, g.destinationUrl)) ∨
      p ∈ g.queryParams ∨
      p ∈ prefixedParams "h_".toList (g.requestHeaders.filter fun kv => !isPerRequest kv.1) ∨
      p ∈ prefixedParams "r_".toList g.responseHeaders ∨
      p ∈ prefixedParams "rp_".toList g.propagateResponseHeaders ∨
      (g.removeResponseHeaders ≠ [] ∧
        p = ("x_headers".toList, [','].intercalate g.removeResponseHeaders)) ∨
      ∃ transformer, g.streamTransformer = some transformer ∧ p = ("transformer".toList, transformer) := by
  unfold GenerateUrlRequest.params at h
  simp only [List.mem_append, or_assoc] at h
  rcases h with h | h | h | h | h | h | h
  · refine .inl ?_
    split at h
    · cases h
    · next hbase64 => exact ⟨Bool.eq_false_of_not_eq_true hbase64, List.mem_singleton.mp h⟩
  · exact .inr (.inl (List.mem_of_mem_filter h))
  · exact .inr (.inr (.inl h))
  · exact .inr (.inr (.inr (.inl h)))
  · exact .inr (.inr (.inr (.inr (.inl h))))
  · refine .inr (.inr (.inr (.inr (.inr (.inl ?_)))))
    split at h
    · cases h
    · next hne => exact ⟨hne, List.mem_singleton.mp h⟩
  · refine .inr (.inr (.inr (.inr (.inr (.inr ?_)))))
    split at h
    · next transformer heq => exact ⟨transformer, heq, List.mem_singleton.mp h⟩
    · cases h

/-- The names that a parameter beside those of the caller may have. -/
def OwnName (name : Str) : Prop :=
  name = "d".toList ∨ "h_".toList <+: name ∨ "r_".toList <+: name ∨ "rp_".toList <+: name ∨
    name = "x_headers".toList ∨ name = "transformer".toList

theorem name_of_mem_params {p : Str × Str} (h : p ∈ g.params) : p ∈ g.queryParams ∨ OwnName p.1 := by
  have hmarked : ∀ {start : Str} {m : List (Str × Str)}, p ∈ prefixedParams start m →
      start <+: p.1 := by
    intro start m hp
    obtain ⟨-, k, -, hk⟩ := mem_prefixedParams hp
    rw [hk]
    exact prefix_prefixed start k
  rcases mem_params h with ⟨-, rfl⟩ | hq | hh | hr | hp | ⟨-, rfl⟩ | ⟨transformer, -, rfl⟩
  · exact .inr (.inl rfl)
  · exact .inl hq
  · exact .inr (.inr (.inl (hmarked hh)))
  · exact .inr (.inr (.inr (.inl (hmarked hr))))
  · exact .inr (.inr (.inr (.inr (.inl (hmarked hp)))))
  · exact .inr (.inr (.inr (.inr (.inr (.inl rfl)))))
  · exact .inr (.inr (.inr (.inr (.inr (.inr rfl)))))

theorem mem_tokenParams {p : Str × Str} (h : p ∈ g.tokenParams) :
    p = ("d".toList, g.destinationUrl) ∨ p ∈ g.queryParams ∨
      (∃ k, (k, p.2) ∈ g.requestHeaders ∧ p.1 = "h_".toList ++ k) ∨
      ∃ k, (k, p.2) ∈ g.responseHeaders ∧ p.1 = "r_".toList ++ k := by
  unfold GenerateUrlRequest.tokenParams at h
  simp only [List.mem_append, List.mem_singleton, or_assoc] at h
  rcases h with h | h | h | h
  · exact .inl h
  · exact .inr (.inl h)
  · obtain ⟨kv, hkv, rfl⟩ := List.mem_map.mp h
    exact .inr (.inr (.inl ⟨kv.1, hkv, rfl⟩))
  · obtain ⟨kv, hkv, rfl⟩ := List.mem_map.mp h
    exact .inr (.inr (.inr ⟨kv.1, hkv, rfl⟩))

section Names

variable (hplain : g.Unambiguous web crates)

include hplain

theorem encode_queryParam {kv : Str × Str} (h : kv ∈ g.queryParams) : encode kv.1 = kv.1 :=
  hplain.names kv (by simp [h])

theorem params_names : ∀ p ∈ g.params, encode p.1 = p.1 := by
  intro p hp
  have hmarked : ∀ {start : Str} {m : List (Str × Str)}, encode start = start →
      (∀ kv ∈ m, encode kv.1 = kv.1) → p ∈ prefixedParams start m → encode p.1 = p.1 := by
    intro start m hstart hm hp
    obtain ⟨-, k, hk, hname⟩ := mem_prefixedParams hp
    rw [hname]
    exact encode_prefixed hstart (hm _ hk)
  rcases mem_params hp with ⟨-, rfl⟩ | hq | hh | hr | hr | ⟨-, rfl⟩ | ⟨transformer, -, rfl⟩
  · exact (by decide : encode "d".toList = "d".toList)
  · exact encode_queryParam hplain hq
  · refine hmarked (by decide) (fun kv hkv => ?_) hh
    exact hplain.names kv (by simp [List.mem_of_mem_filter hkv])
  · exact hmarked (by decide) (fun kv hkv => hplain.names kv (by simp [hkv])) hr
  · exact hmarked (by decide) (fun kv hkv => hplain.names kv (by simp [hkv])) hr
  · exact (by decide +kernel : encode "x_headers".toList = "x_headers".toList)
  · exact (by decide +kernel : encode "transformer".toList = "transformer".toList)

theorem payloadPairs_names (hg : g.Valued) (now : ℕ) :
    ∀ p ∈ payloadPairs (g.payload now), encode p.1 = p.1 := by
  intro p hp
  have hmarked : ∀ {start k : Str}, encode start = start → encode k = k →
      encode (start ++ k) = start ++ k := by
    intro start k hstart hk
    rw [encode_append, hstart, hk]
  rcases mem_tokenParams ((mem_payloadPairs hg now p).mp hp) with rfl | hq | ⟨k, hk, hname⟩ | ⟨k, hk, hname⟩
  · exact (by decide : encode "d".toList = "d".toList)
  · exact encode_queryParam hplain hq
  · rw [hname]
    exact hmarked (by decide) (hplain.names (k, p.2) (by simp [hk]))
  · rw [hname]
    exact hmarked (by decide) (hplain.names (k, p.2) (by simp [hk]))

/-- No parameter has the name of another kind. -/
theorem queryParam_not_own {p : Str × Str} (h : p ∈ g.queryParams) : ¬ OwnName p.1 := by
  obtain ⟨hnames, hh, hr, hrp⟩ := hplain.reserved p h
  rintro (heq | hpre | hpre | hpre | heq | heq)
  · exact hnames (by rw [heq]; decide)
  · exact hh hpre
  · exact hr hpre
  · exact hrp hpre
  · exact hnames (by rw [heq]; decide)
  · exact hnames (by rw [heq]; decide)

theorem lastValue_params_eq_none {key : Str}
    (hkey : key = "token".toList ∨ key = "url".toList) : lastValue key g.params = none := by
  rw [lastValue_eq_none_iff]
  rintro p hp rfl
  rcases name_of_mem_params hp with hq | hown
  · refine (hplain.reserved p hq).1 ?_
    rcases hkey with h | h <;> rw [h] <;> decide
  · rcases hkey with h | h <;> rw [h] at hown <;>
      exact absurd hown (by unfold OwnName; decide)

end Names

theorem params_values (hg : g.Valued) : ∀ p ∈ g.params, p.2 ≠ [] := by
  intro p hp
  rcases mem_params hp with ⟨-, rfl⟩ | hq | hh | hr | hr | ⟨hne, rfl⟩ | ⟨transformer, heq, rfl⟩
  · exact hg.destination
  · exact hg.queryParams p hq
  · exact (mem_prefixedParams hh).1
  · exact (mem_prefixedParams hr).1
  · exact (mem_prefixedParams hr).1
  · -- the first name that is removed is not empty
    obtain ⟨first, rest, hremoved⟩ := List.exists_cons_of_ne_nil hne
    obtain ⟨c, cs, hfirst⟩ := List.exists_cons_of_ne_nil
      (hg.removed first (hremoved ▸ List.mem_cons_self))
    show [','].intercalate g.removeResponseHeaders ≠ []
    rw [hremoved, hfirst]
    cases rest with
    | nil => simp [List.intercalate]
    | cons second rest => simp [List.intercalate_cons_cons]
  · rintro rfl
    exact hg.transformer heq

/-! ### What the middleware passes on -/

theorem queryChar_of_mem {pairs : List (Str × Str)} (hnames : ∀ p ∈ pairs, encode p.1 = p.1)
    {c : Char} (hc : c ∈ joinFields (encodedFields pairs)) : queryChar c = true := by
  have hencoding : encodingChar c = true → queryChar c = true := by
    intro h
    unfold queryChar
    rw [h]
    rfl
  rcases mem_joinFields hc with rfl | rfl | ⟨f, hf, hc⟩
  · rfl
  · rfl
  · obtain ⟨p, hp, rfl⟩ := List.mem_map.mp hf
    rcases hc with hc | hc
    · rw [← hnames p hp] at hc
      exact hencoding (encodingChar_of_mem_encode hc)
    · exact hencoding (encodingChar_of_mem_encode hc)

theorem hash_not_mem_query {pairs : List (Str × Str)} (hnames : ∀ p ∈ pairs, encode p.1 = p.1) :
    '#' ∉ joinFields (encodedFields pairs) := by
  intro hmem
  exact absurd (queryChar_of_mem hnames hmem) (by decide)

/-- A path begins with a slash, if there is one. -/
theorem tail_slash (web : WebCrates) (g : GenerateUrlRequest) :
    g.endpointPath ++ g.filenamePath web = [] ∨
      ∃ rest, g.endpointPath ++ g.filenamePath web = '/' :: rest := by
  unfold GenerateUrlRequest.endpointPath GenerateUrlRequest.filenamePath
  split
  · exact .inr ⟨_, rfl⟩
  · split
    · exact .inr ⟨_, rfl⟩
    · exact .inl rfl

theorem splitPathToken_append {token : Str} (htoken : '/' ∉ token) :
    AuthMiddleware.splitPathToken (token ++ (g.endpointPath ++ g.filenamePath web)) =
      (token, g.remainingPath web) := by
  unfold AuthMiddleware.splitPathToken GenerateUrlRequest.remainingPath
  rcases tail_slash web g with hnil | ⟨rest, hrest⟩
  · rw [hnil, List.append_nil, find_singleton_of_not_mem htoken, if_pos rfl]
  · rw [hrest, find_singleton_append htoken, if_neg (List.cons_ne_nil _ _)]
    simp

theorem remainingPath_pathChar (hweb : web.CodesUrls) (hendpoint : ∀ c ∈ g.endpointPath, pathChar c = true) :
    ∀ c ∈ g.remainingPath web, pathChar c = true := by
  intro c hc
  unfold GenerateUrlRequest.remainingPath at hc
  split at hc
  · rw [List.mem_singleton.mp hc]
    rfl
  · rcases List.mem_append.mp hc with hc | hc
    · exact hendpoint c hc
    · exact filenamePath_pathChar hweb hc

/-- **The encrypted URL is passed on** with the payload, and with its parameters as the query. -/
theorem call_encrypted (hweb : web.CodesUrls) (huris : web.ParsesUris) {now : ℕ}
    (hmint : crates.Mints (g.payload now)) {iv : Bytes} (hiv : iv.length = 16) {password : Str}
    (hpassword : password ≠ []) (hg : g.Valued) (hplain : g.Unambiguous web crates)
    (later : ℕ) (clientIp : Option Str) :
    (AuthMiddleware.new password).call web crates.toTokenCrates later (requestFor clientIp g.base
      (buildProxyUrl web crates { g with apiPassword := some password } iv now)) =
      .ok ⟨.get, ⟨g.remainingPath web, joinFields (encodedFields (payloadPairs (g.payload now)))⟩,
        clientIp, some (g.payload now)⟩ := by
  have hexp : (g.payload now).exp = none := by
    show g.expiration.map (now + ·) = none
    rw [hg.expiration]
    rfl
  generalize htoken : (EncryptionHandler.new (utf8 password)).encrypt crates iv (g.payload now) = token
  have hchars : ∀ c ∈ token, unreserved c = true := by
    rw [← htoken]
    exact hmint.alphabet _
  have hslash : '/' ∉ token := fun h => absurd (hchars _ h) (by decide)
  have hurl : buildProxyUrl web crates { g with apiPassword := some password } iv now =
      g.base ++ ("/_token_".toList ++ (token ++ (g.endpointPath ++ g.filenamePath web))) := by
    have hfilter : (some password).filter (· ≠ []) = some password := by simp [hpassword]
    unfold buildProxyUrl
    simp only [hfilter]
    show g.base ++ "/_token_".toList ++ (EncryptionHandler.new (utf8 password)).encrypt crates iv
      (g.payload now) ++ g.endpointPath ++ g.filenamePath web = _
    rw [htoken]
    simp only [List.append_assoc]
  have hpath : ∀ c ∈ "/_token_".toList ++ (token ++ (g.endpointPath ++ g.filenamePath web)),
      pathChar c = true := by
    intro c hc
    rcases List.mem_append.mp hc with hc | hc
    · have hmark : "/_token_".toList.all pathChar = true := by decide
      exact List.all_eq_true.mp hmark c hc
    rcases List.mem_append.mp hc with hc | hc
    · unfold pathChar encodingChar
      rw [hchars c hc]
      rfl
    rcases List.mem_append.mp hc with hc | hc
    · exact hplain.endpoint c hc
    · exact filenamePath_pathChar hweb hc
  have hquery : buildQueryFromProxyData web (g.payload now) [] =
      joinFields (encodedFields (payloadPairs (g.payload now))) := by
    unfold buildQueryFromProxyData
    exact intercalate_queryPair hweb _
  have hparse : web.parseUri (pathAndQuery (g.remainingPath web)
      (joinFields (encodedFields (payloadPairs (g.payload now))))) =
      some ⟨g.remainingPath web, joinFields (encodedFields (payloadPairs (g.payload now)))⟩ := by
    refine huris ?_ (remainingPath_pathChar hweb hplain.endpoint) (fun c hc => ?_) ?_
    · unfold GenerateUrlRequest.remainingPath
      split
      · exact List.cons_ne_nil _ _
      · assumption
    · exact queryChar_of_mem (payloadPairs_names hplain hg now) hc
    · rw [← hquery]
      exact hplain.short now
  rw [hurl, (requestFor_append (not_mem_of_pathChar (by decide) hpath)
    (not_mem_of_pathChar (by decide) hpath) (List.not_mem_nil)).2]
  have hhandler : (AuthMiddleware.new password).encryptionHandler = some (.new (utf8 password)) :=
    if_neg hpassword
  rw [call_of_pathToken hpassword (stripPrefix_append _ _) hhandler]
  refine callPathToken_ok_iff.mpr ⟨g.payload now, _, ?_, ?_, rfl⟩
  · rw [splitPathToken_append hslash, ← htoken]
    exact decrypt_encrypt hmint hiv hexp hg.ip _ _ _
  · rw [splitPathToken_append hslash]
    exact (congrArg (fun q => web.parseUri (pathAndQuery (g.remainingPath web) q)) hquery).trans hparse

/-- **The plain URL is passed on** with what the middleware takes from its query. -/
theorem call_plain (hweb : web.CodesUrls) (hbase64 : ∀ bytes, ∀ c ∈ crates.urlSafeEncode bytes,
      unreserved c = true) (hg : g.Valued) (hplain : g.Unambiguous web crates)
    (iv : Bytes) (now later : ℕ) (clientIp : Option Str) :
    (AuthMiddleware.new []).call web crates.toTokenCrates later (requestFor clientIp g.base
      (buildProxyUrl web crates { g with apiPassword := none } iv now)) =
      .ok ⟨.get, ⟨g.plainPath web crates, joinFields (encodedFields g.params)⟩, clientIp,
        some (storedProxyData web (joinFields (encodedFields g.params)))⟩ := by
  have hpath : ∀ c ∈ g.plainPath web crates, pathChar c = true := by
    intro c hc
    rcases List.mem_append.mp hc with hc | hc
    · exact hplain.endpoint c hc
    · split at hc
      · rcases List.mem_cons.mp hc with rfl | hc
        · rfl
        · unfold pathChar encodingChar
          rw [hbase64 _ c hc]
          rfl
      · exact filenamePath_pathChar hweb hc
  have hnames := params_names hplain
  have hrequest : requestFor clientIp g.base
      (buildProxyUrl web crates { g with apiPassword := none } iv now) =
      ⟨.get, ⟨g.plainPath web crates, joinFields (encodedFields g.params)⟩, clientIp, none⟩ := by
    have hboth := @requestFor_append clientIp g.base _ (not_mem_of_pathChar (by decide) hpath)
      (not_mem_of_pathChar (by decide) hpath) _ (hash_not_mem_query hnames)
    show requestFor clientIp g.base (if g.params = [] then g.base ++ g.plainPath web crates
      else g.base ++ g.plainPath web crates ++ '?' :: ['&'].intercalate (g.params.map (queryPair web))) = _
    rw [intercalate_queryPair hweb]
    split
    · next hnil =>
      rw [hboth.2, hnil]
      rfl
    · rw [List.append_assoc, hboth.1]
  have htoken : (extractQueryParams web (joinFields (encodedFields g.params))).lookup "token".toList =
      none := by
    rw [lookup_extract (by decide)]
    show (takenValue web (joinFields (encodedFields g.params)) "token".toList).map _ = none
    rw [takenValue_encodedFields hweb hnames (params_values hg),
      lastValue_params_eq_none hplain (.inl rfl)]
    rfl
  have hmark : "/_token_".toList.isPrefixOf (g.plainPath web crates) = false := by
    by_contra hnot
    obtain ⟨rest, hrest⟩ := List.isPrefixOf_iff_prefix.mp (Bool.eq_true_of_not_eq_false hnot)
    have hnone := hplain.noToken
    rw [← hrest, stripPrefix_append] at hnone
    cases hnone
  rw [hrequest]
  unfold AuthMiddleware.call
  rw [if_pos (show (AuthMiddleware.new []).apiPassword = [] from rfl)]
  unfold AuthMiddleware.callWithoutPassword
  show (if "/_token_".toList.isPrefixOf (g.plainPath web crates) = true ∨
    ((extractQueryParams web (joinFields (encodedFields g.params))).lookup "token".toList).isSome = true
    then _ else _) = _
  rw [htoken, hmark, if_neg (by simp)]
  rfl

/-! ### What handlers see -/

/-- What handlers see alike, in terms of the request for the URL. -/
structure SeenAlike (web : WebCrates) (crates : MintCrates) (g : GenerateUrlRequest) : Prop where
  destination : handlerDestination crates (g.remainingPath web) (g.payload 0) =
    handlerDestination crates (g.plainPath web crates)
      { g.payload 0 with destination := (lastValue "d".toList g.params).getD [] }
  query : ∀ key, key ≠ "d".toList → lastValue key g.tokenParams = lastValue key g.params
  requestHeaders : ∀ name, g.requestHeaders.lookup name = lastValue ("h_".toList ++ name) g.params
  responseHeaders : ∀ name, g.responseHeaders.lookup name = lastValue ("r_".toList ++ name) g.params
  unbaked : ∀ name, name.map Char.toLower ∈ supportedRequestHeaders →
    g.requestHeaders.lookup name = none

theorem handlerDestination_congr (path : Str) {pa pb : ProxyData}
    (h : pa.destination = pb.destination) :
    handlerDestination crates path pa = handlerDestination crates path pb := by
  unfold handlerDestination resolveStreamDestination
  rw [h]

theorem map_string_eq_iff {a b : Option Str} :
    a.map Value.string = b.map Value.string ↔ a = b := by
  constructor
  · intro h
    exact Option.map_injective (fun _ _ => Value.string.inj) h
  · rintro rfl
    rfl

/-- **The same in terms of the request for the URL.** -/
theorem meansTheSame_iff_seenAlike (hweb : web.CodesUrls) (huris : web.ParsesUris) {now : ℕ}
    (hmint : crates.Mints (g.payload now)) {iv : Bytes} (hiv : iv.length = 16) {password : Str}
    (hpassword : password ≠ []) (hg : g.Valued) (hplain : g.Unambiguous web crates)
    (later : ℕ) (clientIp : Option Str) :
    MeansTheSame web crates clientIp password iv now later g ↔ SeenAlike web crates g := by
  have hencrypted := call_encrypted hweb huris hmint hiv hpassword hg hplain later clientIp
  have hurl := call_plain hweb hmint.alphabet hg hplain iv now later clientIp
  have htaken := takenValue_encodedFields hweb (params_names hplain) (params_values hg)
  obtain ⟨hdestination, hrequest, hresponse⟩ :=
    @stored_eq web (joinFields (encodedFields g.params))
  -- what both see of each part
  have hpa : ∀ name, headerValue (g.payload now).requestHeaders name =
      (g.requestHeaders.lookup name).map .string := headerValue_toValue hg.requestHeaders_nodup
  have hra : ∀ name, headerValue (g.payload now).responseHeaders name =
      (g.responseHeaders.lookup name).map .string := headerValue_toValue hg.responseHeaders_nodup
  have hpb : ∀ name, headerValue (storedProxyData web (joinFields (encodedFields g.params))).requestHeaders
      name = (lastValue ("h_".toList ++ name) g.params).map .string := by
    intro name
    rw [hrequest, htaken]
  have hrb : ∀ name, headerValue (storedProxyData web (joinFields (encodedFields g.params))).responseHeaders
      name = (lastValue ("r_".toList ++ name) g.params).map .string := by
    intro name
    rw [hresponse, htaken]
  have hdb : (storedProxyData web (joinFields (encodedFields g.params))).destination =
      (lastValue "d".toList g.params).getD [] := by
    rw [hdestination, htaken, htaken, lastValue_params_eq_none hplain (.inr rfl), Option.or_none]
  have hqa : ∀ key, lastValue key (web.formPairs (joinFields (encodedFields
      (payloadPairs (g.payload now))))) = lastValue key g.tokenParams := by
    intro key
    rw [hweb.formPairs, formPairs_encodedFields (payloadPairs_names hplain hg now),
      lastValue_payloadPairs hg]
  have hqb : ∀ key, lastValue key (web.formPairs (joinFields (encodedFields g.params))) =
      lastValue key g.params := by
    intro key
    rw [hweb.formPairs, formPairs_encodedFields (params_names hplain)]
  have hda : handlerDestination crates (g.remainingPath web) (g.payload now) =
      handlerDestination crates (g.remainingPath web) (g.payload 0) := rfl
  have hdb' : handlerDestination crates (g.plainPath web crates)
      (storedProxyData web (joinFields (encodedFields g.params))) =
      handlerDestination crates (g.plainPath web crates)
        { g.payload 0 with destination := (lastValue "d".toList g.params).getD [] } :=
    handlerDestination_congr _ hdb
  constructor
  · rintro ⟨a, b, pa, pb, ha, hpda, hb, hpdb, hsame⟩
    rw [hencrypted] at ha
    rw [hurl] at hb
    obtain rfl := Except.ok.inj ha
    obtain rfl := Except.ok.inj hb
    obtain rfl := Option.some.inj hpda
    obtain rfl := Option.some.inj hpdb
    refine ⟨?_, fun key hkey => ?_, fun name => ?_, fun name => ?_, fun name hname => ?_⟩
    · exact hda.symm.trans (hsame.destination.trans hdb')
    · rw [← hqa, ← hqb]
      exact hsame.query key hkey
    · rw [← map_string_eq_iff, ← hpa, ← hpb]
      exact hsame.requestHeaders name
    · rw [← map_string_eq_iff, ← hra, ← hrb]
      exact hsame.responseHeaders name
    · have hnone := (hsame.unbaked name hname).1
      rw [hpa] at hnone
      exact Option.map_eq_none_iff.mp hnone
  · intro h
    refine ⟨_, _, _, _, hencrypted, rfl, hurl, rfl, ?_, fun key hkey => ?_, fun name => ?_,
      fun name => ?_, fun name hname => ?_⟩
    · exact hda.trans (h.destination.trans hdb'.symm)
    · exact (hqa key).trans ((h.query key hkey).trans (hqb key).symm)
    · rw [hpa, hpb, h.requestHeaders]
    · rw [hra, hrb, h.responseHeaders]
    · rw [hpa, hpb, ← h.requestHeaders, h.unbaked name hname]
      exact ⟨rfl, rfl⟩

/-! ### From what is seen to what is written -/

/-- A property of names that fails for marked names holds of all when it can only fail for a name
whose marked name is there too. -/
theorem all_of_marked {names : List Str} {P : Str → Prop} {mark : Str} (hmark : mark ≠ [])
    (h : ∀ k ∈ names, P k ∨ mark ++ k ∈ names) (hnot : ∀ k, ¬ P (mark ++ k)) :
    ∀ k ∈ names, P k := by
  obtain ⟨bound, hbound⟩ : ∃ bound, ∀ k ∈ names, k.length ≤ bound := by
    refine ⟨(names.map List.length).sum, fun k hk => ?_⟩
    exact List.le_sum_of_mem (List.mem_map_of_mem hk)
  intro k hk
  -- the names get longer, but not beyond the bound
  induction hroom : bound - k.length using Nat.strong_induction_on generalizing k with
  | _ room ih =>
    subst hroom
    refine (h k hk).resolve_right fun hmarked => ?_
    have hlen := hbound _ hmarked
    have hpos := List.length_pos_iff.mpr hmark
    rw [List.length_append] at hlen
    refine hnot k (ih (bound - (mark ++ k).length) ?_ (mark ++ k) hmarked rfl)
    rw [List.length_append]
    omega

theorem marks_apart {name : Str} : ("h_".toList <+: name → ¬ "r_".toList <+: name) ∧
    ("h_".toList <+: name → ¬ "rp_".toList <+: name) ∧
    ("r_".toList <+: name → ¬ "rp_".toList <+: name) := by
  refine ⟨?_, ?_, ?_⟩
  all_goals
    rintro ⟨a, rfl⟩ ⟨b, hb⟩
    cases hb

/-- A parameter with the mark of a header comes from the headers. -/
theorem mem_params_of_mark (hplain : g.Unambiguous web crates) {k v : Str} :
    (("h_".toList ++ k, v) ∈ g.params →
      (k, v) ∈ g.requestHeaders ∧ ¬ "h_".toList <+: k ∧ isPerRequest k = false ∨
        ("h_".toList ++ k, v) ∈ g.requestHeaders) ∧
    (("r_".toList ++ k, v) ∈ g.params →
      (k, v) ∈ g.responseHeaders ∧ ¬ "r_".toList <+: k ∨
        ("r_".toList ++ k, v) ∈ g.responseHeaders) := by
  have hown : ∀ {start : Str} {m : List (Str × Str)}, (start ++ k, v) ∈ prefixedParams start m →
      (k, v) ∈ m ∧ ¬ start <+: k ∨ (start ++ k, v) ∈ m := by
    intro start m hmem
    obtain ⟨-, other, hother, hname⟩ := mem_prefixedParams hmem
    unfold prefixed at hname
    split at hname
    · have hname : start ++ k = other := hname
      rw [hname]
      exact .inr hother
    · next hnot =>
      obtain rfl := List.append_cancel_left hname
      exact .inl ⟨hother, fun hpre => hnot (List.isPrefixOf_iff_prefix.mpr hpre)⟩
  have hstart : ∀ {start : Str} {m : List (Str × Str)} {p : Str × Str},
      p ∈ prefixedParams start m → start <+: p.1 := by
    intro start m p hp
    obtain ⟨-, other, -, hname⟩ := mem_prefixedParams hp
    rw [hname]
    exact prefix_prefixed start other
  constructor
  · intro hmem
    have hpre : "h_".toList <+: "h_".toList ++ k := List.prefix_append _ _
    rcases mem_params hmem with ⟨-, heq⟩ | hq | hh | hr | hr | ⟨-, heq⟩ | ⟨transformer, -, heq⟩
    · cases heq
    · exact absurd hpre (hplain.reserved _ hq).2.1
    · rcases hown hh with ⟨hkept, hnot⟩ | hmarked
      · obtain ⟨hheader, hper⟩ := List.mem_filter.mp hkept
        exact .inl ⟨hheader, hnot, by simpa using hper⟩
      · exact .inr (List.mem_of_mem_filter hmarked)
    · exact absurd (hstart hr) (marks_apart.1 hpre)
    · exact absurd (hstart hr) (marks_apart.2.1 hpre)
    · cases heq
    · cases heq
  · intro hmem
    have hpre : "r_".toList <+: "r_".toList ++ k := List.prefix_append _ _
    rcases mem_params hmem with ⟨-, heq⟩ | hq | hh | hr | hr | ⟨-, heq⟩ | ⟨transformer, -, heq⟩
    · cases heq
    · exact absurd hpre (hplain.reserved _ hq).2.2.1
    · exact absurd hpre (marks_apart.1 (hstart hh))
    · exact hown hr
    · exact absurd (hstart hr) (marks_apart.2.2 hpre)
    · cases heq
    · cases heq

/-- A token carries no names of its own but those of destination and headers. -/
theorem lastValue_tokenParams_eq_none (hplain : g.Unambiguous web crates) {key : Str}
    (hkey : "rp_".toList <+: key ∨ key = "x_headers".toList ∨ key = "transformer".toList) :
    lastValue key g.tokenParams = none := by
  have hown : OwnName key := by
    rcases hkey with h | h | h
    · exact .inr (.inr (.inr (.inl h)))
    · exact .inr (.inr (.inr (.inr (.inl h))))
    · exact .inr (.inr (.inr (.inr (.inr h))))
  rw [lastValue_eq_none_iff]
  rintro p hp rfl
  rcases mem_tokenParams hp with rfl | hq | ⟨k, -, hname⟩ | ⟨k, -, hname⟩
  · exact absurd hkey (by decide : ¬ ("rp_".toList <+: "d".toList ∨ "d".toList = "x_headers".toList ∨
      "d".toList = "transformer".toList))
  · exact queryParam_not_own hplain hq hown
  · rw [hname] at hkey
    rcases hkey with h | h | h
    · exact marks_apart.2.1 (List.prefix_append _ _) h
    · cases h
    · cases h
  · rw [hname] at hkey
    rcases hkey with h | h | h
    · exact marks_apart.2.2 (List.prefix_append _ _) h
    · cases h
    · cases h

theorem handlerDestination_ne_nil {path : Str} {pd : ProxyData} (h : pd.destination ≠ []) :
    handlerDestination crates path pd ≠ [] := by
  unfold handlerDestination
  split
  · cases hfilter : (resolveStreamDestination crates _ pd).filter (· ≠ []) with
    | none => exact h
    | some s => simpa using (Option.filter_eq_some_iff.mp hfilter).2
  · exact h

/-- A request without a destination of its own that has one has it from its path. -/
theorem handlerDestination_of_nil {path : Str} {pd : ProxyData} (h : pd.destination = []) {d : Str}
    (hd : d ≠ []) (heq : d = handlerDestination crates path pd) :
    ∃ filename, streamFilename path = some filename ∧ filename ≠ [] ∧
      decodeBase64Url crates filename = some d := by
  unfold handlerDestination resolveStreamDestination at heq
  rw [h] at heq
  cases hname : streamFilename path with
  | none =>
    rw [hname] at heq
    exact absurd heq hd
  | some filename =>
    simp only [hname, ne_eq, not_true_eq_false, if_false] at heq
    by_cases hfilename : filename = []
    · rw [if_neg (not_not.mpr hfilename)] at heq
      exact absurd heq hd
    · rw [if_pos hfilename] at heq
      cases hdecode : decodeBase64Url crates filename with
      | none =>
        rw [hdecode] at heq
        exact absurd heq hd
      | some s =>
        rw [hdecode] at heq
        by_cases hs : s = []
        · simp [hs] at heq
          exact absurd heq hd
        · have hkept : (some s).filter (· ≠ []) = some s := by simp [hs]
          rw [hkept, Option.getD_some] at heq
          exact ⟨filename, rfl, hfilename, by rw [hdecode, heq]⟩

/-- Parameters that only plain URLs carry. -/
theorem mem_params_of_part :
    (∀ p ∈ prefixedParams "rp_".toList g.propagateResponseHeaders, p ∈ g.params) ∧
      (g.removeResponseHeaders ≠ [] →
        ("x_headers".toList, [','].intercalate g.removeResponseHeaders) ∈ g.params) ∧
      ∀ transformer, g.streamTransformer = some transformer →
        ("transformer".toList, transformer) ∈ g.params := by
  unfold GenerateUrlRequest.params
  refine ⟨fun p hp => ?_, fun hne => ?_, fun transformer heq => ?_⟩
  · exact List.mem_append_left _ (List.mem_append_left _ (List.mem_append_right _ hp))
  · refine List.mem_append_left _ (List.mem_append_right _ ?_)
    rw [if_neg hne]
    exact List.mem_singleton_self _
  · refine List.mem_append_right _ ?_
    rw [heq]
    exact List.mem_singleton_self _

theorem lastValue_d_eq_none (hplain : g.Unambiguous web crates)
    (hbase64 : g.base64EncodeDestination = true) : lastValue "d".toList g.params = none := by
  rw [lastValue_eq_none_iff]
  intro p hp heq
  have hstart : ∀ {start : Str} {m : List (Str × Str)}, p ∈ prefixedParams start m →
      start <+: "d".toList := by
    intro start m hp
    obtain ⟨-, other, -, hname⟩ := mem_prefixedParams hp
    rw [← heq, hname]
    exact prefix_prefixed start other
  rcases mem_params hp with ⟨hfalse, -⟩ | hq | hh | hr | hrp | ⟨-, rfl⟩ | ⟨transformer, -, rfl⟩
  · rw [hbase64] at hfalse
    cases hfalse
  · exact (hplain.reserved p hq).1 (by rw [heq]; decide)
  · exact absurd (hstart hh) (by decide)
  · exact absurd (hstart hr) (by decide)
  · exact absurd (hstart hrp) (by decide)
  · cases heq
  · cases heq

/-- Headers that are looked up as the parameters with the marked name have a property that only the
headers with a marked name can make fail. -/
theorem all_of_lookups {headers params : List (Str × Str)} {mark : Str} {P : Str → Prop}
    (hmark : mark ≠ []) (hnot : ∀ k, ¬ P (mark ++ k)) (hnodup : (headers.map Prod.fst).Nodup)
    (hseen : ∀ k, headers.lookup k = lastValue (mark ++ k) params)
    (hmarked : ∀ {k v}, (mark ++ k, v) ∈ params → P k ∨ (mark ++ k, v) ∈ headers) :
    ∀ kv ∈ headers, P kv.1 := by
  have hnames : ∀ k ∈ headers.map Prod.fst, P k ∨ mark ++ k ∈ headers.map Prod.fst := by
    intro k hk
    obtain ⟨⟨k, v⟩, hkv, rfl⟩ := List.mem_map.mp hk
    have hvalue := hseen k
    rw [(lookup_eq_some_iff_mem hnodup).mpr hkv] at hvalue
    exact (hmarked (mem_of_lastValue hvalue.symm)).imp_right List.mem_map_of_mem
  exact fun kv hkv => all_of_marked hmark hnames hnot kv.1 (List.mem_map_of_mem hkv)

section SeenAlike

variable (h : SeenAlike web crates g) (hg : g.Valued) (hplain : g.Unambiguous web crates)

include h hplain

/-- Nothing is written that only plain URLs carry. -/
theorem false_of_only_plain {key v : Str}
    (hkey : "rp_".toList <+: key ∨ key = "x_headers".toList ∨ key = "transformer".toList)
    (hmem : (key, v) ∈ g.params) : False := by
  have hd : key ≠ "d".toList := by
    rintro rfl
    exact absurd hkey (by decide)
  have hnone := (h.query key hd).symm.trans (lastValue_tokenParams_eq_none hplain hkey)
  exact lastValue_eq_none_iff.mp hnone _ hmem rfl

include hg

theorem requestHeaders_of_seenAlike :
    ∀ kv ∈ g.requestHeaders, ¬ "h_".toList <+: kv.1 ∧ isPerRequest kv.1 = false :=
  all_of_lookups (P := fun k => ¬ "h_".toList <+: k ∧ isPerRequest k = false) (by decide)
    (fun _ hk => hk.1 (List.prefix_append _ _)) hg.requestHeaders_nodup h.requestHeaders
    fun hmem => ((mem_params_of_mark hplain).1 hmem).imp_left fun hgood => hgood.2

theorem responseHeaders_of_seenAlike : ∀ kv ∈ g.responseHeaders, ¬ "r_".toList <+: kv.1 :=
  all_of_lookups (P := fun k => ¬ "r_".toList <+: k) (by decide)
    (fun _ hk => hk (List.prefix_append _ _)) hg.responseHeaders_nodup h.responseHeaders
    fun hmem => ((mem_params_of_mark hplain).2 hmem).imp_left fun hgood => hgood.2

theorem SeenAlike.writtenAlike : g.WrittenAlike web crates := by
  refine ⟨requestHeaders_of_seenAlike h hg hplain, responseHeaders_of_seenAlike h hg hplain,
    ?_, ?_, ?_, fun hbase64 => ?_⟩
  · refine List.eq_nil_iff_forall_not_mem.mpr fun kv hkv => ?_
    have hvalue : kv ∈ g.propagateResponseHeaders.filter fun kv => kv.2 ≠ [] :=
      List.mem_filter.mpr ⟨hkv, by simpa using hg.propagated kv hkv⟩
    exact false_of_only_plain h hplain (.inl (prefix_prefixed "rp_".toList kv.1))
      (mem_params_of_part.1 _ (List.mem_map_of_mem hvalue))
  · by_contra hne
    exact false_of_only_plain h hplain (.inr (.inl rfl)) (mem_params_of_part.2.1 hne)
  · cases htransformer : g.streamTransformer with
    | none => rfl
    | some transformer =>
      exact (false_of_only_plain h hplain (.inr (.inr rfl))
        (mem_params_of_part.2.2 transformer htransformer)).elim
  · refine handlerDestination_of_nil ?_ (handlerDestination_ne_nil hg.destination) h.destination
    rw [lastValue_d_eq_none hplain hbase64]
    rfl

end SeenAlike

/-! ### From what is written to what is seen -/

theorem lastValue_singleton_of_ne {k key : Str} (v : Str) (h : k ≠ key) :
    lastValue key [(k, v)] = none := by
  rw [lastValue_eq_none_iff]
  intro p hp
  rw [List.mem_singleton.mp hp]
  exact h

/-- Marked pairs under another mark. -/
theorem lastValue_marked_eq_none {start key : Str} (h : ¬ start <+: key) (m : List (Str × Str)) :
    lastValue key (m.map fun (k, v) => (start ++ k, v)) = none := by
  rw [lastValue_eq_none_iff]
  intro p hp heq
  obtain ⟨kv, -, rfl⟩ := List.mem_map.mp hp
  exact h ⟨kv.1, heq⟩

theorem lastValue_marked {m : List (Str × Str)} (hm : (m.map Prod.fst).Nodup) (start name : Str) :
    lastValue (start ++ name) (m.map fun (k, v) => (start ++ k, v)) = m.lookup name := by
  have hnames : ((m.map fun (k, v) => (start ++ k, v)).map Prod.fst).Nodup := by
    have hinj := hm.map (f := (start ++ ·)) fun a b h => List.append_cancel_left h
    rw [List.map_map] at hinj ⊢
    exact hinj
  ext v
  rw [lookup_eq_some_iff_mem hm]
  constructor
  · intro h
    obtain ⟨kv, hkv, heq⟩ := List.mem_map.mp (mem_of_lastValue h)
    obtain ⟨hname, hvalue⟩ := Prod.mk.inj heq
    rw [← List.append_cancel_left hname, ← hvalue]
    exact hkv
  · intro h
    exact lastValue_of_mem hnames
      (List.mem_map_of_mem (f := fun kv : Str × Str => (start ++ kv.1, kv.2)) h)

theorem isPerRequest_of_supported {name : Str}
    (h : name.map Char.toLower ∈ supportedRequestHeaders) : isPerRequest name = true := by
  have hmark : ∀ lower ∈ supportedRequestHeaders,
      supportedRequestHeaders.contains ((stripPrefix "h_".toList lower).getD lower) = true := by
    decide +kernel
  exact hmark _ h

/-- The parameters of a plain URL whose names are as they should be. -/
theorem params_eq (h : g.WrittenAlike web crates) (hg : g.Valued) : g.params =
    (if g.base64EncodeDestination then [] else [("d".toList, g.destinationUrl)]) ++ g.queryParams
      ++ g.requestHeaders.map (fun (k, v) => ("h_".toList ++ k, v))
      ++ g.responseHeaders.map (fun (k, v) => ("r_".toList ++ k, v)) := by
  have hvalued : ∀ {m : List (Str × Str)}, (∀ kv ∈ m, kv.2 ≠ []) → m.filter (fun kv => kv.2 ≠ []) = m :=
    fun hm => List.filter_eq_self.mpr fun kv hkv => by simpa using hm kv hkv
  have hmarked : ∀ {start : Str} {m : List (Str × Str)}, (∀ kv ∈ m, kv.2 ≠ []) →
      (∀ kv ∈ m, ¬ start <+: kv.1) →
      prefixedParams start m = m.map fun (k, v) => (start ++ k, v) := by
    intro start m hm hstart
    unfold prefixedParams
    rw [hvalued hm]
    refine List.map_congr_left fun kv hkv => ?_
    unfold prefixed
    rw [if_neg fun hpre => hstart kv hkv (List.isPrefixOf_iff_prefix.mp hpre)]
  have hkept : g.requestHeaders.filter (fun kv => !isPerRequest kv.1) = g.requestHeaders := by
    refine List.filter_eq_self.mpr fun kv hkv => ?_
    rw [(h.requestHeaders kv hkv).2]
    rfl
  have hpropagated : prefixedParams "rp_".toList g.propagateResponseHeaders = [] := by
    rw [h.propagated]
    rfl
  unfold GenerateUrlRequest.params
  rw [hvalued hg.queryParams, hkept, hpropagated, h.removed, h.transformer,
    hmarked hg.requestHeaders fun kv hkv => (h.requestHeaders kv hkv).1,
    hmarked hg.responseHeaders h.responseHeaders]
  simp

/-- The stream endpoint is the stream endpoint for both. -/
theorem streamFilename_isSome (hbase64 : g.base64EncodeDestination = false) :
    (streamFilename (g.remainingPath web)).isSome =
      (streamFilename (g.plainPath web crates)).isSome := by
  have hpath : g.plainPath web crates = g.endpointPath ++ g.filenamePath web := by
    unfold GenerateUrlRequest.plainPath
    rw [hbase64]
    rfl
  unfold GenerateUrlRequest.remainingPath
  rw [hpath]
  split
  · next hnil =>
    rw [hnil]
    decide
  · rfl

/-- Without a destination of its own, a request has that of its path. -/
theorem handlerDestination_of_path {path filename d : Str} {pd : ProxyData}
    (h : pd.destination = []) (hname : streamFilename path = some filename) (hne : filename ≠ [])
    (hdecode : decodeBase64Url crates filename = some d) (hd : d ≠ []) :
    handlerDestination crates path pd = d := by
  have hkept : (some d).filter (· ≠ []) = some d := by simp [hd]
  unfold handlerDestination resolveStreamDestination
  simp only [hname, h, ne_eq, not_true_eq_false, if_false]
  rw [if_pos hne, hdecode, hkept]
  rfl

/-- A destination that is given is resolved without the path. -/
theorem handlerDestination_eq_of_isSome {p q : Str} {pd : ProxyData} (hd : pd.destination ≠ [])
    (h : (streamFilename p).isSome = (streamFilename q).isSome) :
    handlerDestination crates p pd = handlerDestination crates q pd := by
  unfold handlerDestination resolveStreamDestination
  simp only [if_pos hd]
  cases hp : streamFilename p with
  | none =>
    cases hq : streamFilename q with
    | none => rfl
    | some _ =>
      rw [hp, hq] at h
      cases h
  | some _ =>
    cases hq : streamFilename q with
    | none =>
      rw [hp, hq] at h
      cases h
    | some _ => rfl

theorem GenerateUrlRequest.WrittenAlike.seenAlike (h : g.WrittenAlike web crates) (hg : g.Valued)
    (hplain : g.Unambiguous web crates) : SeenAlike web crates g := by
  have hparams := params_eq h hg
  have hquery : ∀ {key : Str}, OwnName key → lastValue key g.queryParams = none := by
    intro key hkey
    rw [lastValue_eq_none_iff]
    rintro p hp rfl
    exact queryParam_not_own hplain hp hkey
  have hd : ∀ key, key ≠ "d".toList → lastValue key
      (if g.base64EncodeDestination then [] else [("d".toList, g.destinationUrl)]) = none := by
    intro key hkey
    split
    · rfl
    · exact lastValue_singleton_of_ne _ hkey.symm
  constructor
  · cases hbase64 : g.base64EncodeDestination with
    | true =>
      obtain ⟨filename, hname, hne, hdecode⟩ := h.destination hbase64
      have hnil : (lastValue "d".toList g.params).getD [] = [] := by
        rw [lastValue_d_eq_none hplain hbase64]
        rfl
      have hdestination := @handlerDestination_ne_nil crates (g.remainingPath web) (g.payload 0)
        hg.destination
      exact (handlerDestination_of_path hnil hname hne hdecode hdestination).symm
    | false =>
      have hsome : lastValue "d".toList g.params = some g.destinationUrl := by
        rw [hparams, hbase64]
        simp only [lastValue_append]
        rw [lastValue_marked_eq_none (by decide), lastValue_marked_eq_none (by decide),
          hquery (.inl rfl)]
        rfl
      rw [hsome]
      exact handlerDestination_eq_of_isSome hg.destination (streamFilename_isSome hbase64)
  · intro key hkey
    rw [hparams, GenerateUrlRequest.tokenParams]
    simp only [lastValue_append]
    rw [hd key hkey, lastValue_singleton_of_ne _ hkey.symm]
  · intro name
    have hpre : "h_".toList <+: "h_".toList ++ name := List.prefix_append _ _
    have hne : "h_".toList ++ name ≠ "d".toList := fun heq => by cases heq
    rw [hparams]
    simp only [lastValue_append]
    rw [lastValue_marked_eq_none (marks_apart.1 hpre), lastValue_marked hg.requestHeaders_nodup,
      hquery (.inr (.inl hpre)), hd _ hne]
    simp
  · intro name
    have hpre : "r_".toList <+: "r_".toList ++ name := List.prefix_append _ _
    have hne : "r_".toList ++ name ≠ "d".toList := fun heq => by cases heq
    rw [hparams]
    simp only [lastValue_append]
    rw [lastValue_marked hg.responseHeaders_nodup,
      lastValue_marked_eq_none fun hh => marks_apart.1 hh hpre,
      hquery (.inr (.inr (.inl hpre))), hd _ hne]
    simp
  · intro name hname
    cases hlookup : g.requestHeaders.lookup name with
    | none => rfl
    | some v =>
      have hheader := (lookup_eq_some_iff_mem hg.requestHeaders_nodup).mp hlookup
      have hkept := (h.requestHeaders _ hheader).2
      rw [isPerRequest_of_supported hname] at hkept
      cases hkept

end Reading

/-! ### Two requests -/

theorem standardWeb_parsesUris : standardWeb.ParsesUris := by
  intro path query _ hpath _ _
  have hquestion : '?' ∉ path := not_mem_of_pathChar (by decide) hpath
  show some (splitUri (if query = [] then path else path ++ '?' :: query)) = some ⟨path, query⟩
  by_cases hnil : query = []
  · rw [if_pos hnil, splitUri]
    cases hsplit : splitOnce '?' path with
    | none => rw [hnil]
    | some kv =>
      obtain ⟨rfl, -⟩ := splitOnce_eq_some_iff.mp hsplit
      exact absurd (List.mem_append_right _ List.mem_cons_self) hquestion
  · rw [if_neg hnil, splitUri, splitOnce_of_not_mem hquestion]

theorem unreserved_encodeUrlSafe (bytes : Bytes) :
    ∀ c ∈ Base64.encodeUrlSafe bytes, unreserved c = true := by
  have hdigit : ∀ n < 64, unreserved (Base64.toUrlSafe (Base64.digit n)) = true := by decide
  unfold Base64.encodeUrlSafe
  induction bytes using Base64.encodeWith.induct with
  | case1 a b c rest ih =>
    have ha : a.toNat < 256 := a.toNat_lt
    have hb : b.toNat < 256 := b.toNat_lt
    have hc : c.toNat < 256 := c.toNat_lt
    simp only [Base64.encodeWith, List.map_cons, List.forall_mem_cons]
    exact ⟨hdigit _ (by omega), hdigit _ (by omega), hdigit _ (by omega), hdigit _ (by omega), ih⟩
  | case2 a b =>
    have ha : a.toNat < 256 := a.toNat_lt
    have hb : b.toNat < 256 := b.toNat_lt
    simp only [Base64.encodeWith, List.append_nil, List.map_cons, List.map_nil, List.forall_mem_cons]
    exact ⟨hdigit _ (by omega), hdigit _ (by omega), hdigit _ (by omega),
      List.forall_mem_nil _⟩
  | case3 a =>
    have ha : a.toNat < 256 := a.toNat_lt
    simp only [Base64.encodeWith, List.append_nil, List.map_cons, List.map_nil, List.forall_mem_cons]
    exact ⟨hdigit _ (by omega), hdigit _ (by omega), List.forall_mem_nil _⟩
  | case4 => exact List.forall_mem_nil _

/-- The crates for one payload: `plaintext` is its JSON text and `ciphertext` what it is encrypted to
under the key of "secret" and a zero initialisation vector. Other data are marked by a zero. -/
def onePayload (payload : ProxyData) (plaintext ciphertext : Bytes) : MintCrates where
  base64Decode s :=
    match Base64.decode (Base64.padded (s.map Base64.toStandard)) with
    | some bytes => .ok bytes
    | none => .error "Invalid symbol".toList
  decryptPadded key iv data :=
    if key = (EncryptionHandler.new (utf8 "secret".toList)).key ∧ iv = List.replicate 16 0 ∧
      data = ciphertext then some plaintext
    else if data.head? = some 0 then some data.tail
    else none
  readProxyData bytes := if bytes = plaintext then some payload else none
  readMap _ := .error "expected value".toList
  standardDecode := Base64.decode
  urlSafeEncode := Base64.encodeUrlSafe
  encryptPadded key iv data :=
    if key = (EncryptionHandler.new (utf8 "secret".toList)).key ∧ iv = List.replicate 16 0 ∧
      data = plaintext then ciphertext
    else 0 :: data
  writeProxyData _ := plaintext
  parseUrl s := if s = "http://c/v".toList then some ⟨"http".toList, some (.domain ['c'])⟩ else none

theorem onePayload_mints (payload : ProxyData) (plaintext : Bytes) {first : UInt8} (rest : Bytes)
    (hfirst : first ≠ 0) : (onePayload payload plaintext (first :: rest)).Mints payload where
  base64 bytes := by
    show (match Base64.decode (Base64.padded ((Base64.encodeUrlSafe bytes).map Base64.toStandard)) with
      | some bytes => Except.ok bytes
      | none => Except.error "Invalid symbol".toList) = _
    rw [Base64.restandardize_encodeUrlSafe, Base64.decode_encode]
  alphabet := unreserved_encodeUrlSafe
  padding key iv data := by
    show (if _ then first :: rest else 0 :: data) ≠ []
    split <;> exact List.cons_ne_nil _ _
  decrypts {key iv} _ _ data := by
    by_cases h : key = (EncryptionHandler.new (utf8 "secret".toList)).key ∧
        iv = List.replicate 16 0 ∧ data = plaintext
    · have hencrypt : (onePayload payload plaintext (first :: rest)).encryptPadded key iv data =
          first :: rest := if_pos h
      rw [hencrypt, h.2.2]
      exact if_pos ⟨h.1, h.2.1, rfl⟩
    · have hencrypt : (onePayload payload plaintext (first :: rest)).encryptPadded key iv data =
          0 :: data := if_neg h
      rw [hencrypt]
      refine (if_neg fun heq => ?_).trans (if_pos rfl)
      exact hfirst (List.cons.inj heq.2.2).1.symm
  reads := if_pos rfl

/-- A request with one request header. -/
def oneHeader (name value : String) : GenerateUrlRequest where
  mediaflowProxyUrl := "http://p/".toList
  endpoint := some "proxy/stream".toList
  destinationUrl := "http://c/v".toList
  queryParams := [("lang".toList, "en".toList)]
  requestHeaders := [(name.toList, value.toList)]
  responseHeaders := []
  propagateResponseHeaders := []
  removeResponseHeaders := []
  streamTransformer := none
  filename := some "v.mp4".toList
  expiration := none
  ip := none
  apiPassword := none
  base64EncodeDestination := false

theorem oneHeader_valued {name value : String} (h : value.toList ≠ []) :
    (oneHeader name value).Valued where
  expiration := rfl
  ip := rfl
  destination := (by decide : "http://c/v".toList ≠ [])
  queryParams := (by decide : ∀ kv ∈ [("lang".toList, "en".toList)], kv.2 ≠ [])
  requestHeaders kv hkv := by
    rw [List.mem_singleton.mp hkv]
    exact h
  responseHeaders := nofun
  propagated := nofun
  removed := nofun
  transformer := nofun
  queryParams_nodup := List.nodup_singleton _
  requestHeaders_nodup := List.nodup_singleton _
  responseHeaders_nodup := List.nodup_nil

theorem oneHeader_unambiguous {name value : String} (crates : MintCrates)
    (hname : encode name.toList = name.toList) (hshort : (pathAndQuery
      ((oneHeader name value).remainingPath standardWeb)
      (buildQueryFromProxyData standardWeb ((oneHeader name value).payload 0) [])).length < 65535) :
    (oneHeader name value).Unambiguous standardWeb crates where
  names kv hkv := by
    rcases List.mem_cons.mp hkv with rfl | hkv
    · exact (by decide +kernel : encode "lang".toList = "lang".toList)
    · rw [List.mem_singleton.mp hkv]
      exact hname
  reserved kv hkv := by
    rw [List.mem_singleton.mp hkv]
    exact ⟨by decide, by decide, by decide, by decide⟩
  endpoint c hc := by
    have hall : "/proxy/stream".toList.all pathChar = true := by decide +kernel
    exact List.all_eq_true.mp hall c hc
  noToken := (by decide +kernel :
    stripPrefix "/_token_".toList "/proxy/stream/v.mp4".toList = none)
  short _ := hshort

/-- The crates for the token of a request with a referer. -/
def refererCrates : MintCrates :=
  onePayload ((oneHeader "referer" "http://s/").payload 0)
    (utf8 ("\x7b\"destination\":\"http://c/v\",\"query_params\":\x7b\"lang\":\"en\"\x7d,".toList ++
      ("\"request_headers\":\x7b\"referer\":\"http://s/\"\x7d,\"response_headers\":\x7b\x7d," ++
        "\"exp\":null,\"ip\":null\x7d").toList))
    (116 :: [143, 152, 35, 38, 111, 18, 17, 249, 43, 105, 69, 97, 52, 70, 1, 27, 97, 9, 108, 90, 17,
      238, 3, 110, 220, 55, 219, 191, 227, 227, 29, 91, 154, 39, 172, 155, 219, 66, 106, 244,
      93, 151, 212, 210, 12, 141, 217, 60, 173, 174, 22, 127, 90, 135, 123, 22, 192, 160, 139,
      100, 213, 99, 119, 44, 114, 100, 233, 36, 79, 184, 143, 63, 219, 251, 27, 167, 81, 17, 34,
      203, 42, 1, 179, 172, 190, 51, 251, 28, 144, 177, 167, 115, 43, 100, 174, 226, 133, 70, 4,
      68, 233, 228, 15, 228, 46, 33, 55, 148, 211, 241, 221, 95, 99, 118, 109, 184, 70, 143, 77,
      141, 255, 80, 38, 189, 175, 160, 162, 70, 77, 204, 188, 102, 195, 87, 230, 143, 132, 62,
      178, 109, 156, 1, 196])

/-- The crates for the token of a request for a range. -/
def rangeCrates : MintCrates :=
  onePayload ((oneHeader "range" "bytes=0-").payload 0)
    (utf8 ("\x7b\"destination\":\"http://c/v\",\"query_params\":\x7b\"lang\":\"en\"\x7d,".toList ++
      ("\"request_headers\":\x7b\"range\":\"bytes=0-\"\x7d,\"response_headers\":\x7b\x7d," ++
        "\"exp\":null,\"ip\":null\x7d").toList))
    (116 :: [143, 152, 35, 38, 111, 18, 17, 249, 43, 105, 69, 97, 52, 70, 1, 27, 97, 9, 108, 90, 17,
      238, 3, 110, 220, 55, 219, 191, 227, 227, 29, 91, 154, 39, 172, 155, 219, 66, 106, 244,
      93, 151, 212, 210, 12, 141, 217, 60, 173, 174, 22, 127, 90, 135, 123, 22, 192, 160, 139,
      100, 213, 99, 119, 179, 38, 165, 2, 227, 35, 153, 47, 249, 114, 231, 0, 99, 126, 94, 236,
      132, 67, 150, 225, 130, 221, 225, 10, 226, 110, 106, 59, 32, 45, 69, 231, 89, 136, 188,
      106, 29, 178, 212, 221, 185, 160, 215, 7, 143, 219, 83, 207, 184, 4, 29, 146, 16, 168,
      135, 178, 207, 218, 174, 221, 151, 127, 175, 240, 177, 204, 197, 209, 176, 140, 19, 79,
      110, 251, 144, 72, 99, 140, 255, 142])

end MediaFlow
