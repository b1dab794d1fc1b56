import MediaFlow.Proxy.GenerateUrl

/-!
# URLs in Base64

`utils/base64_url.rs`: a destination may be given as a URL or as its Base64 text, and the code tells
them apart by their characters. The test knows the standard alphabet only, while the encoder writes
the URL-safe one; `restored_iff` says which URLs survive.
-/

open ByteString Text UrlCoding

namespace MediaFlow

/-- A character of the standard alphabet, or of its padding. -/
def isStandardChar (c : Char) : Bool := c.isAlphanum || c = '+' || c = '/' || c = '='

def isBase64Url (url : Str) : Bool :=
  if "http://".toList.isPrefixOf url ∨ "https://".toList.isPrefixOf url ∨
      "ftp://".toList.isPrefixOf url ∨ "ftps://".toList.isPrefixOf url then false
  else if (utf8 url).length < 10 then false
  else url.all isStandardChar

def processPotentialBase64Url (crates : MintCrates) (url : Str) : Str :=
  if isBase64Url url then (decodeBase64Url crates url).getD url else url

/-- The standard text of a URL, with its padding. -/
def standardForm (url : Str) : Str := Base64.encode (utf8 url)

/-- **Recognised and restored**, from both texts, and the URL itself is left alone. -/
structure RestoresUrl (crates : MintCrates) (u : Str) : Prop where
  recognised : isBase64Url (encodeUrlToBase64 crates u) = true
  decoded : decodeBase64Url crates (encodeUrlToBase64 crates u) = some u
  decodedStandard : decodeBase64Url crates (standardForm u) = some u
  processed : processPotentialBase64Url crates (encodeUrlToBase64 crates u) = u
  processedStandard : processPotentialBase64Url crates (standardForm u) = u
  kept : processPotentialBase64Url crates u = u

/-- What is relied on of the crates: Base64 is the standard one, and a URL has a colon. -/
structure MintCrates.ReadsUrls (crates : MintCrates) : Prop where
  base64 : crates.toBase64Crate = standardBase64
  colon : ∀ {s : Str} {url : Url}, crates.parseUrl s = some url → ':' ∈ s

/-- A URL of the web, with a host. -/
def MintCrates.IsWebUrl (crates : MintCrates) (u : Str) : Prop :=
  ∃ url, crates.parseUrl u = some url ∧ (url.scheme = "http".toList ∨ url.scheme = "https".toList) ∧
    url.host ≠ none

/-! ### The test -/

section Recognised

variable {s : Str}

theorem isBase64Url_iff (hcolon : ':' ∉ s) : isBase64Url s = true ↔
    10 ≤ (utf8 s).length ∧
      ∀ c ∈ s, isStandardChar c = true := by
  have hscheme : ¬ ("http://".toList.isPrefixOf s = true ∨ "https://".toList.isPrefixOf s = true ∨
      "ftp://".toList.isPrefixOf s = true ∨ "ftps://".toList.isPrefixOf s = true) := by
    have hnot : ∀ p : Str, ':' ∈ p → ¬ p.isPrefixOf s = true := fun p hp h =>
      hcolon ((List.isPrefixOf_iff_prefix.mp h).subset hp)
    rintro (h | h | h | h)
    all_goals exact hnot _ (by decide) h
  unfold isBase64Url
  rw [if_neg hscheme]
  by_cases hlen : (utf8 s).length < 10
  · rw [if_pos hlen]
    exact iff_of_false Bool.false_ne_true fun h => by omega
  · rw [if_neg hlen, List.all_eq_true]
    exact (and_iff_right (Nat.not_lt.mp hlen)).symm

/-- A URL is not taken for Base64. -/
theorem isBase64Url_of_colon (hcolon : ':' ∈ s) : isBase64Url s = false := by
  unfold isBase64Url
  split
  · rfl
  · split
    · rfl
    · rw [List.all_eq_false]
      exact ⟨':', hcolon, by decide⟩

end Recognised

/-! ### The two texts -/

section Texts

/-- The digits of the two alphabets. -/
theorem digit_chars {n : ℕ} (h : n < 64) :
    ((Base64.digit n).toNat < 128 ∧ Base64.digit n ≠ ':' ∧ isStandardChar (Base64.digit n) = true) ∧
      (Base64.toUrlSafe (Base64.digit n)).toNat < 128 ∧ Base64.toUrlSafe (Base64.digit n) ≠ ':' ∧
      (isStandardChar (Base64.toUrlSafe (Base64.digit n)) = true ↔ n < 62) := by
  have hall : ∀ n < 64,
      ((Base64.digit n).toNat < 128 ∧ Base64.digit n ≠ ':' ∧
        isStandardChar (Base64.digit n) = true) ∧
      (Base64.toUrlSafe (Base64.digit n)).toNat < 128 ∧ Base64.toUrlSafe (Base64.digit n) ≠ ':' ∧
      (isStandardChar (Base64.toUrlSafe (Base64.digit n)) = true ↔ n < 62) := by
    decide
  exact hall n h

variable (bytes : Bytes)

/-- What stands in the standard text: digits, and the padding. -/
theorem mem_standard {c : Char} (h : c ∈ Base64.encode bytes) :
    (∃ n < 64, c = Base64.digit n) ∨ c = '=' := by
  rw [Base64.encode_eq, List.mem_append] at h
  refine h.imp (fun h => ?_) List.eq_of_mem_replicate
  obtain ⟨n, hn, rfl⟩ := List.mem_map.mp h
  exact ⟨n, Base64.sextets_lt bytes n hn, rfl⟩

theorem ascii_standard : ∀ c ∈ Base64.encode bytes, c.toNat < 128 := by
  intro c hc
  obtain ⟨n, hn, rfl⟩ | rfl := mem_standard bytes hc
  · exact (digit_chars hn).1.1
  · decide

theorem length_standard : (Base64.encode bytes).length
    = (4 * bytes.length + 2) / 3 + (4 - (4 * bytes.length + 2) / 3 % 4) % 4 := by
  rw [Base64.encode_eq, List.length_append, List.length_map, List.length_replicate,
    Base64.length_sextets]

theorem isBase64Url_standard : isBase64Url (Base64.encode bytes) = true ↔ 7 ≤ bytes.length := by
  have hcolon : ':' ∉ Base64.encode bytes := by
    intro h
    obtain ⟨n, hn, heq⟩ | h := mem_standard bytes h
    · exact (digit_chars hn).1.2.1 heq.symm
    · cases h
  have hchars : ∀ c ∈ Base64.encode bytes, isStandardChar c = true := by
    intro c hc
    obtain ⟨n, hn, rfl⟩ | rfl := mem_standard bytes hc
    · exact (digit_chars hn).1.2.2
    · decide
  rw [isBase64Url_iff hcolon, length_utf8_of_ascii (ascii_standard bytes), length_standard]
  refine ⟨fun h => by omega, fun h => ⟨by omega, hchars⟩⟩

theorem isBase64Url_urlSafe : isBase64Url (Base64.encodeUrlSafe bytes) = true ↔
    7 ≤ bytes.length ∧ ∀ n ∈ Base64.sextets bytes, n < 62 := by
  have hmem : ∀ c, c ∈ Base64.encodeUrlSafe bytes ↔
      ∃ n ∈ Base64.sextets bytes, Base64.toUrlSafe (Base64.digit n) = c := by
    intro c
    rw [Base64.encodeUrlSafe_eq, List.mem_map]
  have hcolon : ':' ∉ Base64.encodeUrlSafe bytes := by
    intro h
    obtain ⟨n, hn, heq⟩ := (hmem _).mp h
    exact (digit_chars (Base64.sextets_lt bytes n hn)).2.2.1 heq
  have hascii : ∀ c ∈ Base64.encodeUrlSafe bytes, c.toNat < 128 := by
    intro c hc
    obtain ⟨n, hn, rfl⟩ := (hmem c).mp hc
    exact (digit_chars (Base64.sextets_lt bytes n hn)).2.1
  -- six bits for each character, without padding
  have hlen : (Base64.encodeUrlSafe bytes).length = (4 * bytes.length + 2) / 3 := by
    rw [Base64.encodeUrlSafe_eq, List.length_map, Base64.length_sextets]
  rw [isBase64Url_iff hcolon, length_utf8_of_ascii hascii, hlen]
  -- the alphabet of the test has the first 62 digits, and not the last two
  refine and_congr (by omega) ?_
  constructor
  · intro h n hn
    exact (digit_chars (Base64.sextets_lt bytes n hn)).2.2.2.mp (h _ ((hmem _).mpr ⟨n, hn, rfl⟩))
  · intro h c hc
    obtain ⟨n, hn, rfl⟩ := (hmem c).mp hc
    exact (digit_chars (Base64.sextets_lt bytes n hn)).2.2.2.mpr (h n hn)

/-- Whatever the alphabet, the decoder sees the standard text. -/
theorem standardized_encodeUrlSafe :
    (Base64.encodeUrlSafe bytes).map Base64.toStandard ++ List.replicate
      ((4 - (utf8 ((Base64.encodeUrlSafe bytes).map Base64.toStandard)).length % 4) % 4) '='
      = Base64.encode bytes := by
  have hdigits : (Base64.encodeUrlSafe bytes).map Base64.toStandard
      = (Base64.sextets bytes).map Base64.digit := by
    rw [Base64.encodeUrlSafe_eq, List.map_map]
    refine List.map_congr_left fun n hn => ?_
    exact Base64.toStandard_toUrlSafe (Base64.sextets_lt bytes n hn)
  have hascii : ∀ c ∈ (Base64.sextets bytes).map Base64.digit, c.toNat < 128 := by
    intro c hc
    obtain ⟨n, hn, rfl⟩ := List.mem_map.mp hc
    exact (digit_chars (Base64.sextets_lt bytes n hn)).1.1
  rw [hdigits, length_utf8_of_ascii hascii, List.length_map, Base64.encode_eq]

theorem standardized_encode :
    (Base64.encode bytes).map Base64.toStandard ++ List.replicate
      ((4 - (utf8 ((Base64.encode bytes).map Base64.toStandard)).length % 4) % 4) '='
      = Base64.encode bytes := by
  have hsame : (Base64.encode bytes).map Base64.toStandard = Base64.encode bytes := by
    conv_rhs => rw [← List.map_id (Base64.encode bytes)]
    refine List.map_congr_left fun c hc => ?_
    obtain ⟨n, hn, rfl⟩ | rfl := mem_standard bytes hc
    · have hall : ∀ n < 64, Base64.toStandard (Base64.digit n) = Base64.digit n := by decide
      exact hall n hn
    · rfl
  have hnone : (4 - (Base64.encode bytes).length % 4) % 4 = 0 := by
    rw [length_standard]
    omega
  rw [hsame, length_utf8_of_ascii (ascii_standard bytes), hnone, List.replicate_zero,
    List.append_nil]

end Texts

/-! ### There and back -/

section Web

variable {crates : MintCrates} {u : Str}

theorem decodeBase64Url_of_standardized (hcrates : crates.ReadsUrls) (hu : crates.IsWebUrl u)
    {s : Str}
    (hs : s.map Base64.toStandard ++ List.replicate
      ((4 - (utf8 (s.map Base64.toStandard)).length % 4) % 4) '=' = standardForm u) :
    decodeBase64Url crates s = some u := by
  obtain ⟨url, hparse, hscheme, hhost⟩ := hu
  have hdecode : crates.standardDecode (standardForm u) = some (utf8 u) := by
    have hbase : crates.standardDecode = Base64.decode :=
      congrArg Base64Crate.standardDecode hcrates.base64
    rw [hbase]
    exact Base64.decode_encode (utf8 u)
  have haccepted : ¬ (url.scheme = [] ∨ url.host = none) := by
    rw [not_or]
    refine ⟨?_, hhost⟩
    rcases hscheme with h | h
    all_goals exact h ▸ by decide
  unfold decodeBase64Url
  dsimp only
  rw [hs, hdecode]
  simp only [Option.bind_eq_bind, Option.bind_some]
  rw [fromUtf8_utf8, Option.bind_some, hparse, Option.bind_some, if_neg haccepted]

/-- **A URL** is recognised and restored exactly if it has seven bytes, and no six bits of it make
one of the two digits in which the alphabets differ. -/
theorem restored_iff (crates : MintCrates) (u : Str) (hcrates : crates.ReadsUrls)
    (hu : crates.IsWebUrl u) :
    RestoresUrl crates u ↔ 7 ≤ (utf8 u).length ∧ ∀ n ∈ Base64.sextets (utf8 u), n < 62 := by
  have hencode : encodeUrlToBase64 crates u = Base64.encodeUrlSafe (utf8 u) :=
    congrFun (congrArg Base64Crate.urlSafeEncode hcrates.base64) (utf8 u)
  constructor
  · intro h
    have hrecognised := h.recognised
    rw [hencode] at hrecognised
    exact (isBase64Url_urlSafe (utf8 u)).mp hrecognised
  · intro h
    -- both alphabets are decoded; what is asked for is that they are recognised
    have hdecoded : decodeBase64Url crates (encodeUrlToBase64 crates u) = some u := by
      rw [hencode]
      exact decodeBase64Url_of_standardized hcrates hu (standardized_encodeUrlSafe (utf8 u))
    have hstandard : decodeBase64Url crates (standardForm u) = some u :=
      decodeBase64Url_of_standardized hcrates hu (standardized_encode (utf8 u))
    have hrecognised : isBase64Url (encodeUrlToBase64 crates u) = true := by
      rw [hencode]
      exact (isBase64Url_urlSafe (utf8 u)).mpr h
    have hrecognisedStandard : isBase64Url (standardForm u) = true :=
      (isBase64Url_standard (utf8 u)).mpr h.1
    obtain ⟨url, hparse, -⟩ := hu
    refine ⟨hrecognised, hdecoded, hstandard, ?_, ?_, ?_⟩
    · unfold processPotentialBase64Url
      rw [if_pos hrecognised, hdecoded]
      rfl
    · unfold processPotentialBase64Url
      rw [if_pos hrecognisedStandard, hstandard]
      rfl
    · unfold processPotentialBase64Url
      rw [isBase64Url_of_colon (hcrates.colon hparse), if_neg Bool.false_ne_true]

end Web

/-- Crates for which `u` is a URL with the host `host`. -/
def crateOfUrl (u host : Str) : MintCrates where
  base64Decode s := match Base64.decodeUrlSafe s with
    | some bytes => .ok bytes
    | none => .error "Invalid symbol".toList
  decryptPadded _ _ _ := none
  readProxyData _ := none
  readMap _ := .error "expected value".toList
  standardDecode := Base64.decode
  urlSafeEncode := Base64.encodeUrlSafe
  encryptPadded _ _ data := data
  writeProxyData _ := []
  parseUrl s := if s = u then some ⟨"http".toList, some (.domain host)⟩ else none

variable {u host : Str}

theorem readsUrls_crateOfUrl (h : ':' ∈ u) : (crateOfUrl u host).ReadsUrls where
  base64 := rfl
  colon hparse := (Option.ite_none_right_eq_some.mp hparse).1 ▸ h

theorem isWebUrl_crateOfUrl : (crateOfUrl u host).IsWebUrl u :=
  ⟨⟨"http".toList, some (.domain host)⟩, if_pos rfl, .inl rfl, nofun⟩

theorem restored_plain : RestoresUrl (crateOfUrl "http://c/v".toList ['c']) "http://c/v".toList :=
  (restored_iff _ _ (readsUrls_crateOfUrl (by decide)) isWebUrl_crateOfUrl).mpr (by decide +kernel)

/-- The query begins at the third of three bytes, and so its first character is written `_`. -/
theorem not_restored_query : ¬ ∀ (crates : MintCrates) (u : Str), crates.ReadsUrls →
    crates.IsWebUrl u → RestoresUrl crates u := by
  intro h
  have hrestores := h (crateOfUrl "http://abc/?x".toList "abc".toList) "http://abc/?x".toList
    (readsUrls_crateOfUrl (by decide)) isWebUrl_crateOfUrl
  exact absurd hrestores.recognised (by decide +kernel)

end MediaFlow
