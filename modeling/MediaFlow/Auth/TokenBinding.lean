import MediaFlow.Auth.Encryption

/-!
# The bounds of a token

A payload may bound its token by a time (`exp`) and by a client address (`ip`). `decrypt` reads both
members with readers that take unsigned integers and strings only, in either layout: what they do
not take is read as absent. `Caught` says when a broken bound is noticed, and
`decrypt_keepsBounds_iff` that these are the payloads whose bounds are kept.
-/

open ByteString Text Json

namespace MediaFlow

/-- The bound on the time is broken: `exp` is a number before `now`. -/
def Expired (now : ℕ) (members : Map) : Prop :=
  ∃ n, members.lookup "exp".toList = some (.number n) ∧ n.value < now

/-- The bound on the client is broken: `ip` is there, and is not the address of the client. -/
def IpMismatch (clientIp : Option Str) (members : Map) : Prop :=
  ∃ v client, members.lookup "ip".toList = some v ∧ v ≠ .null ∧ clientIp = some client ∧
    v ≠ .string client

/-- A broken bound that is noticed: `exp` is an unsigned integer before `now`, or `ip` is a string
that is not the address of the client. -/
def Caught (now : ℕ) (clientIp : Option Str) (members : Map) : Prop :=
  (∃ n, members.lookup "exp".toList = some (.number (.posInt n)) ∧ n < now) ∨
    ∃ s client, members.lookup "ip".toList = some (.string s) ∧ clientIp = some client ∧
      s ≠ client

/-- How an `Option` field is read from a member: absent and `null` are nothing, and any other value
has to be of the type of the field. -/
def ReadsOptional {α : Type*} (read : Value → Option α) (member : Option Value)
    (field : Option α) : Prop :=
  ((member = none ∨ member = some .null) ∧ field = none) ∨
    ∃ v a, member = some v ∧ read v = some a ∧ field = some a

/-- What is relied on of the typed reader: on an object that it accepts, it reads the two optional
fields `exp: Option<u64>` and `ip: Option<String>` from the members of these names. -/
structure TokenCrates.ReadsTyped (crates : TokenCrates) : Prop where
  exp : ∀ {plaintext pd members}, crates.readProxyData plaintext = some pd →
    crates.readMap plaintext = .ok members →
    ReadsOptional Value.asU64 (members.lookup "exp".toList) pd.exp
  ip : ∀ {plaintext pd members}, crates.readProxyData plaintext = some pd →
    crates.readMap plaintext = .ok members →
    ReadsOptional Value.asStr (members.lookup "ip".toList) pd.ip

/-- A field that is read as optional is what the lossy reader gives too. -/
theorem ReadsOptional.eq_bind {α : Type*} {read : Value → Option α} (hnull : read .null = none)
    {member : Option Value} {field : Option α} (h : ReadsOptional read member field) :
    field = member.bind read := by
  rcases h with ⟨rfl | rfl, rfl⟩ | ⟨v, a, rfl, hread, rfl⟩
  · rfl
  · exact hnull.symm
  · exact hread.symm

namespace EncryptionHandler

variable {crates : TokenCrates} {h : EncryptionHandler} {now : ℕ} {token : Str}
  {clientIp : Option Str} {plaintext : Bytes} {members : Map}

/-- The fields `exp` and `ip` of an object payload, whichever layout it is read in. -/
theorem readPayload_bounds (hcrates : crates.ReadsTyped)
    (hmembers : crates.readMap plaintext = .ok members) :
    ∃ data, readPayload crates plaintext = .ok data ∧
      data.exp = (members.lookup "exp".toList).bind Value.asU64 ∧
      data.ip = (members.lookup "ip".toList).bind Value.asStr := by
  unfold readPayload
  cases htyped : crates.readProxyData plaintext with
  | some pd =>
    exact ⟨pd, rfl, (hcrates.exp htyped hmembers).eq_bind rfl,
      (hcrates.ip htyped hmembers).eq_bind rfl⟩
  | none =>
    -- the failure is not reported, and the flat layout takes any object
    have hexp : "exp".toList ≠ "d".toList := by decide
    have hip : "ip".toList ≠ "d".toList := by decide
    have hip' : "ip".toList ≠ "exp".toList := by decide
    simp only [hmembers]
    refine ⟨_, rfl, ?_, ?_⟩
    · show ((members.without _).lookup _).bind _ = _
      rw [Map.lookup_without hexp]
    · show (((members.without _).without _).lookup _).bind _ = _
      rw [Map.lookup_without hip', Map.lookup_without hip]

/-- The checks fail exactly for an expired or foreign token, as far as the fields tell. -/
theorem check_error_iff {data : ProxyData} :
    (∃ e, check now clientIp data = .error e) ↔
      (∃ n, data.exp = some n ∧ n < now) ∨
        ∃ s client, data.ip = some s ∧ clientIp = some client ∧ s ≠ client := by
  have hexp : (data.exp.any fun exp => exp < now) = true ↔ ∃ n, data.exp = some n ∧ n < now := by
    cases data.exp <;> simp
  have hip : (data.ip.any fun s => clientIp.any fun client => s ≠ client) = true ↔
      ∃ s client, data.ip = some s ∧ clientIp = some client ∧ s ≠ client := by
    cases data.ip <;> cases clientIp <;> simp
  unfold check
  by_cases h₁ : (data.exp.any fun exp => exp < now) = true
  · rw [if_pos h₁]
    exact ⟨fun _ => .inl (hexp.mp h₁), fun _ => ⟨_, rfl⟩⟩
  · rw [if_neg h₁]
    by_cases h₂ : (data.ip.any fun s => clientIp.any fun client => s ≠ client) = true
    · rw [if_pos h₂]
      exact ⟨fun _ => .inr (hip.mp h₂), fun _ => ⟨_, rfl⟩⟩
    · rw [if_neg h₂]
      constructor
      · rintro ⟨e, he⟩
        cases he
      · rintro (hc | hc)
        · exact absurd (hexp.mpr hc) h₁
        · exact absurd (hip.mpr hc) h₂

/-- An object payload is refused exactly when a broken bound is caught. -/
theorem decrypt_error_iff (hcrates : crates.ReadsTyped)
    (hpayload : h.payload crates token = .ok plaintext)
    (hmembers : crates.readMap plaintext = .ok members) :
    (∃ e, h.decrypt crates now token clientIp = .error e) ↔ Caught now clientIp members := by
  obtain ⟨data, hdata, hexp, hip⟩ := readPayload_bounds hcrates hmembers
  have hdecrypt : h.decrypt crates now token clientIp = check now clientIp data := by
    unfold decrypt
    rw [hpayload]
    show (readPayload crates plaintext >>= check now clientIp) = _
    rw [hdata]
    rfl
  rw [hdecrypt, check_error_iff, hexp, hip]
  unfold Caught
  simp only [Option.bind_eq_some_iff, Value.asU64_eq_some_iff, Value.asStr_eq_some_iff,
    exists_eq_right]

/-- **The bounds of a token are kept** exactly when a broken one is caught, or none is broken. -/
theorem decrypt_keepsBounds_iff (hcrates : crates.ReadsTyped)
    (hpayload : h.payload crates token = .ok plaintext)
    (hmembers : crates.readMap plaintext = .ok members) :
    (Expired now members ∨ IpMismatch clientIp members →
        ∃ e, h.decrypt crates now token clientIp = .error e) ↔
      Caught now clientIp members ∨ ¬ (Expired now members ∨ IpMismatch clientIp members) := by
  rw [decrypt_error_iff hcrates hpayload hmembers]
  constructor
  · intro hkept
    by_cases hbroken : Expired now members ∨ IpMismatch clientIp members
    · exact .inl (hkept hbroken)
    · exact .inr hbroken
  · rintro (hcaught | hnone) hbroken
    · exact hcaught
    · exact absurd hbroken hnone

end EncryptionHandler

/-! ### Two tokens -/

/-- The bytes of an ASCII text. -/
def asciiBytes (s : Str) : Bytes := s.map fun c => UInt8.ofNat c.toNat

/-- What the other crates do for one token of a flat payload: `token` is the base64 text of a zero
initialisation vector and `ciphertext`, which decrypts to `plaintext` under the key of `handler`. -/
def TokenCrates.ofFlatToken (handler : EncryptionHandler) (token : Str) (ciphertext : Bytes)
    (plaintext : Str) (members : Map) : TokenCrates where
  base64Decode t :=
    if t = token then .ok (List.replicate 16 0 ++ ciphertext)
    else .error "Invalid symbol".toList
  decryptPadded key iv data :=
    if key = handler.key ∧ iv = List.replicate 16 0 ∧ data = ciphertext then
      some (asciiBytes plaintext)
    else none
  -- a flat payload has no `destination`
  readProxyData _ := none
  readMap data :=
    if data = asciiBytes plaintext then .ok members else .error "expected value".toList

theorem TokenCrates.ofFlatToken_readsTyped (handler : EncryptionHandler) (token : Str)
    (ciphertext : Bytes) (plaintext : Str) (members : Map) :
    (ofFlatToken handler token ciphertext plaintext members).ReadsTyped :=
  ⟨nofun, nofun⟩

theorem TokenCrates.ofFlatToken_readMap (handler : EncryptionHandler) (token : Str)
    (ciphertext : Bytes) (plaintext : Str) (members : Map) :
    (ofFlatToken handler token ciphertext plaintext members).readMap (asciiBytes plaintext)
      = .ok members := by
  unfold ofFlatToken
  exact if_pos rfl

def testHandler : EncryptionHandler := .new (asciiBytes "testpassword".toList)

def tokenOfOne : Str := "AAAAAAAAAAAAAAAAAAAAANmXF59FRgLd3Xsiv7MRLMf6JF9nhqEWAJEjSO8dWtp2".toList

/-- A token that expires at time 1. -/
def expOne : TokenCrates :=
  .ofFlatToken testHandler tokenOfOne
    [217, 151, 23, 159, 69, 70, 2, 221, 221, 123, 34, 191, 179, 17, 44, 199, 250, 36, 95, 103,
      134, 161, 22, 0, 145, 35, 72, 239, 29, 90, 218, 118]
    "\x7b\"d\":\"x\",\"exp\":1\x7d".toList
    [("d".toList, .string ['x']), ("exp".toList, .number (.posInt 1))]

def tokenOfMinusOne : Str :=
  "AAAAAAAAAAAAAAAAAAAAAPbb9nY9MsyM9fOYVz2WcBFS8bUisXsvJKy0BIsinvC6".toList

/-- A token that has expired one second before time 0. -/
def expMinusOne : TokenCrates :=
  .ofFlatToken testHandler tokenOfMinusOne
    [246, 219, 246, 118, 61, 50, 204, 140, 245, 243, 152, 87, 61, 150, 112, 17, 82, 241, 181, 34,
      177, 123, 47, 36, 172, 180, 4, 139, 34, 158, 240, 186]
    "\x7b\"d\":\"x\",\"exp\":-1\x7d".toList
    [("d".toList, .string ['x']), ("exp".toList, .number (.negInt (-1)))]

namespace EncryptionHandler

/-- The first token is refused at time 2. -/
theorem decrypt_keepsBounds_expOne :
    ∃ e, testHandler.decrypt expOne 2 tokenOfOne none = .error e := by
  have hcaught : Caught 2 none
      [("d".toList, .string ['x']), ("exp".toList, .number (.posInt 1))] :=
    .inl ⟨1, rfl, by decide⟩
  exact (decrypt_keepsBounds_iff
    (TokenCrates.ofFlatToken_readsTyped testHandler tokenOfOne _ _ _)
    (by decide +kernel : testHandler.payload expOne tokenOfOne
      = .ok (asciiBytes "\x7b\"d\":\"x\",\"exp\":1\x7d".toList))
    (TokenCrates.ofFlatToken_readMap _ _ _ _ _)).mpr (.inl hcaught) (.inl ⟨.posInt 1, rfl, by decide⟩)

/-- The second token is accepted at any time: its `exp` is read as absent. -/
theorem negativeExp_accepted :
    ¬ ∀ (crates : TokenCrates) (h : EncryptionHandler) (now : ℕ) (token : Str)
        (clientIp : Option Str) (plaintext : Bytes) (members : Map), crates.ReadsTyped →
      h.payload crates token = .ok plaintext → crates.readMap plaintext = .ok members →
      Expired now members ∨ IpMismatch clientIp members →
      ∃ e, h.decrypt crates now token clientIp = .error e := by
  intro hall
  have hbroken : Expired 2 [("d".toList, .string ['x']), ("exp".toList, .number (.negInt (-1)))] :=
    ⟨.negInt (-1), rfl, by decide⟩
  obtain ⟨e, he⟩ := hall expMinusOne testHandler 2 tokenOfMinusOne none
    (asciiBytes "\x7b\"d\":\"x\",\"exp\":-1\x7d".toList) _
    (TokenCrates.ofFlatToken_readsTyped testHandler tokenOfMinusOne _ _ _) (by decide +kernel)
    (TokenCrates.ofFlatToken_readMap _ _ _ _ _) (.inl hbroken)
  have haccepted : (testHandler.decrypt expMinusOne 2 tokenOfMinusOne none).toOption.isSome := by
    decide +kernel
  rw [he] at haccepted
  cases haccepted

end EncryptionHandler

end MediaFlow
