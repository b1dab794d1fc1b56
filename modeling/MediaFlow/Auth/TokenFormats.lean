import MediaFlow.Auth.TokenBinding
import MediaFlow.Proxy.GenerateUrl

/-!
# The two layouts of a payload

A token holds a JSON object: the six fields of `ProxyData`, or the flat object of the Python proxy
(`FlatPayload`), in which the members of other names are headers and query parameters. Nothing in the
object says which it is. `decrypt` tries the first layout, which ignores members that it does not
know, and takes the second one where the first fails.

* `ofMembers_members`: the first layout reads what it writes.
* `readPayload_flat_iff`: the second one is reached unless a member has the name `destination`, which
  makes the object readable in the first layout (as long as `exp` is, too).
* `nothingLost_fromPythonFlatDict`: the second layout keeps every member.
-/

open ByteString Text Json UrlCoding

namespace MediaFlow

/-! ### The first layout -/

/-- How `Deserialize` reads an `Option` field from a member: absent and `null` are nothing. The outer
`none` is an error. -/
def readOption {α : Type*} (read : Value → Option α) : Option Value → Option (Option α)
  | none => some none
  | some .null => some none
  | some v => (read v).map some

/-- The JSON value of an `Option` field. -/
def writeOption {α : Type*} (write : α → Value) : Option α → Value
  | none => .null
  | some a => write a

namespace ProxyData

/-- The members that `Serialize` writes, one for each field. -/
def members (p : ProxyData) : Map :=
  [("destination".toList, .string p.destination),
    ("query_params".toList, writeOption id p.queryParams),
    ("request_headers".toList, writeOption id p.requestHeaders),
    ("response_headers".toList, writeOption id p.responseHeaders),
    ("exp".toList, writeOption (fun n => .number (.posInt n)) p.exp),
    ("ip".toList, writeOption .string p.ip)]

/-- What `Deserialize` makes of an object. Members of other names are ignored. -/
def ofMembers (m : Map) : Option ProxyData := do
  let destination ← (m.lookup "destination".toList).bind Value.asStr
  let queryParams ← readOption some (m.lookup "query_params".toList)
  let requestHeaders ← readOption some (m.lookup "request_headers".toList)
  let responseHeaders ← readOption some (m.lookup "response_headers".toList)
  let exp ← readOption Value.asU64 (m.lookup "exp".toList)
  let ip ← readOption Value.asStr (m.lookup "ip".toList)
  return ⟨destination, queryParams, requestHeaders, responseHeaders, exp, ip⟩

/-- A field that is `null` is absent. -/
def present : Option Value → Option Value
  | some .null => none
  | v => v

/-- The payload up to `null` for an absent member. -/
def normalised (p : ProxyData) : ProxyData :=
  { p with
    queryParams := present p.queryParams
    requestHeaders := present p.requestHeaders
    responseHeaders := present p.responseHeaders }

/-- The payload has not expired, and is for this client. -/
structure ValidFor (now : ℕ) (clientIp : Option Str) (p : ProxyData) : Prop where
  exp : ∀ n ∈ p.exp, now ≤ n
  ip : ∀ tokenIp ∈ p.ip, ∀ client ∈ clientIp, tokenIp = client

theorem readOption_some (v : Option Value) :
    readOption some (some (writeOption id v)) = some (present v) := by
  cases v with
  | none => rfl
  | some v => cases v <;> rfl

theorem readOption_asU64 (n : Option ℕ) :
    readOption Value.asU64 (some (writeOption (fun n => .number (.posInt n)) n)) = some n := by
  cases n <;> rfl

theorem readOption_asStr (s : Option Str) :
    readOption Value.asStr (some (writeOption .string s)) = some s := by
  cases s <;> rfl

/-- Reading undoes writing, but for `null`. -/
theorem ofMembers_members (p : ProxyData) : ofMembers p.members = some p.normalised := by
  have hdestination : p.members.lookup "destination".toList = some (.string p.destination) := rfl
  have hquery : p.members.lookup "query_params".toList = some (writeOption id p.queryParams) := rfl
  have hrequest : p.members.lookup "request_headers".toList
      = some (writeOption id p.requestHeaders) := rfl
  have hresponse : p.members.lookup "response_headers".toList
      = some (writeOption id p.responseHeaders) := rfl
  have hexp : p.members.lookup "exp".toList
      = some (writeOption (fun n => .number (.posInt n)) p.exp) := rfl
  have hip : p.members.lookup "ip".toList = some (writeOption .string p.ip) := rfl
  rw [ofMembers, hdestination, hquery, hrequest, hresponse, hexp, hip, readOption_some,
    readOption_some, readOption_some, readOption_asU64, readOption_asStr]
  rfl

end ProxyData

/-! ### The flat layout -/

/-- A payload of the Python proxy, in the order in which it is written: the names are different, and
the values are strings, apart from the time `exp`. -/
structure FlatPayload (l : Map) : Prop where
  nodup : (l.map Prod.fst).Nodup
  destination : ∃ d, l.lookup "d".toList = some (.string d)
  strings : ∀ k v, (k, v) ∈ l → k ≠ "exp".toList → ∃ s, v = .string s

/-- The object of these members. -/
def objectOf (l : Map) : Map := l.foldl (fun m kv => m.insert kv.1 kv.2) []

/-- The members of an object, if it is one. -/
def membersOf : Option Value → Map
  | some (.object m) => m
  | _ => []

/-- The destination is `d`, and every other member but the two bounds is a header or a query
parameter. -/
structure NothingLost (l : Map) (p : ProxyData) : Prop where
  destination : l.lookup "d".toList = some (.string p.destination)
  requestHeaders : ∀ name v, ("h_".toList ++ name, v) ∈ l → (name, v) ∈ membersOf p.requestHeaders
  responseHeaders : ∀ name v, ("r_".toList ++ name, v) ∈ l → (name, v) ∈ membersOf p.responseHeaders
  queryParams : ∀ k v, (k, v) ∈ l → k ∉ ["d".toList, "exp".toList, "ip".toList] →
    ¬ "h_".toList <+: k → ¬ "r_".toList <+: k → (k, v) ∈ membersOf p.queryParams

theorem lookup_objectOf {l : Map} (h : (l.map Prod.fst).Nodup) (name : Str) :
    (objectOf l).lookup name = l.lookup name :=
  (Map.lookup_foldl_insert id h name).trans Option.map_id'

theorem objectOf_sorted (l : Map) : (objectOf l).Sorted := Map.sorted_foldl_insert id l

/-- The object has the members it was made of. -/
theorem mem_objectOf {l : Map} (h : (l.map Prod.fst).Nodup) (kv : Str × Value) :
    kv ∈ objectOf l ↔ kv ∈ l := by
  rw [← lookup_eq_some_iff_mem (objectOf_sorted l).nodup, lookup_objectOf h,
    lookup_eq_some_iff_mem h]

namespace ProxyData

/-- What the members of an object are sorted into. -/
theorem foldl_insert (m : Map) (parts : FlatParts) :
    m.foldl FlatParts.insert parts =
      { queryParams := parts.queryParams ++ m.filter fun kv =>
          (stripPrefix "h_".toList kv.1).isNone ∧ (stripPrefix "r_".toList kv.1).isNone
        requestHeaders := parts.requestHeaders ++ m.filterMap fun kv =>
          (stripPrefix "h_".toList kv.1).map (·, kv.2)
        responseHeaders := parts.responseHeaders ++ m.filterMap fun kv =>
          if (stripPrefix "h_".toList kv.1).isSome then none
          else (stripPrefix "r_".toList kv.1).map (·, kv.2) } := by
  induction m generalizing parts with
  | nil => simp only [List.foldl_nil, List.filter_nil, List.filterMap_nil, List.append_nil]
  | cons kv m ih =>
    obtain ⟨k, v⟩ := kv
    rw [List.foldl_cons, ih]
    unfold FlatParts.insert
    cases hh : stripPrefix ['h', '_'] k with
    | some stripped => simp [hh]
    | none =>
      cases hr : stripPrefix ['r', '_'] k with
      | some stripped => simp [hh, hr]
      | none => simp [hh, hr]

theorem membersOf_objectOrNone (m : Map) : membersOf (objectOrNone m) = m := by
  unfold objectOrNone
  cases m <;> rfl

/-- **No member is lost** in the flat layout. -/
theorem nothingLost_fromPythonFlatDict {l : Map} (h : FlatPayload l) :
    NothingLost l (fromPythonFlatDict (objectOf l)) := by
  obtain ⟨d, hd⟩ := h.destination
  -- the members that are left after the three that have a field of their own
  have hrest : ∀ k v, (k, v) ∈ l → k ∉ ["d".toList, "exp".toList, "ip".toList] →
      (k, v) ∈ (((objectOf l).without "d".toList).without "exp".toList).without "ip".toList := by
    intro k v hkv hk
    simp only [List.mem_cons, List.not_mem_nil, or_false, not_or] at hk
    obtain ⟨hkd, hkexp, hkip⟩ := hk
    refine List.mem_filter.2 ⟨List.mem_filter.2 ⟨List.mem_filter.2 ⟨?_, ?_⟩, ?_⟩, ?_⟩
    · exact (mem_objectOf h.nodup _).2 hkv
    all_goals exact decide_eq_true (by assumption)
  have hmarked : ∀ (start name : Str), start ∈ ["h_".toList, "r_".toList] →
      start ++ name ∉ ["d".toList, "exp".toList, "ip".toList] := by
    intro start name hstart hmem
    simp only [List.mem_cons, List.not_mem_nil, or_false] at hstart hmem
    rcases hstart with rfl | rfl <;> rcases hmem with hmem | hmem | hmem <;>
      exact absurd (List.cons.inj hmem).1 (by decide)
  unfold fromPythonFlatDict
  simp only [foldl_insert]
  constructor
  · show _ = some (Value.string ((((objectOf l).lookup "d".toList).bind Value.asStr).getD []))
    rw [lookup_objectOf h.nodup, hd]
    rfl
  · intro name v hmem
    rw [membersOf_objectOrNone]
    refine List.mem_filterMap.2 ⟨_, hrest _ v hmem (hmarked _ name (by simp)), ?_⟩
    rw [stripPrefix_append]
    rfl
  · intro name v hmem
    rw [membersOf_objectOrNone]
    refine List.mem_filterMap.2 ⟨_, hrest _ v hmem (hmarked _ name (by simp)), ?_⟩
    have hnone : stripPrefix "h_".toList ("r_".toList ++ name) = none := by
      cases hstrip : stripPrefix "h_".toList ("r_".toList ++ name) with
      | none => rfl
      | some rest =>
        exact absurd (List.cons.inj (stripPrefix_eq_some_iff.1 hstrip)).1 (by decide)
    rw [hnone, stripPrefix_append]
    rfl
  · intro k v hmem hk hh hr
    have hnone : ∀ start : Str, ¬ start <+: k → stripPrefix start k = none := by
      intro start hstart
      cases hstrip : stripPrefix start k with
      | none => rfl
      | some rest => exact absurd ⟨rest, (stripPrefix_eq_some_iff.1 hstrip).symm⟩ hstart
    rw [membersOf_objectOrNone]
    refine List.mem_filter.2 ⟨hrest k v hmem hk, decide_eq_true ?_⟩
    rw [hnone _ hh, hnone _ hr]
    exact ⟨rfl, rfl⟩

end ProxyData

/-! ### Tokens -/

/-- What is relied on of base64 and of AES-256-CBC with PKCS#7 padding: decoding and decryption undo
encoding and encryption, and there is always some padding. -/
structure MintCrates.Inverse (crates : MintCrates) : Prop where
  base64 : ∀ bytes, crates.base64Decode (crates.urlSafeEncode bytes) = .ok bytes
  padding : ∀ key iv data, crates.encryptPadded key iv data ≠ []
  decrypts : ∀ {key iv : Bytes}, key.length = 32 → iv.length = 16 → ∀ data,
    crates.decryptPadded key iv (crates.encryptPadded key iv data) = some data

/-- `document` is the JSON text of an object with these members, whose names are different. -/
structure TokenCrates.Writes (crates : TokenCrates) (document : Bytes) (l : Map) : Prop where
  readMap : crates.readMap document = .ok (objectOf l)
  readProxyData : crates.readProxyData document = ProxyData.ofMembers l

namespace EncryptionHandler

variable {crates : MintCrates} {h : EncryptionHandler} {iv : Bytes} {now : ℕ} {clientIp : Option Str}

/-- The token of a plaintext. -/
def sealed (crates : MintCrates) (h : EncryptionHandler) (iv plaintext : Bytes) : Str :=
  crates.urlSafeEncode (iv ++ crates.encryptPadded h.key iv plaintext)

theorem payload_sealed (hcrates : crates.Inverse) (h : EncryptionHandler) (hiv : iv.length = 16)
    (plaintext : Bytes) :
    h.payload crates.toTokenCrates (h.sealed crates iv plaintext) = .ok plaintext := by
  have hpos := List.length_pos_iff.mpr (hcrates.padding h.key iv plaintext)
  have hlen : ¬ (iv ++ crates.encryptPadded h.key iv plaintext).length < 17 := by
    rw [List.length_append]
    omega
  unfold payload sealed
  rw [hcrates.base64]
  simp only
  rw [if_neg hlen, List.take_left' hiv, List.drop_left' hiv, hcrates.decrypts h.key_length hiv]

/-- The checks pass for a payload that is valid for the client. -/
theorem check_of_validFor {p : ProxyData} (hp : p.ValidFor now clientIp) :
    check now clientIp p = .ok p := by
  have hok : ∀ e, check now clientIp p ≠ .error e := by
    intro e he
    rcases check_error_iff.1 ⟨e, he⟩ with ⟨n, hn, hlt⟩ | ⟨tokenIp, client, htoken, hclient, hne⟩
    · exact absurd (hp.exp n hn) (Nat.not_le.2 hlt)
    · exact hne (hp.ip tokenIp htoken client hclient)
  unfold check at hok ⊢
  split
  · rename_i hexp
    rw [if_pos hexp] at hok
    exact absurd rfl (hok _)
  · rename_i hexp
    rw [if_neg hexp] at hok
    split
    · rename_i hip
      rw [if_pos hip] at hok
      exact absurd rfl (hok _)
    · rfl

theorem decrypt_sealed (hcrates : crates.Inverse) (hiv : iv.length = 16) {plaintext : Bytes}
    {p : ProxyData} (hread : readPayload crates.toTokenCrates plaintext = .ok p)
    (hp : p.ValidFor now clientIp) :
    h.decrypt crates.toTokenCrates now (h.sealed crates iv plaintext) clientIp = .ok p := by
  unfold decrypt
  rw [payload_sealed hcrates h hiv]
  show (readPayload crates.toTokenCrates plaintext >>= check now clientIp) = _
  rw [hread]
  exact check_of_validFor hp

/-- A check passes a payload on as it is. -/
theorem eq_of_check {p q : ProxyData} (hcheck : check now clientIp p = .ok q) : p = q := by
  unfold check at hcheck
  split at hcheck
  · cases hcheck
  · split at hcheck
    · cases hcheck
    · exact Except.ok.inj hcheck

theorem readPayload_of_writes {document : Bytes} {l : Map}
    (hw : crates.toTokenCrates.Writes document l) :
    readPayload crates.toTokenCrates document
      = .ok ((ProxyData.ofMembers l).getD (ProxyData.fromPythonFlatDict (objectOf l))) := by
  unfold readPayload
  rw [hw.readProxyData, hw.readMap]
  cases ProxyData.ofMembers l <;> rfl

/-- A token of an object decodes to what the first layout makes of it, or else the second. -/
theorem eq_of_decrypt_sealed (hcrates : crates.Inverse) (hiv : iv.length = 16) {document : Bytes}
    {l : Map} (hw : crates.toTokenCrates.Writes document l) {q : ProxyData}
    (hok : h.decrypt crates.toTokenCrates now (h.sealed crates iv document) clientIp = .ok q) :
    (ProxyData.ofMembers l).getD (ProxyData.fromPythonFlatDict (objectOf l)) = q := by
  unfold decrypt at hok
  rw [payload_sealed hcrates h hiv] at hok
  change (readPayload crates.toTokenCrates document >>= check now clientIp) = _ at hok
  rw [readPayload_of_writes hw] at hok
  exact eq_of_check hok

end EncryptionHandler

/-! ### Which layout is read -/

/-- The first layout does not read the object: it has no `destination`, or `exp` is something else
than an unsigned integer. -/
def ReadFlat (l : Map) : Prop :=
  l.lookup "destination".toList = none ∨
    ∃ v, l.lookup "exp".toList = some v ∧ v ≠ .null ∧ v.asU64 = none

theorem readOption_eq_none_iff {α : Type*} {read : Value → Option α} {member : Option Value} :
    readOption read member = none ↔ ∃ v, member = some v ∧ v ≠ .null ∧ read v = none := by
  unfold readOption
  split
  · exact iff_of_false (fun h => Option.some_ne_none _ h) fun ⟨v, hv, _⟩ => Option.some_ne_none v hv.symm
  · exact iff_of_false (fun h => Option.some_ne_none _ h) fun ⟨v, hv, hne, _⟩ =>
      hne (Option.some.inj hv).symm
  · rename_i v hne
    rw [Option.map_eq_none_iff]
    constructor
    · exact fun h => ⟨v, rfl, fun hv => hne (hv ▸ rfl), h⟩
    · rintro ⟨w, hw, -, h⟩
      rwa [Option.some.inj hw]

theorem mem_of_lookup {l : Map} {k : Str} {v : Value} (h : l.lookup k = some v) : (k, v) ∈ l := by
  induction l with
  | nil => cases h
  | cons kv l ih =>
    obtain ⟨k', v'⟩ := kv
    rw [List.lookup_cons] at h
    split at h
    · rename_i hk
      rw [← Option.some.inj h, eq_of_beq hk]
      exact List.mem_cons_self
    · exact List.mem_cons_of_mem _ (ih h)

namespace FlatPayload

variable {l : Map} (h : FlatPayload l)
include h

/-- A member that is not `exp` is a string. -/
theorem lookup_eq {k : Str} (hk : k ≠ "exp".toList) :
    l.lookup k = none ∨ ∃ s, l.lookup k = some (.string s) := by
  cases hl : l.lookup k with
  | none => exact .inl rfl
  | some v =>
    obtain ⟨s, rfl⟩ := h.strings k v (mem_of_lookup hl) hk
    exact .inr ⟨s, rfl⟩

/-- Fields other than `destination` and `exp` are read from strings. -/
theorem readOption_isSome {α : Type*} (read : Value → Option α)
    (hread : ∀ s, (read (.string s)).isSome) {k : Str} (hk : k ≠ "exp".toList) :
    ∃ field, readOption read (l.lookup k) = some field := by
  refine Option.isSome_iff_exists.1 (Option.isSome_iff_ne_none.2 fun hnone => ?_)
  obtain ⟨v, hv, -, hnone⟩ := readOption_eq_none_iff.1 hnone
  rcases h.lookup_eq hk with hl | ⟨s, hl⟩
  · rw [hl] at hv
    cases hv
  · rw [hl] at hv
    obtain rfl := Option.some.inj hv
    have := hread s
    rw [hnone] at this
    cases this

/-- When the first layout fails. -/
theorem ofMembers_eq_none_iff : ProxyData.ofMembers l = none ↔ ReadFlat l := by
  have hsome : ∀ s : Str, (some (Value.string s)).isSome := fun _ => rfl
  obtain ⟨query, hquery⟩ := h.readOption_isSome some hsome (k := "query_params".toList) (by decide)
  obtain ⟨request, hrequest⟩ := h.readOption_isSome some hsome (k := "request_headers".toList)
    (by decide)
  obtain ⟨response, hresponse⟩ := h.readOption_isSome some hsome (k := "response_headers".toList)
    (by decide)
  obtain ⟨ip, hip⟩ := h.readOption_isSome Value.asStr (fun _ => rfl)
    (k := "ip".toList) (by decide)
  unfold ProxyData.ofMembers ReadFlat
  rw [hquery, hrequest, hresponse, hip, ← readOption_eq_none_iff]
  rcases h.lookup_eq (k := "destination".toList) (by decide) with hd | ⟨s, hd⟩
  · exact iff_of_true (by rw [hd]; rfl) (.inl hd)
  · rw [hd]
    cases readOption Value.asU64 (l.lookup "exp".toList) with
    | none => exact iff_of_true rfl (.inr rfl)
    | some exp =>
      refine iff_of_false (Option.some_ne_none _) ?_
      rintro (hnone | hnone)
      · exact Option.some_ne_none _ hnone
      · exact Option.some_ne_none _ hnone

/-- What the first layout makes of a flat object has no query parameters. -/
theorem membersOf_queryParams {p : ProxyData} (hp : ProxyData.ofMembers l = some p) :
    membersOf p.queryParams = [] := by
  unfold ProxyData.ofMembers at hp
  obtain ⟨d, -, hp⟩ := Option.bind_eq_some_iff.1 hp
  obtain ⟨query, hquery, hp⟩ := Option.bind_eq_some_iff.1 hp
  have hfield : p.queryParams = query := by
    obtain ⟨request, -, hp⟩ := Option.bind_eq_some_iff.1 hp
    obtain ⟨response, -, hp⟩ := Option.bind_eq_some_iff.1 hp
    obtain ⟨exp, -, hp⟩ := Option.bind_eq_some_iff.1 hp
    obtain ⟨ip, -, hp⟩ := Option.bind_eq_some_iff.1 hp
    rw [← Option.some.inj hp]
  rw [hfield]
  rcases h.lookup_eq (k := "query_params".toList) (by decide) with hl | ⟨s, hl⟩
  · rw [hl] at hquery
    rw [← Option.some.inj hquery]
    rfl
  · rw [hl] at hquery
    rw [← Option.some.inj hquery]
    rfl

/-- A flat object is read as what it is exactly when the first layout does not read it. -/
theorem getD_ofMembers_iff :
    (ProxyData.ofMembers l).getD (ProxyData.fromPythonFlatDict (objectOf l))
        = ProxyData.fromPythonFlatDict (objectOf l) ↔ ReadFlat l := by
  rw [← h.ofMembers_eq_none_iff]
  constructor
  · intro heq
    cases hp : ProxyData.ofMembers l with
    | none => rfl
    | some p =>
      rw [hp, Option.getD_some] at heq
      -- `destination` is a query parameter of the flat payload, and `p` has none
      have hd : ¬ ReadFlat l := fun hflat => by
        rw [h.ofMembers_eq_none_iff.2 hflat] at hp
        cases hp
      obtain ⟨v, hv⟩ := Option.ne_none_iff_exists'.1 fun hnone => hd (.inl hnone)
      have hmem := (ProxyData.nothingLost_fromPythonFlatDict h).queryParams _ v (mem_of_lookup hv)
        (by decide) (by decide) (by decide)
      rw [← heq, h.membersOf_queryParams hp] at hmem
      cases hmem
  · intro hnone
    rw [hnone, Option.getD_none]

end FlatPayload

/-- **Tokens decode to what was sealed.** A payload of the first layout comes back; a flat one does
exactly when the first layout does not read it; and its layout keeps all members. -/
theorem decrypt_sealed_iff {crates : MintCrates} (hcrates : crates.Inverse) (h : EncryptionHandler)
    {iv : Bytes} (hiv : iv.length = 16) {now : ℕ} {clientIp : Option Str} {p : ProxyData}
    (hp : crates.Writes (crates.writeProxyData p) p.members) (hpvalid : p.ValidFor now clientIp)
    {document : Bytes} {l : Map} (hl : crates.Writes document l) (hflat : FlatPayload l)
    (hlvalid : (ProxyData.fromPythonFlatDict (objectOf l)).ValidFor now clientIp) :
    h.decrypt crates.toTokenCrates now (h.encrypt crates iv p) clientIp = .ok p.normalised
      ∧ NothingLost l (ProxyData.fromPythonFlatDict (objectOf l))
      ∧ (h.decrypt crates.toTokenCrates now (h.sealed crates iv document) clientIp
          = .ok (ProxyData.fromPythonFlatDict (objectOf l)) ↔ ReadFlat l) := by
  refine ⟨?_, ProxyData.nothingLost_fromPythonFlatDict hflat, ?_⟩
  · refine EncryptionHandler.decrypt_sealed hcrates hiv ?_ ⟨hpvalid.exp, hpvalid.ip⟩
    rw [EncryptionHandler.readPayload_of_writes hp, ProxyData.ofMembers_members, Option.getD_some]
  · have hread := EncryptionHandler.readPayload_of_writes hl
    rw [← hflat.getD_ofMembers_iff]
    constructor
    · exact fun hok => EncryptionHandler.eq_of_decrypt_sealed hcrates hiv hl hok
    · intro heq
      rw [heq] at hread
      exact EncryptionHandler.decrypt_sealed hcrates hiv hread hlvalid

/-! ### Documents -/

/-- A JSON document with its members, and its ciphertext under the key of "secret" and a zero
initialisation vector. -/
structure SealedDocument where
  plaintext : Bytes
  ciphertext : Bytes
  members : Map

/-- The crates for a few documents, the first of which is what a payload is written as. Other data
are marked by a zero. -/
def documentCrates (documents : List SealedDocument) (written : Bytes) : MintCrates where
  base64Decode s :=
    match Base64.decode (Base64.padded (s.map Base64.toStandard)) with
    | some bytes => .ok bytes
    | none => .error "Invalid symbol".toList
  decryptPadded key iv data :=
    if data.head? = some 0 then some data.tail
    else if key = (EncryptionHandler.new (utf8 "secret".toList)).key ∧ iv = List.replicate 16 0 then
      (documents.find? fun d => d.ciphertext = data).map SealedDocument.plaintext
    else none
  readProxyData bytes :=
    (documents.find? fun d => d.plaintext = bytes).bind fun d => ProxyData.ofMembers d.members
  readMap bytes :=
    match documents.find? fun d => d.plaintext = bytes with
    | some d => .ok (objectOf d.members)
    | none => .error "expected value".toList
  standardDecode := Base64.decode
  urlSafeEncode := Base64.encodeUrlSafe
  encryptPadded key iv data :=
    if key = (EncryptionHandler.new (utf8 "secret".toList)).key ∧ iv = List.replicate 16 0 then
      ((documents.find? fun d => d.plaintext = data).map SealedDocument.ciphertext).getD (0 :: data)
    else 0 :: data
  writeProxyData _ := written
  parseUrl _ := none

/-- The ciphertexts are told apart, and none is marked. -/
def Unmarked (documents : List SealedDocument) : Prop :=
  ∀ d ∈ documents, d.ciphertext ≠ [] ∧ d.ciphertext.head? ≠ some 0 ∧
    (documents.find? fun e => e.ciphertext = d.ciphertext).map SealedDocument.plaintext
      = some d.plaintext

instance (documents : List SealedDocument) : Decidable (Unmarked documents) :=
  inferInstanceAs (Decidable (∀ d ∈ documents, d.ciphertext ≠ [] ∧ d.ciphertext.head? ≠ some 0 ∧
    (documents.find? fun e => e.ciphertext = d.ciphertext).map SealedDocument.plaintext
      = some d.plaintext))

theorem documentCrates_inverse {documents : List SealedDocument} (h : Unmarked documents)
    (written : Bytes) : (documentCrates documents written).Inverse where
  base64 bytes := by
    show (match Base64.decode (Base64.padded ((Base64.encodeUrlSafe bytes).map Base64.toStandard)) with
      | some bytes => Except.ok bytes
      | none => Except.error "Invalid symbol".toList) = _
    rw [Base64.restandardize_encodeUrlSafe, Base64.decode_encode]
  padding key iv data := by
    unfold documentCrates
    dsimp only
    split
    · cases hd : documents.find? fun d => d.plaintext = data with
      | none => exact List.cons_ne_nil _ _
      | some d => exact (h d (List.mem_of_find?_eq_some hd)).1
    · exact List.cons_ne_nil _ _
  decrypts {key iv} _ _ data := by
    unfold documentCrates
    dsimp only
    split
    · cases hd : documents.find? fun d => d.plaintext = data with
      | none => rfl
      | some d =>
        obtain ⟨-, hhead, hfind⟩ := h d (List.mem_of_find?_eq_some hd)
        have hplaintext : d.plaintext = data := by simpa using List.find?_some hd
        rw [Option.map_some, Option.getD_some, if_neg hhead, hfind, hplaintext]
    · rfl

theorem documentCrates_writes {documents : List SealedDocument} {written : Bytes}
    {d : SealedDocument} (hd : (documents.find? fun e => e.plaintext = d.plaintext) = some d) :
    (documentCrates documents written).Writes d.plaintext d.members where
  readMap := by
    unfold documentCrates
    dsimp only
    rw [hd]
  readProxyData := by
    unfold documentCrates
    dsimp only
    rw [hd]
    rfl

/-- A payload with nothing but a destination. -/
def destinationOnly : ProxyData := ⟨"http://c/v".toList, none, none, none, none, none⟩

/-- `destinationOnly` in the first layout. -/
def typedDocument : SealedDocument where
  plaintext := utf8 ("\x7b\"destination\":\"http://c/v\",\"query_params\":null,".toList ++
    "\"request_headers\":null,\"response_headers\":null,\"exp\":null,\"ip\":null\x7d".toList)
  ciphertext := [116, 143, 152, 35, 38, 111, 18, 17, 249, 43, 105, 69, 97, 52, 70, 1, 27, 97, 9, 108,
    90, 17, 238, 3, 110, 220, 55, 219, 191, 227, 227, 29, 199, 251, 232, 199, 174, 152, 140, 9, 159,
    159, 69, 130, 242, 109, 237, 148, 202, 124, 116, 124, 113, 71, 38, 97, 15, 125, 171, 122, 185,
    122, 201, 124, 20, 227, 124, 180, 237, 240, 79, 220, 235, 80, 21, 0, 17, 67, 173, 91, 159, 187,
    216, 254, 144, 166, 6, 62, 105, 73, 178, 133, 38, 178, 192, 142, 219, 241, 160, 250, 40, 76, 46,
    99, 25, 155, 168, 132, 20, 186, 15, 31, 2, 225, 155, 255, 100, 107, 223, 227, 196, 30, 225, 250,
    160, 149, 146, 240]
  members := destinationOnly.members

/-- A flat payload with a header and a parameter. -/
def flatDocument : SealedDocument where
  plaintext := utf8
    "\x7b\"d\": \"http://c/v\", \"h_referer\": \"http://s/\", \"lang\": \"en\"\x7d".toList
  ciphertext := [44, 138, 231, 196, 201, 160, 13, 70, 103, 215, 84, 53, 69, 169, 141, 16, 65, 160,
    147, 184, 183, 100, 104, 169, 200, 78, 217, 189, 29, 77, 115, 101, 31, 160, 13, 233, 133, 97,
    228, 134, 215, 180, 237, 24, 126, 69, 213, 27, 91, 69, 68, 82, 53, 121, 56, 52, 33, 175, 163, 18,
    53, 210, 82, 201]
  members := [("d".toList, .string "http://c/v".toList),
    ("h_referer".toList, .string "http://s/".toList), ("lang".toList, .string "en".toList)]

/-- A flat payload with a parameter called `destination`. -/
def ambiguousDocument : SealedDocument where
  plaintext := utf8 "\x7b\"d\": \"http://c/v\", \"destination\": \"tokyo\"\x7d".toList
  ciphertext := [44, 138, 231, 196, 201, 160, 13, 70, 103, 215, 84, 53, 69, 169, 141, 16, 157, 138,
    84, 38, 222, 110, 4, 24, 226, 189, 133, 43, 53, 168, 235, 90, 8, 82, 27, 182, 53, 207, 164, 54,
    49, 73, 80, 92, 165, 92, 245, 64]
  members := [("d".toList, .string "http://c/v".toList),
    ("destination".toList, .string "tokyo".toList)]

theorem flatPayload_flatDocument : FlatPayload flatDocument.members where
  nodup := by decide
  destination := ⟨_, rfl⟩
  strings k v hkv _ := by
    simp only [flatDocument, List.mem_cons, Prod.mk.injEq, List.not_mem_nil, or_false] at hkv
    rcases hkv with ⟨-, rfl⟩ | ⟨-, rfl⟩ | ⟨-, rfl⟩ <;> exact ⟨_, rfl⟩

theorem flatPayload_ambiguousDocument : FlatPayload ambiguousDocument.members where
  nodup := by decide
  destination := ⟨_, rfl⟩
  strings k v hkv _ := by
    simp only [ambiguousDocument, List.mem_cons, Prod.mk.injEq, List.not_mem_nil, or_false] at hkv
    rcases hkv with ⟨-, rfl⟩ | ⟨-, rfl⟩ <;> exact ⟨_, rfl⟩

/-- A payload without bounds is valid for every client. -/
theorem validFor_of_unbounded {p : ProxyData} (hexp : p.exp = none) (hip : p.ip = none) (now : ℕ)
    (clientIp : Option Str) : p.ValidFor now clientIp where
  exp n hn := by
    rw [hexp] at hn
    cases hn
  ip tokenIp htoken := by
    rw [hip] at htoken
    cases htoken

/-- The crates for one payload of each layout. -/
def bothLayouts : MintCrates :=
  documentCrates [typedDocument, flatDocument, ambiguousDocument] typedDocument.plaintext

theorem bothLayouts_inverse : bothLayouts.Inverse :=
  documentCrates_inverse (by decide +kernel) _

theorem bothLayouts_writes {d : SealedDocument} (hd : ([typedDocument, flatDocument,
    ambiguousDocument].find? fun e => e.plaintext = d.plaintext) = some d) :
    bothLayouts.Writes d.plaintext d.members :=
  documentCrates_writes hd

/-- Both tokens decode to what was sealed. -/
theorem decrypt_sealed_bothLayouts :
    (EncryptionHandler.new (utf8 "secret".toList)).decrypt bothLayouts.toTokenCrates 0
        ((EncryptionHandler.new (utf8 "secret".toList)).encrypt bothLayouts (List.replicate 16 0)
          destinationOnly) none = .ok destinationOnly.normalised
      ∧ (EncryptionHandler.new (utf8 "secret".toList)).decrypt bothLayouts.toTokenCrates 0
        ((EncryptionHandler.new (utf8 "secret".toList)).sealed bothLayouts (List.replicate 16 0)
          flatDocument.plaintext) none
        = .ok (ProxyData.fromPythonFlatDict (objectOf flatDocument.members)) := by
  have hfound : [typedDocument, flatDocument, ambiguousDocument].find?
      (fun e => e.plaintext = flatDocument.plaintext) = some flatDocument := by
    rw [List.find?_cons_of_neg (by decide +kernel), List.find?_cons_of_pos (by decide +kernel)]
  have htyped : bothLayouts.Writes (bothLayouts.writeProxyData destinationOnly)
      destinationOnly.members :=
    bothLayouts_writes (d := typedDocument) (List.find?_cons_of_pos (decide_eq_true rfl))
  have h := decrypt_sealed_iff bothLayouts_inverse (EncryptionHandler.new (utf8 "secret".toList))
    (@List.length_replicate _ 16 (0 : UInt8)) htyped (validFor_of_unbounded rfl rfl 0 none)
    (bothLayouts_writes hfound) flatPayload_flatDocument (validFor_of_unbounded rfl rfl 0 none)
  exact ⟨h.1, h.2.2.2 (.inl rfl)⟩

/-- A parameter called `destination` makes the flat payload one of the first layout. -/
theorem not_decrypt_sealed :
    ¬ ∀ (crates : MintCrates), crates.Inverse → ∀ (h : EncryptionHandler) (iv : Bytes),
      iv.length = 16 → ∀ (now : ℕ) (clientIp : Option Str) (document : Bytes) (l : Map),
      crates.Writes document l → FlatPayload l →
      (ProxyData.fromPythonFlatDict (objectOf l)).ValidFor now clientIp →
        h.decrypt crates.toTokenCrates now (h.sealed crates iv document) clientIp
          = .ok (ProxyData.fromPythonFlatDict (objectOf l)) := by
  intro hall
  have hfound : [typedDocument, flatDocument, ambiguousDocument].find?
      (fun e => e.plaintext = ambiguousDocument.plaintext) = some ambiguousDocument := by
    rw [List.find?_cons_of_neg (by decide +kernel), List.find?_cons_of_neg (by decide +kernel),
      List.find?_cons_of_pos (by decide +kernel)]
  have hwrites := bothLayouts_writes hfound
  have hvalid := validFor_of_unbounded (p := ProxyData.fromPythonFlatDict
    (objectOf ambiguousDocument.members)) rfl rfl 0 none
  have hok := hall bothLayouts bothLayouts_inverse (EncryptionHandler.new [])
    (List.replicate 16 0) List.length_replicate 0 none _ _ hwrites flatPayload_ambiguousDocument
    hvalid
  have hread := EncryptionHandler.eq_of_decrypt_sealed bothLayouts_inverse List.length_replicate
    hwrites hok
  -- the destination would be "tokyo" and "http://c/v"
  have hdestination := congrArg ProxyData.destination hread
  exact absurd hdestination (by decide)

end MediaFlow
