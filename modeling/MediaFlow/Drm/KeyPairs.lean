import MediaFlow.Drm.Segment
import MediaFlow.Mpd.Master

/-!
# Keys and their ids

The `key` parameter `kid:key,kid:key`, from `build_proxy_params`, which takes it apart into a list of
ids and a list of keys, through `build_key_map_from_hex`, which puts the two together again, to
`get_key_for_track`.

Each list is rid of its empty components before they are put together, so the `n`-th id that is not
blank meets the `n`-th key that is not blank (`shifted`).

* `lookup_keyMap`: a key map answers with the last key that an id has met.
* `lookup_iff_mem`: so it holds the pairs that were given when no id has two keys and the last key
  of each id is the one it was given with.
* `shifted_of_aligned`, `aligned_of_shifted`: nothing shifts where the ids or the keys end with the
  first blank that stands alone, and, as long as all parts can be told apart, only there.
-/

open ByteString Text

namespace MediaFlow

/-! ### The parameter -/

/-- An id and a key as they are given. Neither has a separator in it. -/
structure KeyPair where
  kid : Str
  key : Str
  kid_comma : ',' ∉ kid
  kid_colon : ':' ∉ kid
  key_comma : ',' ∉ key

/-- The pair as it is written. -/
def KeyPair.text (p : KeyPair) : Str := p.kid ++ ':' :: p.key

/-- The `key` parameter for a list of pairs. -/
def keyParam (pairs : List KeyPair) : Str := [','].intercalate (pairs.map KeyPair.text)

/-- A part with nothing in it. -/
def Blank (s : Str) : Prop := trim s = []

instance (s : Str) : Decidable (Blank s) := inferInstanceAs (Decidable (trim s = []))

/-- The bytes of a part that is valid: hexadecimal digits, apart from hyphens and the whitespace
around them. A blank part has none. -/
def hexPart (s : Str) : Option Bytes :=
  if Blank s then none else hexDecode ((trim s).filter (· ≠ '-'))

def KeyPair.kidBytes (p : KeyPair) : Option Bytes := hexPart p.kid

def KeyPair.keyBytes (p : KeyPair) : Option Bytes := hexPart p.key

/-- The bytes of a pair both parts of which are valid. -/
def KeyPair.bytes (p : KeyPair) : Option (Bytes × Bytes) := do
  return (← p.kidBytes, ← p.keyBytes)

/-- The valid pairs. -/
def givenPairs (pairs : List KeyPair) : List (Bytes × Bytes) := pairs.filterMap KeyPair.bytes

/-- The keys that a handler decrypts with. -/
def MasterParams.keyMap (params : MasterParams) : KeyMap :=
  match params.keyId, params.key with
  | some keyId, some key => buildKeyMapFromHex keyId key
  | _, _ => ∅

/-! ### What the code makes of it -/

/-- The closure of `build_key_map_from_hex` on an id and a key that have met. -/
def decodePair (p : Str × Str) : Option (Bytes × Bytes) := do
  let kid ← hexDecode (p.1.filter (· ≠ '-'))
  let k ← hexDecode (p.2.filter (· ≠ '-'))
  return (kid, k)

/-- The components that are left of a list. -/
def nonblank (parts : List Str) : List Str := (parts.map trim).filter (· ≠ [])

/-- The pairs that the code reads: the `n`-th id that is not blank with the `n`-th key that is
not. -/
def shifted (pairs : List KeyPair) : List (Bytes × Bytes) :=
  ((nonblank (pairs.map KeyPair.kid)).zip (nonblank (pairs.map KeyPair.key))).filterMap decodePair

theorem KeyPair.comma_not_mem_text (p : KeyPair) : ',' ∉ p.text := by
  intro h
  rcases List.mem_append.1 h with h | h
  · exact p.kid_comma h
  · rcases List.mem_cons.1 h with h | h
    · exact absurd h (by decide)
    · exact p.key_comma h

theorem KeyPair.colon_mem_text (p : KeyPair) : ':' ∈ p.text :=
  List.mem_append_right _ List.mem_cons_self

theorem KeyPair.takeWhile_text (p : KeyPair) : p.text.takeWhile (· ≠ ':') = p.kid := by
  rw [KeyPair.text, List.takeWhile_append_of_pos]
  · rw [List.takeWhile_cons_of_neg (by decide), List.append_nil]
  · intro c hc
    exact decide_eq_true fun h => p.kid_colon (h ▸ hc)

theorem KeyPair.splitOnce_text (p : KeyPair) : splitOnce ':' p.text = some (p.kid, p.key) :=
  splitOnce_of_not_mem p.kid_colon p.key

theorem splitOn_keyParam {pairs : List KeyPair} (h : pairs ≠ []) :
    (keyParam pairs).splitOn ',' = pairs.map KeyPair.text := by
  refine List.splitOn_intercalate ',' ?_ (mt List.map_eq_nil_iff.1 h)
  exact List.forall_mem_map.2 fun p _ => p.comma_not_mem_text

theorem colon_mem_keyParam {pairs : List KeyPair} (h : pairs ≠ []) : ':' ∈ keyParam pairs := by
  obtain ⟨p, rest, rfl⟩ := List.exists_cons_of_ne_nil h
  cases rest with
  | nil => simpa [keyParam, List.intercalate] using p.colon_mem_text
  | cons q rest =>
    simpa [keyParam, List.intercalate] using Or.inl p.colon_mem_text

/-- `build_proxy_params` takes the parameter apart. -/
theorem splitKeys_keyParam {keyId : Option Str} (hkeyId : ∀ v ∈ keyId, v = []) {pairs : List KeyPair}
    (h : pairs ≠ []) :
    splitKeys keyId (some (keyParam pairs))
      = (some ([','].intercalate (pairs.map KeyPair.kid)),
          some ([','].intercalate (pairs.map KeyPair.key))) := by
  have hnone : keyId.filter (· ≠ []) = none := by
    cases keyId with
    | none => rfl
    | some v => rw [hkeyId v rfl]; rfl
  have hne : keyParam pairs ≠ [] := List.ne_nil_of_mem (colon_mem_keyParam h)
  have hsome : (some (keyParam pairs)).filter (· ≠ []) = some (keyParam pairs) := by
    rw [Option.filter_some, if_pos (decide_eq_true hne)]
  have hall : (pairs.map KeyPair.text).all (fun p => ':' ∈ p) = true :=
    List.all_eq_true.2 (List.forall_mem_map.2 fun p _ => decide_eq_true p.colon_mem_text)
  unfold splitKeys
  simp only [hnone, hsome]
  rw [splitOn_keyParam h, if_pos ⟨colon_mem_keyParam h, hall⟩, List.map_map, List.map_map]
  congr 3
  · exact List.map_congr_left fun p _ => p.takeWhile_text
  · refine List.map_congr_left fun p _ => ?_
    rw [Function.comp_apply, p.splitOnce_text]
    rfl

theorem buildKeyMapFromHex_intercalate {pairs : List KeyPair} (h : pairs ≠ []) :
    buildKeyMapFromHex ([','].intercalate (pairs.map KeyPair.kid))
        ([','].intercalate (pairs.map KeyPair.key))
      = (shifted pairs).foldl (fun m p => m.insert p.1 p.2) ∅ := by
  have hkids : ([','].intercalate (pairs.map KeyPair.kid)).splitOn ',' = pairs.map KeyPair.kid :=
    List.splitOn_intercalate ',' (List.forall_mem_map.2 fun p _ => p.kid_comma)
      (mt List.map_eq_nil_iff.1 h)
  have hkeys : ([','].intercalate (pairs.map KeyPair.key)).splitOn ',' = pairs.map KeyPair.key :=
    List.splitOn_intercalate ',' (List.forall_mem_map.2 fun p _ => p.key_comma)
      (mt List.map_eq_nil_iff.1 h)
  unfold buildKeyMapFromHex
  simp only [hkids, hkeys]
  rfl

/-- The key map of a request with the `key` parameter for a list of pairs, and no `key_id`. -/
theorem keyMap_buildProxyParams (proxyData : ProxyData) {query : Str → Option Str}
    (apiPassword : Str) (remuxToTs : Bool) (hkeyId : ∀ v ∈ query "key_id".toList, v = [])
    {pairs : List KeyPair} (hkey : query "key".toList = some (keyParam pairs)) :
    (buildProxyParams proxyData query apiPassword remuxToTs).keyMap
      = (shifted pairs).foldl (fun m p => m.insert p.1 p.2) ∅ := by
  unfold MasterParams.keyMap buildProxyParams
  rw [hkey]
  by_cases h : pairs = []
  · subst h
    -- an empty parameter counts as absent
    have hnone : (splitKeys (query "key_id".toList) (some (keyParam []))).2 = none := by
      unfold splitKeys
      cases hq : query "key_id".toList with
      | none => rfl
      | some v => rw [hkeyId v hq]; rfl
    simp only [hnone]
    cases (splitKeys (query "key_id".toList) (some (keyParam []))).1 <;> rfl
  · rw [splitKeys_keyParam hkeyId h]
    exact buildKeyMapFromHex_intercalate h

/-! ### The map -/

/-- The last key of an id in a list of pairs. -/
def lastKey (kid : Bytes) (l : List (Bytes × Bytes)) : Option Bytes :=
  (l.filterMap fun p => if p.1 = kid then some p.2 else none).getLast?

theorem lastKey_append_singleton (kid : Bytes) (l : List (Bytes × Bytes)) (p : Bytes × Bytes) :
    lastKey kid (l ++ [p]) = if p.1 = kid then some p.2 else lastKey kid l := by
  unfold lastKey
  by_cases h : p.1 = kid
  · simp [h]
  · simp [h]

theorem mem_of_lastKey {kid key : Bytes} {l : List (Bytes × Bytes)} (h : lastKey kid l = some key) :
    (kid, key) ∈ l := by
  obtain ⟨p, hp, hkey⟩ := List.mem_filterMap.1 (List.mem_of_getLast? h)
  obtain ⟨rfl, hk⟩ := Option.ite_none_right_eq_some.1 hkey
  rwa [← Option.some.inj hk]

theorem exists_lastKey {kid key : Bytes} {l : List (Bytes × Bytes)} (h : (kid, key) ∈ l) :
    ∃ key', lastKey kid l = some key' := by
  have hmem : key ∈ l.filterMap fun p => if p.1 = kid then some p.2 else none :=
    List.mem_filterMap.2 ⟨(kid, key), h, if_pos rfl⟩
  exact Option.isSome_iff_exists.1 (List.getLast?_isSome.2 (List.ne_nil_of_mem hmem))

/-- Later pairs overwrite earlier ones. -/
theorem lookup_keyMap (kid : Bytes) (l : List (Bytes × Bytes)) :
    (l.foldl (fun m p => m.insert p.1 p.2) (∅ : KeyMap)).lookup kid = lastKey kid l := by
  induction l using List.reverseRecOn with
  | nil => rfl
  | append_singleton l p ih =>
    rw [List.foldl_append, List.foldl_cons, List.foldl_nil, lastKey_append_singleton]
    by_cases h : p.1 = kid
    · rw [if_pos h, ← h]
      exact AList.lookup_insert _
    · rw [if_neg h, ← ih]
      exact AList.lookup_insert_ne (Ne.symm h)

/-- No id has two keys. -/
def OneKeyEach (l : List (Bytes × Bytes)) : Prop :=
  ∀ kid key key', (kid, key) ∈ l → (kid, key') ∈ l → key = key'

/-- A lookup answers with the pairs of a list exactly when no id of it has two keys and the answer
is always the last one. -/
theorem lookup_iff_mem {lookup : Bytes → Option Bytes} {l : List (Bytes × Bytes)} :
    (∀ kid key, lookup kid = some key ↔ (kid, key) ∈ l)
      ↔ OneKeyEach l ∧ ∀ kid, lookup kid = lastKey kid l := by
  constructor
  · intro h
    have hone : OneKeyEach l := fun kid key key' hk hk' =>
      Option.some.inj (((h kid key).2 hk).symm.trans ((h kid key').2 hk'))
    refine ⟨hone, fun kid => Option.ext fun key => ?_⟩
    refine ⟨fun hl => ?_, fun hl => (h kid key).2 (mem_of_lastKey hl)⟩
    have hmem := (h kid key).1 hl
    obtain ⟨key', hkey'⟩ := exists_lastKey hmem
    rw [hone kid key key' hmem (mem_of_lastKey hkey')]
    exact hkey'
  · rintro ⟨hone, h⟩ kid key
    rw [h]
    refine ⟨mem_of_lastKey, fun hmem => ?_⟩
    obtain ⟨key', hkey'⟩ := exists_lastKey hmem
    rw [hone kid key key' hmem (mem_of_lastKey hkey')]
    exact hkey'

/-! ### The keys of tracks -/

/-- The keys stay with their ids: the map holds the valid pairs, and a track whose id was given is
only decrypted with a key that was given with it. -/
structure KeysStayPaired (pairs : List KeyPair) (m : KeyMap) : Prop where
  holds : ∀ kid key, m.lookup kid = some key ↔ (kid, key) ∈ givenPairs pairs
  tracks : ∀ s : Mp4Decrypter, s.keyMap = m → ∀ (trackId : ℕ) (kid key : Bytes),
    s.extractedKids trackId = some kid → (∃ p ∈ pairs, p.kidBytes = some kid) →
      s.getKeyForTrack trackId = some key → (kid, key) ∈ givenPairs pairs

/-- The id of no key in a list. -/
def Keyless (kid : Bytes) (l : List (Bytes × Bytes)) : Prop := ∀ key, (kid, key) ∉ l

/-- An id without a valid key of its own is out of reach of the fallbacks: the valid pairs do not
come down to one id, and none is for the same id in the other byte order. -/
def FallbacksMiss (pairs : List KeyPair) : Prop :=
  ∀ p ∈ pairs, ∀ kid, p.kidBytes = some kid → Keyless kid (givenPairs pairs) →
    (∀ only key, (only, key) ∈ givenPairs pairs → ∃ q ∈ givenPairs pairs, q.1 ≠ only)
    ∧ (kid.length = 16 → (¬ ∀ b ∈ kid, b = 0) → Keyless (Mp4Decrypter.swapKid kid) (givenPairs pairs))

/-- A new decrypter that has read `kid` as the id of every track. -/
def decrypterFor (m : KeyMap) (kid : Bytes) : Mp4Decrypter :=
  { Mp4Decrypter.new m with extractedKids := fun _ => some kid }

/-- What a decrypter with this map answers for a track with an id. -/
theorem getKeyForTrack_of_extracted {m : KeyMap} {s : Mp4Decrypter} (hs : s.keyMap = m) {trackId : ℕ}
    {kid : Bytes} (hkid : s.extractedKids trackId = some kid) :
    s.getKeyForTrack trackId
      = (if (∀ b ∈ kid, b = 0) ∧ kid.length = 16 then none
          else (m.lookup kid).or
            (if kid.length = 16 then m.lookup (Mp4Decrypter.swapKid kid) else none)).or
        s.getCurrentKey := by
  unfold Mp4Decrypter.getKeyForTrack
  rw [hkid, hs]
  simp only [List.all_eq_true, decide_eq_true_eq]
  rfl

theorem getCurrentKey_eq_some_iff {m : KeyMap} {s : Mp4Decrypter} (hs : s.keyMap = m) {key : Bytes} :
    s.getCurrentKey = some key ↔ ∃ only, m.entries = [⟨only, key⟩] := by
  unfold Mp4Decrypter.getCurrentKey
  rw [hs]
  split
  · rename_i e he
    rw [he]
    constructor
    · rintro h
      exact ⟨e.1, by rw [← Option.some.inj h]⟩
    · rintro ⟨only, h⟩
      rw [(List.cons.inj h).1]
  · rename_i hne
    exact iff_of_false (fun h => absurd h.symm (Option.some_ne_none _)) fun ⟨only, h⟩ => hne _ h

section Tracks

variable {pairs : List KeyPair} {m : KeyMap}
  (holds : ∀ kid key, m.lookup kid = some key ↔ (kid, key) ∈ givenPairs pairs)
include holds

theorem mem_entries_iff {kid key : Bytes} :
    (⟨kid, key⟩ : Σ _ : Bytes, Bytes) ∈ m.entries ↔ (kid, key) ∈ givenPairs pairs :=
  AList.mem_lookup_iff.symm.trans (holds kid key)

/-- The map has one entry when the valid pairs come down to one id. -/
theorem exists_entries_eq_singleton_iff :
    (∃ e, m.entries = [e]) ↔
      ∃ only key, (only, key) ∈ givenPairs pairs ∧ ∀ q ∈ givenPairs pairs, q.1 = only := by
  constructor
  · rintro ⟨⟨only, key⟩, he⟩
    refine ⟨only, key, (mem_entries_iff holds).1 (he ▸ List.mem_singleton_self _), fun q hq => ?_⟩
    have hmem := (mem_entries_iff holds).2 hq
    rw [he, List.mem_singleton] at hmem
    exact congrArg Sigma.fst hmem
  · rintro ⟨only, key, hmem, hall⟩
    have hentry := (mem_entries_iff holds).2 hmem
    refine ⟨⟨only, key⟩, ?_⟩
    -- the keys of the map are distinct, and all of them are `only`
    have hkeys : m.entries.map Sigma.fst = List.replicate m.entries.length only := by
      refine List.eq_replicate_iff.2 ⟨List.length_map _, List.forall_mem_map.2 fun e he => ?_⟩
      exact hall (e.1, e.2) ((mem_entries_iff holds).1 he)
    have hnodup : (m.entries.map Sigma.fst).Nodup := m.nodupKeys
    rw [hkeys, List.nodup_replicate] at hnodup
    obtain ⟨e, he⟩ := List.length_eq_one_iff.1
      (le_antisymm hnodup (List.length_pos_of_mem hentry))
    rw [he, List.mem_singleton] at hentry
    rw [he, hentry]

theorem keyless_iff_lookup {kid : Bytes} :
    Keyless kid (givenPairs pairs) ↔ m.lookup kid = none := by
  rw [Option.eq_none_iff_forall_ne_some]
  exact forall_congr' fun key => not_congr (holds kid key).symm

/-- A map that holds the valid pairs gives each track a key of its own exactly when the fallbacks
miss the ids without one. -/
theorem tracks_iff_fallbacksMiss :
    (∀ s : Mp4Decrypter, s.keyMap = m → ∀ (trackId : ℕ) (kid key : Bytes),
      s.extractedKids trackId = some kid → (∃ p ∈ pairs, p.kidBytes = some kid) →
        s.getKeyForTrack trackId = some key → (kid, key) ∈ givenPairs pairs)
      ↔ FallbacksMiss pairs := by
  constructor
  · intro h p hp kid hkid hkeyless
    have hget : (decrypterFor m kid).getKeyForTrack 0 = _ :=
      getKeyForTrack_of_extracted (m := m) rfl rfl
    have hnone : ∀ key, (decrypterFor m kid).getKeyForTrack 0 ≠ some key := fun key hkey =>
      hkeyless key (h _ rfl 0 kid key rfl ⟨p, hp, hkid⟩ hkey)
    refine ⟨fun only key hmem => ?_, fun hlength hzero key hmem => ?_⟩
    · by_contra hall
      push Not at hall
      obtain ⟨e, he⟩ := (exists_entries_eq_singleton_iff holds).2 ⟨only, key, hmem, hall⟩
      have hcurrent : (decrypterFor m kid).getCurrentKey = some e.2 :=
        (getCurrentKey_eq_some_iff rfl).2 ⟨e.1, he⟩
      rw [hcurrent] at hget
      obtain ⟨key', hkey'⟩ : ∃ key', (decrypterFor m kid).getKeyForTrack 0 = some key' := by
        refine Option.isSome_iff_exists.1 ?_
        rw [hget, Option.isSome_or, Option.isSome_some, Bool.or_true]
      exact hnone key' hkey'
    · rw [if_neg (fun h => hzero h.1), (keyless_iff_lookup holds).1 hkeyless, if_pos hlength,
        (holds _ key).2 hmem] at hget
      exact hnone key hget
  · intro h s hs trackId kid key hkid ⟨p, hp, hgiven⟩ hget
    rw [getKeyForTrack_of_extracted hs hkid] at hget
    by_cases hkeyless : Keyless kid (givenPairs pairs)
    · obtain ⟨honly, hswap⟩ := h p hp kid hgiven hkeyless
      have hdirect : (if (∀ b ∈ kid, b = 0) ∧ kid.length = 16 then none
          else (m.lookup kid).or
            (if kid.length = 16 then m.lookup (Mp4Decrypter.swapKid kid) else none)) = none := by
        split
        · rfl
        · rename_i hzero
          rw [(keyless_iff_lookup holds).1 hkeyless, Option.none_or]
          split
          · rename_i hlength
            exact (keyless_iff_lookup holds).1 (hswap hlength fun hz => hzero ⟨hz, hlength⟩)
          · rfl
      rw [hdirect, Option.none_or, getCurrentKey_eq_some_iff hs] at hget
      obtain ⟨only, he⟩ := hget
      obtain ⟨only, key, hmem, hall⟩ := (exists_entries_eq_singleton_iff holds).1 ⟨_, he⟩
      obtain ⟨q, hq, hne⟩ := honly only key hmem
      exact absurd (hall q hq) hne
    · obtain ⟨own, hown⟩ := not_forall_not.1 hkeyless
      split at hget
      · rw [Option.none_or, getCurrentKey_eq_some_iff hs] at hget
        obtain ⟨only, he⟩ := hget
        have hentry := (mem_entries_iff holds).2 hown
        rw [he, List.mem_singleton] at hentry
        cases hentry
        exact hown
      · rw [(holds kid own).2 hown] at hget
        cases hget
        exact hown

end Tracks

/-! ### Shifts -/

/-- Each id meets the key it was given with: whenever one part of a pair is blank and the other is
not, no part on the blank side comes after it. -/
def PartsAligned : List KeyPair → Prop
  | [] => True
  | p :: rest =>
    (Blank p.kid ↔ Blank p.key) ∧ PartsAligned rest
      ∨ (∀ q ∈ p :: rest, Blank q.kid) ∨ ∀ q ∈ p :: rest, Blank q.key

/-- Every part is blank or valid, and no id and no key comes twice. -/
structure PartsDistinct (pairs : List KeyPair) : Prop where
  kids : ∀ p ∈ pairs, ¬ Blank p.kid → (p.kidBytes).isSome
  keys : ∀ p ∈ pairs, ¬ Blank p.key → (p.keyBytes).isSome
  kids_nodup : (pairs.filterMap KeyPair.kidBytes).Nodup
  keys_nodup : (pairs.filterMap KeyPair.keyBytes).Nodup

/-- The pairs that meet agree with the given ones on the last key of each id. -/
def ShiftHarmless (pairs : List KeyPair) : Prop :=
  ∀ kid, lastKey kid (shifted pairs) = lastKey kid (givenPairs pairs)

theorem nonblank_cons_of_blank {s : Str} (h : Blank s) (l : List Str) :
    nonblank (s :: l) = nonblank l := by
  rw [nonblank, List.map_cons, List.filter_cons_of_neg (by simpa [Blank] using h), nonblank]

theorem nonblank_cons {s : Str} (h : ¬ Blank s) (l : List Str) :
    nonblank (s :: l) = trim s :: nonblank l := by
  rw [nonblank, List.map_cons, List.filter_cons_of_pos (by simpa [Blank] using h), nonblank]

theorem nonblank_eq_nil {l : List Str} (h : ∀ s ∈ l, Blank s) : nonblank l = [] := by
  refine List.filter_eq_nil_iff.2 (List.forall_mem_map.2 fun s hs => ?_)
  simpa [Blank] using h s hs

theorem hexPart_of_blank {s : Str} (h : Blank s) : hexPart s = none := if_pos h

theorem hexPart_of_not_blank {s : Str} (h : ¬ Blank s) :
    hexPart s = hexDecode ((trim s).filter (· ≠ '-')) := if_neg h

theorem KeyPair.kidBytes_of_blank {p : KeyPair} (h : Blank p.kid) : p.kidBytes = none := if_pos h

theorem KeyPair.keyBytes_of_blank {p : KeyPair} (h : Blank p.key) : p.keyBytes = none := if_pos h

theorem KeyPair.bytes_of_blank {p : KeyPair} (h : Blank p.kid ∨ Blank p.key) : p.bytes = none := by
  unfold KeyPair.bytes
  rcases h with h | h
  · rw [kidBytes_of_blank h]
    rfl
  · rw [keyBytes_of_blank h]
    cases p.kidBytes <;> rfl

theorem givenPairs_eq_nil {pairs : List KeyPair} (h : ∀ p ∈ pairs, Blank p.kid ∨ Blank p.key) :
    givenPairs pairs = [] :=
  List.filterMap_eq_nil_iff.2 fun p hp => KeyPair.bytes_of_blank (h p hp)

/-- Aligned parts meet as they were given. -/
theorem shifted_of_aligned {pairs : List KeyPair} (h : PartsAligned pairs) :
    shifted pairs = givenPairs pairs := by
  induction pairs with
  | nil => rfl
  | cons p rest ih =>
    rcases h with ⟨hblank, hrest⟩ | hkids | hkeys
    · by_cases hkid : Blank p.kid
      · have hkey := hblank.1 hkid
        rw [givenPairs, List.filterMap_cons_none (KeyPair.bytes_of_blank (.inl hkid))]
        rw [shifted, List.map_cons, List.map_cons, nonblank_cons_of_blank hkid,
          nonblank_cons_of_blank hkey]
        exact ih hrest
      · have hkey : ¬ Blank p.key := mt hblank.2 hkid
        have hdecode : decodePair (trim p.kid, trim p.key) = p.bytes := by
          rw [KeyPair.bytes, KeyPair.kidBytes, KeyPair.keyBytes, hexPart_of_not_blank hkid,
            hexPart_of_not_blank hkey]
          rfl
        rw [shifted, List.map_cons, List.map_cons, nonblank_cons hkid, nonblank_cons hkey,
          List.zip_cons_cons, givenPairs, List.filterMap_cons, List.filterMap_cons, hdecode]
        have hshifted := ih hrest
        unfold shifted givenPairs at hshifted
        rw [hshifted]
    · rw [givenPairs_eq_nil fun q hq => .inl (hkids q hq), shifted,
        nonblank_eq_nil (List.forall_mem_map.2 hkids), List.zip_nil_left]
      rfl
    · rw [givenPairs_eq_nil fun q hq => .inr (hkeys q hq), shifted,
        nonblank_eq_nil (List.forall_mem_map.2 hkeys), List.zip_nil_right]
      rfl

/-- The bytes of the parts that are left, when all of them are valid. -/
theorem map_hexDecode_nonblank {l : List Str} (h : ∀ s ∈ l, ¬ Blank s → (hexPart s).isSome) :
    (nonblank l).map (fun s => hexDecode (s.filter (· ≠ '-'))) = (l.filterMap hexPart).map some := by
  induction l with
  | nil => rfl
  | cons s l ih =>
    have ih := ih fun t ht => h t (List.mem_cons_of_mem _ ht)
    by_cases hs : Blank s
    · rw [nonblank_cons_of_blank hs, List.filterMap_cons_none (hexPart_of_blank hs), ih]
    · obtain ⟨bytes, hbytes⟩ := Option.isSome_iff_exists.1 (h s List.mem_cons_self hs)
      rw [nonblank_cons hs, List.filterMap_cons_some hbytes, List.map_cons, List.map_cons, ih,
        ← hexPart_of_not_blank hs, hbytes]

theorem filterMap_decodePair_zip {kids keys : List Str} {kidBytes keyBytes : List Bytes}
    (hkids : kids.map (fun s => hexDecode (s.filter (· ≠ '-'))) = kidBytes.map some)
    (hkeys : keys.map (fun s => hexDecode (s.filter (· ≠ '-'))) = keyBytes.map some) :
    (kids.zip keys).filterMap decodePair = kidBytes.zip keyBytes := by
  induction kids generalizing keys kidBytes keyBytes with
  | nil =>
    rw [List.map_eq_nil_iff.1 hkids.symm]
    rfl
  | cons kid kids ih =>
    obtain ⟨b, kidBytes, rfl⟩ := List.exists_cons_of_ne_nil
      (l := kidBytes) fun h => by simp [h] at hkids
    cases keys with
    | nil =>
      rw [List.map_eq_nil_iff.1 hkeys.symm, List.zip_nil_right, List.zip_nil_right]
      rfl
    | cons key keys =>
      obtain ⟨c, keyBytes, rfl⟩ := List.exists_cons_of_ne_nil
        (l := keyBytes) fun h => by simp [h] at hkeys
      obtain ⟨hb, hkids⟩ := List.cons.inj hkids
      obtain ⟨hc, hkeys⟩ := List.cons.inj hkeys
      have hdecode : decodePair (kid, key) = some (b, c) := by
        unfold decodePair
        simp only [hb, hc]
        rfl
      rw [List.zip_cons_cons, List.zip_cons_cons, List.filterMap_cons_some hdecode,
        ih hkids hkeys]

theorem PartsDistinct.shifted_eq_zip {pairs : List KeyPair} (h : PartsDistinct pairs) :
    shifted pairs = (pairs.filterMap KeyPair.kidBytes).zip
      (pairs.filterMap KeyPair.keyBytes) := by
  have hkids := map_hexDecode_nonblank (List.forall_mem_map.2 h.kids)
  have hkeys := map_hexDecode_nonblank (List.forall_mem_map.2 h.keys)
  rw [List.filterMap_map] at hkids hkeys
  exact filterMap_decodePair_zip hkids hkeys

theorem oneKeyEach_zip {kids : List Bytes} (h : kids.Nodup) (keys : List Bytes) :
    OneKeyEach (kids.zip keys) := by
  intro kid key key' hk hk'
  obtain ⟨i, hi, hki⟩ := List.mem_iff_getElem.1 hk
  obtain ⟨j, hj, hkj⟩ := List.mem_iff_getElem.1 hk'
  rw [List.getElem_zip] at hki hkj
  obtain ⟨hkid, rfl⟩ := Prod.mk.inj hki
  obtain ⟨hkid', rfl⟩ := Prod.mk.inj hkj
  obtain rfl : i = j := (h.getElem_inj_iff).1 (hkid.trans hkid'.symm)
  rfl

theorem mem_filterMap_of_mem_givenPairs {pairs : List KeyPair} {kid key : Bytes}
    (h : (kid, key) ∈ givenPairs pairs) :
    kid ∈ pairs.filterMap KeyPair.kidBytes ∧
      key ∈ pairs.filterMap KeyPair.keyBytes := by
  obtain ⟨p, hp, hbytes⟩ := List.mem_filterMap.1 h
  unfold KeyPair.bytes at hbytes
  obtain ⟨b, hb, hbytes⟩ := Option.bind_eq_some_iff.1 hbytes
  obtain ⟨c, hc, hbytes⟩ := Option.bind_eq_some_iff.1 hbytes
  obtain ⟨rfl, rfl⟩ := Prod.mk.inj (Option.some.inj hbytes)
  exact ⟨List.mem_filterMap.2 ⟨p, hp, hb⟩, List.mem_filterMap.2 ⟨p, hp, hc⟩⟩

/-- Where the parts can be told apart, ids and keys that meet as they were given are aligned. -/
theorem aligned_of_zip_subset {pairs : List KeyPair} (h : PartsDistinct pairs)
    (hsubset : (pairs.filterMap KeyPair.kidBytes).zip (pairs.filterMap KeyPair.keyBytes)
      ⊆ givenPairs pairs) : PartsAligned pairs := by
  induction pairs with
  | nil => trivial
  | cons p rest ih =>
    obtain ⟨hkids, hkeys, hkidsNodup, hkeysNodup⟩ := h
    by_cases hkid : Blank p.kid <;> by_cases hkey : Blank p.key
    · -- nothing is added on either side
      rw [List.filterMap_cons_none (KeyPair.kidBytes_of_blank hkid)] at hkidsNodup hsubset
      rw [List.filterMap_cons_none (KeyPair.keyBytes_of_blank hkey)] at hkeysNodup hsubset
      rw [givenPairs, List.filterMap_cons_none (KeyPair.bytes_of_blank (.inl hkid))] at hsubset
      refine .inl ⟨iff_of_true hkid hkey, ih ⟨?_, ?_, hkidsNodup, hkeysNodup⟩ hsubset⟩
      · exact fun q hq => hkids q (List.mem_cons_of_mem _ hq)
      · exact fun q hq => hkeys q (List.mem_cons_of_mem _ hq)
    · -- the key would meet an id of a later pair
      refine .inr (.inl fun q hq => ?_)
      by_contra hq'
      obtain ⟨c, hc⟩ := Option.isSome_iff_exists.1 (hkeys p List.mem_cons_self hkey)
      obtain ⟨b, hb⟩ := Option.isSome_iff_exists.1 (hkids q hq hq')
      rw [List.filterMap_cons_some hc] at hkeysNodup hsubset
      rw [givenPairs, List.filterMap_cons_none (KeyPair.bytes_of_blank (.inl hkid))] at hsubset
      obtain ⟨first, kids, hfirst⟩ := List.exists_cons_of_ne_nil
        (List.ne_nil_of_mem (List.mem_filterMap.2 ⟨q, hq, hb⟩))
      rw [hfirst, List.zip_cons_cons] at hsubset
      exact (List.nodup_cons.1 hkeysNodup).1
        (mem_filterMap_of_mem_givenPairs (hsubset List.mem_cons_self)).2
    · -- the id would meet a key of a later pair
      refine .inr (.inr fun q hq => ?_)
      by_contra hq'
      obtain ⟨b, hb⟩ := Option.isSome_iff_exists.1 (hkids p List.mem_cons_self hkid)
      obtain ⟨c, hc⟩ := Option.isSome_iff_exists.1 (hkeys q hq hq')
      rw [List.filterMap_cons_some hb] at hkidsNodup hsubset
      rw [givenPairs, List.filterMap_cons_none (KeyPair.bytes_of_blank (.inr hkey))] at hsubset
      obtain ⟨first, keys, hfirst⟩ := List.exists_cons_of_ne_nil
        (List.ne_nil_of_mem (List.mem_filterMap.2 ⟨q, hq, hc⟩))
      rw [hfirst, List.zip_cons_cons] at hsubset
      exact (List.nodup_cons.1 hkidsNodup).1
        (mem_filterMap_of_mem_givenPairs (hsubset List.mem_cons_self)).1
    · obtain ⟨b, hb⟩ := Option.isSome_iff_exists.1 (hkids p List.mem_cons_self hkid)
      obtain ⟨c, hc⟩ := Option.isSome_iff_exists.1 (hkeys p List.mem_cons_self hkey)
      have hbytes : p.bytes = some (b, c) := by
        rw [KeyPair.bytes, hb, hc]
        rfl
      rw [List.filterMap_cons_some hb] at hkidsNodup hsubset
      rw [List.filterMap_cons_some hc] at hkeysNodup hsubset
      rw [givenPairs, List.filterMap_cons_some hbytes, List.zip_cons_cons] at hsubset
      obtain ⟨hfresh, hkidsNodup⟩ := List.nodup_cons.1 hkidsNodup
      refine .inl ⟨iff_of_false hkid hkey, ih ⟨?_, ?_, hkidsNodup,
        (List.nodup_cons.1 hkeysNodup).2⟩ fun e he => ?_⟩
      · exact fun q hq => hkids q (List.mem_cons_of_mem _ hq)
      · exact fun q hq => hkeys q (List.mem_cons_of_mem _ hq)
      · -- a later id is not `b`
        refine (List.mem_cons.1 (hsubset (List.mem_cons_of_mem _ he))).resolve_left ?_
        rintro rfl
        exact hfresh (List.of_mem_zip he).1

/-- Where the parts can be told apart, a shift that is harmless is none. -/
theorem aligned_of_shifted {pairs : List KeyPair} (h : PartsDistinct pairs)
    (hharmless : ShiftHarmless pairs) : PartsAligned pairs := by
  refine aligned_of_zip_subset h fun e he => ?_
  rw [← h.shifted_eq_zip] at he
  have hone : OneKeyEach (shifted pairs) := by
    rw [h.shifted_eq_zip]
    exact oneKeyEach_zip h.kids_nodup _
  have hlast : lastKey e.1 (shifted pairs) = some e.2 :=
    (lookup_iff_mem.2 ⟨hone, fun _ => rfl⟩ e.1 e.2).2 he
  exact mem_of_lastKey ((hharmless e.1).symm.trans hlast)

/-- The keys of a `key` parameter stay with their ids exactly when no id has two keys, the pairs that
meet agree with those that were given, and the fallbacks miss the ids without a key. The second
holds where the parts are aligned, and only there if all parts can be told apart. -/
theorem keysStayPaired_iff (proxyData : ProxyData) {query : Str → Option Str} (apiPassword : Str)
    (remuxToTs : Bool) (hkeyId : ∀ v ∈ query "key_id".toList, v = []) {pairs : List KeyPair}
    (hkey : query "key".toList = some (keyParam pairs)) :
    (KeysStayPaired pairs (buildProxyParams proxyData query apiPassword remuxToTs).keyMap
        ↔ OneKeyEach (givenPairs pairs) ∧ ShiftHarmless pairs ∧ FallbacksMiss pairs)
      ∧ (PartsAligned pairs → ShiftHarmless pairs)
      ∧ (PartsDistinct pairs → ShiftHarmless pairs → PartsAligned pairs) := by
  refine ⟨?_, fun h kid => by rw [shifted_of_aligned h], aligned_of_shifted⟩
  rw [keyMap_buildProxyParams proxyData apiPassword remuxToTs hkeyId hkey]
  have hholds := @lookup_iff_mem
    ((shifted pairs).foldl (fun m p => m.insert p.1 p.2) (∅ : KeyMap)).lookup (givenPairs pairs)
  simp only [lookup_keyMap] at hholds
  constructor
  · rintro ⟨holds, tracks⟩
    obtain ⟨hone, hharmless⟩ := hholds.1 fun kid key => by rw [← lookup_keyMap, holds]
    exact ⟨hone, hharmless, (tracks_iff_fallbacksMiss holds).1 tracks⟩
  · rintro ⟨hone, hharmless, hmiss⟩
    have holds : ∀ kid key, ((shifted pairs).foldl (fun m p => m.insert p.1 p.2)
        (∅ : KeyMap)).lookup kid = some key ↔ (kid, key) ∈ givenPairs pairs := by
      intro kid key
      rw [lookup_keyMap, hholds.2 ⟨hone, hharmless⟩]
    exact ⟨holds, (tracks_iff_fallbacksMiss holds).2 hmiss⟩

/-! ### Two lists -/

/-- A query with the `key` parameter for these pairs. -/
def keyQuery (pairs : List KeyPair) (name : Str) : Option Str :=
  if name = "key".toList then some (keyParam pairs) else none

/-- Nothing but a destination. -/
def bareProxyData : ProxyData := ⟨[], none, none, none, none, none⟩

/-- Two ids with their keys. -/
def pairedKeys : List KeyPair :=
  [⟨"aa".toList, "22".toList, by decide, by decide, by decide⟩,
    ⟨"bb".toList, "33".toList, by decide, by decide, by decide⟩]

/-- A key without an id, and an id with its key. -/
def orphanedKeys : List KeyPair :=
  [⟨[], "11".toList, by decide, by decide, by decide⟩,
    ⟨"aa".toList, "22".toList, by decide, by decide, by decide⟩]

theorem givenPairs_pairedKeys : givenPairs pairedKeys = [([0xaa], [0x22]), ([0xbb], [0x33])] := by
  decide

/-- Two ids keep their keys. -/
theorem keysStayPaired_twoKeys :
    KeysStayPaired pairedKeys
      (buildProxyParams bareProxyData (keyQuery pairedKeys) [] false).keyMap := by
  have h := @keysStayPaired_iff bareProxyData (keyQuery pairedKeys) [] false
    (fun _ hv => absurd hv (Option.not_mem_none _)) pairedKeys rfl
  refine h.1.2 ⟨?_, h.2.1 (.inl ⟨by decide, .inl ⟨by decide, trivial⟩⟩), ?_⟩
  · intro kid key key' hk hk'
    rw [givenPairs_pairedKeys] at hk hk'
    simp only [List.mem_cons, Prod.mk.injEq, List.not_mem_nil, or_false] at hk hk'
    grind
  · intro p hp kid hkid hkeyless
    rw [givenPairs_pairedKeys] at hkeyless
    simp only [pairedKeys, List.mem_cons, List.not_mem_nil, or_false] at hp
    rcases hp with rfl | rfl
    · obtain rfl := Option.some.inj (hkid.symm.trans (show _ = some [0xaa] by decide))
      exact absurd List.mem_cons_self (hkeyless [0x22])
    · obtain rfl := Option.some.inj (hkid.symm.trans (show _ = some [0xbb] by decide))
      exact absurd (List.mem_cons_of_mem _ List.mem_cons_self) (hkeyless [0x33])

/-- A key without an id goes to the next id. -/
theorem not_keysStayPaired :
    ¬ ∀ (proxyData : ProxyData) (query : Str → Option Str) (apiPassword : Str) (remuxToTs : Bool)
        (pairs : List KeyPair), (∀ v ∈ query "key_id".toList, v = []) →
      query "key".toList = some (keyParam pairs) →
        KeysStayPaired pairs (buildProxyParams proxyData query apiPassword remuxToTs).keyMap := by
  intro h
  have hpaired := h bareProxyData (keyQuery orphanedKeys) [] false orphanedKeys
    (fun _ hv => absurd hv (Option.not_mem_none _)) rfl
  rw [keyMap_buildProxyParams bareProxyData [] false
    (fun _ hv => absurd hv (Option.not_mem_none _)) rfl] at hpaired
  have hmem : ([0xaa], [0x11]) ∈ givenPairs orphanedKeys :=
    (hpaired.holds [0xaa] [0x11]).1 (by rw [lookup_keyMap]; decide)
  exact absurd hmem (by decide)

end MediaFlow
