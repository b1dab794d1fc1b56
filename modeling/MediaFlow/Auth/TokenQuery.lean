import MediaFlow.Auth.Middleware

/-!
# From a token to the handler

What a handler reads of a request with a token: the middleware writes the members of the payload and
what is left of the query string into a new query string, values percent-encoded and names as they
are, and the handler reads that as a form, the last pair of a name winning.

* `formPairs_build`: the pairs that are read;
* `plain_of_intact`: names that come through unharmed are plain, since names only get shorter;
* `intact_iff`: when a payload and the rest of the query reach the handler intact.
-/

open Text Json UrlCoding

namespace MediaFlow

/-- The names of the parameters of a payload. -/
def payloadNames (pd : ProxyData) : List Str := (payloadPairs pd).map Prod.fst

/-- A payload whose objects name each member once, and whose query parameters have no name that
belongs to the destination or to a header. -/
structure ProxyData.Keyed (pd : ProxyData) : Prop where
  queryParams : ((stringMembers pd.queryParams).map Prod.fst).Nodup
  requestHeaders : ((stringMembers pd.requestHeaders).map Prod.fst).Nodup
  responseHeaders : ((stringMembers pd.responseHeaders).map Prod.fst).Nodup
  reserved : ∀ {k v : Str}, (k, v) ∈ stringMembers pd.queryParams →
    k ≠ "d".toList ∧ ¬ "h_".toList <+: k ∧ ¬ "r_".toList <+: k

section Web

variable (web : WebCrates)

/-- What a handler reads under a name. -/
def handlerValue (pd : ProxyData) (qs key : Str) : Option Str :=
  lastValue key (web.formPairs (buildQueryFromProxyData web pd qs))

/-- Payload and query reach the handler intact: every member has its value, and so has every other
parameter of the query. -/
structure Intact (pd : ProxyData) (qs : Str) : Prop where
  destination : pd.destination ≠ [] → handlerValue web pd qs "d".toList = some pd.destination
  queryParams : ∀ {k v : Str}, (k, v) ∈ stringMembers pd.queryParams →
    handlerValue web pd qs k = some v
  requestHeaders : ∀ {k v : Str}, (k, v) ∈ stringMembers pd.requestHeaders →
    handlerValue web pd qs ("h_".toList ++ k) = some v
  responseHeaders : ∀ {k v : Str}, (k, v) ∈ stringMembers pd.responseHeaders →
    handlerValue web pd qs ("r_".toList ++ k) = some v
  others : ∀ {k v : Str}, k ≠ "token".toList → k ≠ "api_password".toList →
    k ∉ payloadNames pd → lastValue k (web.formPairs qs) = some v →
    handlerValue web pd qs k = some v

/-- A name that needs no encoding. -/
structure PlainName (name : Str) : Prop where
  amp : '&' ∉ name
  eq : '=' ∉ name
  decoded : formDecode name = name

/-- A segment of a query whose value both decoders read alike. -/
def ReadsAlike (segment : Str) : Prop :=
  ∃ k v, splitOnce '=' segment = some (k, v) ∧ urldecodeOr web v = formDecode v

/-- The last of some segments that has a name and a value. -/
def lastWithValue (key : Str) (segments : List Str) : Option Str :=
  (segments.filter fun s => (splitOnce '=' s).any fun kv => formDecode kv.1 = key).getLast?

/-- The value of a name is kept: the last segment of this name reads alike; or it has no value, and
the last one that has a value has the empty one. -/
def KeepsValue (key : Str) (segments : List Str) : Prop :=
  ∀ s, (segments.filter fun s => (formPair s).1 = key).getLast? = some s →
    ReadsAlike web s ∨ splitOnce '=' s = none ∧ ∃ s' k v, lastWithValue key segments = some s' ∧
      splitOnce '=' s' = some (k, v) ∧ urldecodeOr web v = []

end Web

/-- The segments of a query string that a form reads. -/
def formSegments (qs : Str) : List Str := (qs.splitOn '&').filter (· ≠ [])

/-! ### What is read -/

variable {web : WebCrates}

/-- How a kept segment is read again. -/
def reread (web : WebCrates) (segment : Str) : Option (Str × Str) :=
  (splitOnce '=' segment).map fun kv => (formDecode kv.1, urldecodeOr web kv.2)

theorem buildQuery_eq (hweb : web.CodesUrls) (pd : ProxyData) (qs : Str) :
    web.formPairs (buildQueryFromProxyData web pd qs)
      = (keptPairs web qs).flatMap (fun p => formPairs (p.1 ++ '=' :: encode p.2))
        ++ (payloadPairs pd).flatMap (fun p => formPairs (p.1 ++ '=' :: encode p.2)) := by
  unfold buildQueryFromProxyData
  rw [hweb.formPairs, formPairs_join, List.flatMap_map, List.flatMap_append]
  simp only [queryPair, hweb.urlencode]

/-- The name of a kept parameter is a name of the query string as it was written. -/
theorem mem_keptPairs {qs : Str} {p : Str × Str} (h : p ∈ keptPairs web qs) :
    '&' ∉ p.1 ∧ '=' ∉ p.1 := by
  unfold keptPairs at h
  split at h
  · cases h
  obtain ⟨segment, hmem, hp⟩ := List.mem_filterMap.mp h
  have hamp := not_mem_of_mem_splitOn hmem
  cases hsplit : splitOnce '=' segment with
  | none =>
    rw [hsplit] at hp
    cases hp
  | some kv =>
    obtain ⟨k, v⟩ := kv
    simp only [hsplit] at hp
    split at hp
    · obtain rfl := Option.some.inj hp
      obtain ⟨rfl, heq⟩ := splitOnce_eq_some_iff.mp hsplit
      exact ⟨fun hk => hamp (List.mem_append_left _ hk), heq⟩
    · cases hp

/-- The kept parameters are read under the names that a form reads. -/
theorem kept_flatMap (qs : Str) :
    (keptPairs web qs).flatMap (fun p => formPairs (p.1 ++ '=' :: encode p.2))
      = (keptPairs web qs).map fun p => (formDecode p.1, p.2) := by
  rw [List.map_eq_flatMap]
  refine List.flatMap_congr fun p hp => ?_
  obtain ⟨hamp, heq⟩ := mem_keptPairs hp
  exact formPairs_encoded hamp heq p.2

/-- The value of a pair, if it has the name. -/
def valueFor (key : Str) (p : Str × Str) : Option Str := if p.1 = key then some p.2 else none

theorem lastValue_eq_getLast? (key : Str) (pairs : List (Str × Str)) :
    lastValue key pairs = (pairs.filterMap (valueFor key)).getLast? := by
  induction pairs using List.reverseRecOn with
  | nil => rfl
  | append_singleton pairs p ih =>
    rw [lastValue_append, List.filterMap_append, List.getLast?_append, ih]
    congr 1
    show lastValue key [p] = ([p].filterMap (valueFor key)).getLast?
    obtain ⟨k, v⟩ := p
    unfold lastValue valueFor
    by_cases hk : k = key
    · simp [hk]
    · simp [hk, beq_false_of_ne (Ne.symm hk)]

/-- Other names than those of the token and the password are kept. -/
theorem lastValue_kept {key : Str} (htoken : key ≠ "token".toList)
    (hpassword : key ≠ "api_password".toList) (qs : Str) :
    lastValue key ((keptPairs web qs).map fun p => (formDecode p.1, p.2))
      = lastValue key ((formSegments qs).filterMap (reread web)) := by
  -- a segment gives this name the same value in both
  have hsegment : ∀ s : Str,
      (((splitOnce '=' s).bind fun p =>
          if p.1 ≠ "token".toList ∧ p.1 ≠ "api_password".toList then
            some (p.1, urldecodeOr web p.2)
          else none).map fun p : Str × Str => (formDecode p.1, p.2)).bind (valueFor key)
        = (reread web s).bind (valueFor key) := by
    intro s
    unfold reread
    cases splitOnce '=' s with
    | none => rfl
    | some kv =>
      obtain ⟨k, v⟩ := kv
      show ((if k ≠ "token".toList ∧ k ≠ "api_password".toList then _ else _ : Option _).map
        _).bind _ = _
      by_cases hk : k ≠ "token".toList ∧ k ≠ "api_password".toList
      · rw [if_pos hk]
        rfl
      · rw [if_neg hk]
        have hname : formDecode k ≠ key := by
          rcases Classical.not_and_iff_not_or_not.mp hk with h | h
          · rw [not_not.mp h]
            exact fun heq => htoken (heq.symm.trans (by decide +kernel))
          · rw [not_not.mp h]
            exact fun heq => hpassword (heq.symm.trans (by decide +kernel))
        exact (if_neg hname).symm
  -- the empty segments have no pair
  have hempty : ∀ l : List Str, (l.filter (· ≠ [])).filterMap (reread web)
      = l.filterMap (reread web) := by
    intro l
    induction l with
    | nil => rfl
    | cons s l ih =>
      by_cases hs : s = []
      · rw [List.filter_cons_of_neg (by simpa using hs), ih, hs]
        rfl
      · rw [List.filter_cons_of_pos (by simpa using hs), List.filterMap_cons, List.filterMap_cons,
          ih]
  have hkept : keptPairs web qs = (qs.splitOn '&').filterMap fun segment =>
      (splitOnce '=' segment).bind fun p =>
        if p.1 ≠ "token".toList ∧ p.1 ≠ "api_password".toList then some (p.1, urldecodeOr web p.2)
        else none := by
    unfold keptPairs
    by_cases h : qs = []
    · rw [if_pos h, h]
      rfl
    · rw [if_neg h]
      refine List.filterMap_congr fun segment _ => ?_
      cases splitOnce '=' segment <;> rfl
  rw [formSegments, hempty, hkept, lastValue_eq_getLast?, lastValue_eq_getLast?, List.map_filterMap,
    List.filterMap_filterMap, List.filterMap_filterMap]
  exact congrArg List.getLast? (List.filterMap_congr fun s _ => hsegment s)

/-! ### The other parameters -/

theorem splitOnce_formPair {s k v : Str} (h : splitOnce '=' s = some (k, v)) :
    formPair s = (formDecode k, formDecode v) := by
  rw [formPair, h]

/-- The last segment with a value is where the reader of the kept pairs looks. -/
theorem lastValue_reread (key : Str) (segments : List Str) :
    lastValue key (segments.filterMap (reread web)) = (lastWithValue key segments).bind fun s =>
      (splitOnce '=' s).map fun kv => urldecodeOr web kv.2 := by
  induction segments using List.reverseRecOn with
  | nil => rfl
  | append_singleton segments s ih =>
    unfold lastWithValue at ih ⊢
    rw [List.filterMap_append, lastValue_append, ih, List.filter_append, List.getLast?_append]
    cases hsplit : splitOnce '=' s with
    | none => simp [reread, hsplit, lastValue]
    | some kv =>
      by_cases hk : formDecode kv.1 = key
      · simp [reread, hsplit, hk, lastValue]
      · simp [reread, hsplit, hk, lastValue, beq_false_of_ne (Ne.symm hk)]

section LastSegment

variable {key s : Str} {segments : List Str}

/-- A segment of another name changes nothing for a form. -/
theorem lastValue_forms_of_ne (h : (formPair s).1 ≠ key) :
    lastValue key ((segments ++ [s]).map formPair) = lastValue key (segments.map formPair) := by
  have hlast : lastValue key ([s].map formPair) = none := by
    rw [lastValue_eq_getLast?]
    simp [valueFor, h]
  rw [List.map_append, lastValue_append, hlast, Option.none_or]

theorem lastValue_forms_of_eq (h : (formPair s).1 = key) :
    lastValue key ((segments ++ [s]).map formPair) = some (formPair s).2 := by
  have hlast : lastValue key ([s].map formPair) = some (formPair s).2 := by
    rw [lastValue_eq_getLast?]
    simp [valueFor, h]
  rw [List.map_append, lastValue_append, hlast, Option.some_or]

/-- A segment of another name changes nothing for the reader of the kept pairs. -/
theorem lastWithValue_of_ne (h : (formPair s).1 ≠ key) :
    lastWithValue key (segments ++ [s]) = lastWithValue key segments := by
  unfold lastWithValue
  cases hsplit : splitOnce '=' s with
  | none => simp [hsplit]
  | some kv =>
    rw [splitOnce_formPair hsplit] at h
    simp [hsplit, h]

theorem lastWithValue_of_split {k v : Str} (hsplit : splitOnce '=' s = some (k, v))
    (hk : formDecode k = key) : lastWithValue key (segments ++ [s]) = some s := by
  unfold lastWithValue
  simp [hsplit, hk]

theorem keepsValue_of_ne (h : (formPair s).1 ≠ key) :
    KeepsValue web key (segments ++ [s]) ↔ KeepsValue web key segments := by
  unfold KeepsValue
  rw [List.filter_append, lastWithValue_of_ne h]
  simp [h]

/-- The last segment decides when it has the name. -/
theorem keepsValue_of_eq (h : (formPair s).1 = key) :
    KeepsValue web key (segments ++ [s]) ↔
      ReadsAlike web s ∨ splitOnce '=' s = none ∧ ∃ s' k v,
        lastWithValue key (segments ++ [s]) = some s' ∧
          splitOnce '=' s' = some (k, v) ∧ urldecodeOr web v = [] := by
  have hlast : ((segments ++ [s]).filter fun s => (formPair s).1 = key).getLast? = some s := by
    rw [List.filter_append]
    simp [h]
  unfold KeepsValue
  rw [hlast]
  exact ⟨fun hkeeps => hkeeps s rfl, fun hkeeps _ hs => Option.some.inj hs ▸ hkeeps⟩

end LastSegment

/-- **The other parameters**: the reader of the kept pairs finds the value of a name if and only if
the value is kept. -/
theorem keepsValue_iff (key : Str) (segments : List Str) :
    KeepsValue web key segments ↔
      ∀ v, lastValue key (segments.map formPair) = some v →
        lastValue key (segments.filterMap (reread web)) = some v := by
  induction segments using List.reverseRecOn with
  | nil =>
    exact ⟨(fun _ _ h => nomatch h), (fun _ _ h => nomatch h)⟩
  | append_singleton segments s ih =>
    by_cases hname : (formPair s).1 = key
    · rw [keepsValue_of_eq hname, lastValue_forms_of_eq hname, lastValue_reread]
      have hsome : ∀ found : Option Str,
          (∀ v, some (formPair s).2 = some v → found = some v) ↔ found = some (formPair s).2 :=
        fun found => ⟨fun h => h _ rfl, fun h v hv => hv ▸ h⟩
      rw [hsome]
      cases hsplit : splitOnce '=' s with
      | some kv =>
        obtain ⟨k, v⟩ := kv
        rw [splitOnce_formPair hsplit] at hname ⊢
        rw [lastWithValue_of_split hsplit hname, Option.bind_some, hsplit, Option.map_some]
        constructor
        · rintro (⟨k', v', hsplit', halike⟩ | ⟨hnone, -⟩)
          · obtain ⟨-, rfl⟩ := Prod.mk.inj (Option.some.inj (hsplit.symm.trans hsplit'))
            exact congrArg some halike
          · cases hnone
        · exact fun halike => .inl ⟨k, v, hsplit, Option.some.inj halike⟩
      | none =>
        -- the segment has no value, so a form reads the empty one
        rw [formPair, hsplit]
        constructor
        · rintro (⟨k, v, hsplit', -⟩ | ⟨-, s', k, v, hlast, hsplit', hempty⟩)
          · cases hsplit.symm.trans hsplit'
          · rw [hlast, Option.bind_some, hsplit', Option.map_some, hempty]
        · intro hread
          obtain ⟨s', hlast, hread⟩ := Option.bind_eq_some_iff.mp hread
          obtain ⟨kv, hkv, hread⟩ := Option.map_eq_some_iff.mp hread
          exact .inr ⟨rfl, s', kv.1, kv.2, hlast, hkv, hread⟩
    · rw [keepsValue_of_ne hname, lastValue_forms_of_ne hname, lastValue_reread,
        lastWithValue_of_ne hname, ← lastValue_reread, ih]

/-! ### The names of a payload -/

theorem PlainName.segment {name : Str} (h : PlainName name) (v : Str) :
    formPairs (name ++ '=' :: encode v) = [(name, v)] := by
  rw [formPairs_encoded h.amp h.eq, h.decoded]

/-- **Names only get shorter**, so when each name of a payload is read from a name of the payload,
all of them are plain: the longest one that is not can only be read from itself. -/
theorem plain_of_covered {names : List Str}
    (h : ∀ name ∈ names, ∃ other ∈ names, ∃ v, ∃ p ∈ formPairs (other ++ '=' :: encode v),
      p.1 = name) {name : Str} (hname : name ∈ names) : PlainName name := by
  by_contra hnot
  -- a longest name that is not plain
  obtain ⟨k, ⟨hk, hplain⟩, hmax⟩ : ∃ k, (k ∈ names ∧ ¬ PlainName k) ∧
      ∀ k', k' ∈ names ∧ ¬ PlainName k' → k'.length ≤ k.length := by
    classical
    have hne : (names.toFinset.filter fun k => ¬ PlainName k).Nonempty :=
      ⟨name, Finset.mem_filter.mpr ⟨List.mem_toFinset.mpr hname, hnot⟩⟩
    obtain ⟨k, hk, hmax⟩ := Finset.exists_max_image _ List.length hne
    obtain ⟨hmem, hp⟩ := Finset.mem_filter.mp hk
    refine ⟨k, ⟨List.mem_toFinset.mp hmem, hp⟩, fun k' hk' => hmax k' ?_⟩
    exact Finset.mem_filter.mpr ⟨List.mem_toFinset.mpr hk'.1, hk'.2⟩
  obtain ⟨other, hother, v, p, hp, rfl⟩ := h k hk
  obtain ⟨hle, heq⟩ := length_of_mem_segment hp
  by_cases hpo : PlainName other
  · rw [hpo.segment, List.mem_singleton] at hp
    rw [hp] at hplain
    exact hplain hpo
  -- the name that it is read from is as long
  have hlen : p.1.length = other.length := le_antisymm hle (hmax other ⟨hother, hpo⟩)
  obtain ⟨hamp, hequals, hread⟩ := heq hlen
  have hspaces : p.1 = other.map plusToSpace := by
    rw [hread]
    exact (length_formDecode other).2 (by rw [← hread, hlen])
  have hnotmem : ∀ c : Char, c ≠ ' ' → c ∉ other → c ∉ other.map plusToSpace := by
    intro c hspace hmem hmap
    obtain ⟨d, hd, hdc⟩ := List.mem_map.mp hmap
    unfold plusToSpace at hdc
    split at hdc
    · exact hspace hdc.symm
    · exact hmem (hdc ▸ hd)
  refine hplain ⟨?_, ?_, ?_⟩
  · rw [hspaces]
    exact hnotmem '&' (by decide) hamp
  · rw [hspaces]
    exact hnotmem '=' (by decide) hequals
  · -- spaces are read once and for all
    have htwice : (other.map plusToSpace).map plusToSpace = other.map plusToSpace := by
      rw [List.map_map]
      refine List.map_congr_left fun c _ => ?_
      show plusToSpace (plusToSpace c) = plusToSpace c
      unfold plusToSpace
      by_cases hc : c = '+'
      · rw [if_pos hc, if_neg (by decide)]
      · rw [if_neg hc, if_neg hc]
    calc formDecode p.1 = formDecode (other.map plusToSpace) := by rw [hspaces]
      _ = formDecode other := by unfold formDecode; rw [htwice]
      _ = p.1 := hread.symm

/-- The names of a payload are different from each other. -/
theorem payloadNames_nodup {pd : ProxyData} (h : pd.Keyed) : (payloadNames pd).Nodup := by
  have hheader : ∀ (start : Str) (members : List (Str × Str)),
      (members.map fun kv => (start ++ kv.1, kv.2)).map Prod.fst
        = (members.map Prod.fst).map (start ++ ·) := by
    intro start members
    rw [List.map_map, List.map_map]
    rfl
  have hinj : ∀ start : Str, Function.Injective (start ++ ·) := fun start _ _ h =>
    List.append_cancel_left h
  have hstarts : ∀ {start k : Str} {members : List (Str × Str)},
      k ∈ (members.map Prod.fst).map (start ++ ·) → start <+: k := by
    intro start k members hk
    obtain ⟨x, -, rfl⟩ := List.mem_map.mp hk
    exact List.prefix_append _ _
  -- a name that begins like one header cannot begin like another
  have hapart : ∀ {k : Str}, "h_".toList <+: k → ¬ "r_".toList <+: k := by
    rintro _ ⟨a, rfl⟩ ⟨b, hb⟩
    cases hb
  have hdest : ∀ {k : Str}, k ∈ (if pd.destination = [] then []
      else [("d".toList, pd.destination)]).map Prod.fst → k = "d".toList := by
    intro k hk
    split at hk
    · cases hk
    · exact List.mem_singleton.mp hk
  have hreserved : ∀ {k : Str}, k ∈ (stringMembers pd.queryParams).map Prod.fst →
      k ≠ "d".toList ∧ ¬ "h_".toList <+: k ∧ ¬ "r_".toList <+: k := by
    intro k hk
    obtain ⟨⟨k, v⟩, hmem, rfl⟩ := List.mem_map.mp hk
    exact h.reserved hmem
  unfold payloadNames payloadPairs
  rw [List.map_append, List.map_append, List.map_append, hheader, hheader]
  refine List.Nodup.append (List.Nodup.append (List.Nodup.append ?_ h.queryParams ?_)
    (h.requestHeaders.map (hinj _)) ?_) (h.responseHeaders.map (hinj _)) ?_
  · split
    · exact List.nodup_nil
    · exact List.nodup_singleton _
  · -- the destination and a query parameter
    intro k hd hq
    exact (hreserved hq).1 (hdest hd)
  · -- these and a request header
    intro k hdq hh
    rcases List.mem_append.mp hdq with hd | hq
    · rw [hdest hd] at hh
      exact absurd (hstarts hh) (by decide)
    · exact (hreserved hq).2.1 (hstarts hh)
  · -- these and a response header
    intro k hdqh hr
    rcases List.mem_append.mp hdqh with hdq | hh
    · rcases List.mem_append.mp hdq with hd | hq
      · rw [hdest hd] at hr
        exact absurd (hstarts hr) (by decide)
      · exact (hreserved hq).2.2 (hstarts hr)
    · exact hapart (hstarts hh) (hstarts hr)

/-! ### When payload and query come through -/

/-- The names of the payload are plain, and the value of each other name of the query is kept. -/
structure ComesThrough (web : WebCrates) (pd : ProxyData) (qs : Str) : Prop where
  names : ∀ name ∈ payloadNames pd, PlainName name
  others : ∀ {key : Str}, key ≠ "token".toList → key ≠ "api_password".toList →
    key ∉ payloadNames pd → KeepsValue web key (formSegments qs)

theorem intact_members {pd : ProxyData} {qs : Str} (h : Intact web pd qs) {k v : Str}
    (hmem : (k, v) ∈ payloadPairs pd) : handlerValue web pd qs k = some v := by
  unfold payloadPairs at hmem
  rcases List.mem_append.mp hmem with hmem | hmem
  · rcases List.mem_append.mp hmem with hmem | hmem
    · rcases List.mem_append.mp hmem with hmem | hmem
      · split at hmem
        · cases hmem
        · next hne =>
          cases List.mem_singleton.mp hmem
          exact h.destination hne
      · exact h.queryParams hmem
    · obtain ⟨kv, hkv, heq⟩ := List.mem_map.mp hmem
      cases heq
      exact h.requestHeaders hkv
  · obtain ⟨kv, hkv, heq⟩ := List.mem_map.mp hmem
    cases heq
    exact h.responseHeaders hkv

/-- With plain names, a handler finds the members of the payload, and after them what is kept. -/
theorem handlerValue_of_plain (hweb : web.CodesUrls) {pd : ProxyData}
    (hplain : ∀ name ∈ payloadNames pd, PlainName name) (qs key : Str) :
    handlerValue web pd qs key = (lastValue key (payloadPairs pd)).or
      (lastValue key ((keptPairs web qs).map fun p => (formDecode p.1, p.2))) := by
  have hpayload : (payloadPairs pd).flatMap (fun p => formPairs (p.1 ++ '=' :: encode p.2))
      = payloadPairs pd := by
    calc (payloadPairs pd).flatMap (fun p => formPairs (p.1 ++ '=' :: encode p.2))
        = (payloadPairs pd).flatMap (fun p => [p]) := by
          refine List.flatMap_congr fun p hp => ?_
          exact (hplain p.1 (List.mem_map_of_mem hp)).segment p.2
      _ = payloadPairs pd := List.flatMap_singleton' _
  unfold handlerValue
  rw [buildQuery_eq hweb, kept_flatMap, hpayload, lastValue_append]

/-- What is kept has a name of the query string. -/
theorem exists_formPair_of_kept {qs : Str} {p : Str × Str} (h : p ∈ keptPairs web qs) :
    ∃ q ∈ formPairs qs, q.1 = formDecode p.1 := by
  unfold keptPairs at h
  split at h
  · cases h
  obtain ⟨segment, hmem, hp⟩ := List.mem_filterMap.mp h
  cases hsplit : splitOnce '=' segment with
  | none =>
    rw [hsplit] at hp
    cases hp
  | some kv =>
    obtain ⟨k, v⟩ := kv
    simp only [hsplit] at hp
    split at hp
    · obtain rfl := Option.some.inj hp
      have hne : segment ≠ [] := by
        rintro rfl
        cases hsplit
      refine ⟨formPair segment, List.mem_map_of_mem (List.mem_filter.mpr ⟨hmem, by simpa⟩), ?_⟩
      rw [splitOnce_formPair hsplit]
    · cases hp

/-- **When a payload and the rest of a query reach the handler intact**: when the names of the payload
are plain, and the value of each other name is kept. That is needed too, unless the query names a
member of the payload itself. -/
theorem intact_iff (hweb : web.CodesUrls) {pd : ProxyData} (hkeyed : pd.Keyed) (qs : Str) :
    (ComesThrough web pd qs → Intact web pd qs) ∧
      ((∀ p ∈ web.formPairs qs, p.1 ∉ payloadNames pd) →
        Intact web pd qs → ComesThrough web pd qs) := by
  have hforms : web.formPairs qs = (formSegments qs).map formPair := by
    rw [hweb.formPairs]
    rfl
  constructor
  · rintro ⟨hplain, hothers⟩
    have hvalue := handlerValue_of_plain hweb hplain qs
    have hmember : ∀ {k v : Str}, (k, v) ∈ payloadPairs pd → handlerValue web pd qs k = some v := by
      intro k v hmem
      rw [hvalue, lastValue_of_mem (payloadNames_nodup hkeyed) hmem]
      rfl
    refine ⟨fun hne => hmember ?_, fun hmem => hmember ?_, fun hmem => hmember ?_,
      fun hmem => hmember ?_, ?_⟩
    · simp [payloadPairs, hne]
    · simp [payloadPairs, hmem]
    · simp [payloadPairs, hmem]
    · simp [payloadPairs, hmem]
    · intro k v htoken hpassword hnot hread
      have hnone : lastValue k (payloadPairs pd) = none :=
        lastValue_eq_none_iff.mpr fun p hp heq => hnot (heq ▸ List.mem_map_of_mem hp)
      rw [hvalue, hnone, Option.none_or, lastValue_kept htoken hpassword]
      rw [hforms] at hread
      exact (keepsValue_iff k _).mp (hothers htoken hpassword hnot) v hread
  · intro hdisjoint hintact
    -- each name is read from a segment of the payload, for the query names none of them
    have hplain : ∀ name ∈ payloadNames pd, PlainName name := by
      intro name hname
      refine plain_of_covered (fun name hname => ?_) hname
      obtain ⟨⟨k, v⟩, hmem, rfl⟩ := List.mem_map.mp hname
      have hread := mem_of_lastValue (intact_members hintact hmem)
      rw [buildQuery_eq hweb, kept_flatMap] at hread
      rcases List.mem_append.mp hread with hkept | hread
      · obtain ⟨p, hp, heq⟩ := List.mem_map.mp hkept
        obtain ⟨q, hq, hqname⟩ := exists_formPair_of_kept hp
        rw [hweb.formPairs] at hdisjoint
        cases heq
        exact absurd (hqname ▸ hname) (hdisjoint q hq)
      · obtain ⟨other, hother, hp⟩ := List.mem_flatMap.mp hread
        exact ⟨other.1, List.mem_map_of_mem hother, other.2, (k, v), hp, rfl⟩
    refine ⟨hplain, fun {key} htoken hpassword hnot => (keepsValue_iff key _).mpr fun v hread => ?_⟩
    have hnone : lastValue key (payloadPairs pd) = none :=
      lastValue_eq_none_iff.mpr fun p hp heq => hnot (heq ▸ List.mem_map_of_mem hp)
    rw [← hforms] at hread
    have hvalue := hintact.others htoken hpassword hnot hread
    rwa [handlerValue_of_plain hweb hplain, hnone, Option.none_or,
      lastValue_kept htoken hpassword] at hvalue

/-! ### Names with an ampersand -/

/-- A payload with one query parameter and a destination. -/
def hostPayload (name : String) : ProxyData where
  destination := "http://cdn.example/?a=1&b=2".toList
  queryParams := some (.object [(name.toList, .string "1+2%".toList)])
  requestHeaders := none
  responseHeaders := none
  exp := none
  ip := none

theorem hostPayload_keyed {name : String} (h : name.toList ≠ "d".toList ∧
    ¬ "h_".toList <+: name.toList ∧ ¬ "r_".toList <+: name.toList) : (hostPayload name).Keyed where
  queryParams := List.nodup_singleton _
  requestHeaders := List.nodup_nil
  responseHeaders := List.nodup_nil
  reserved hmem := by
    cases List.mem_singleton.mp hmem
    exact h

/-- A plain name comes through, beside a parameter of the query. -/
theorem intact_host : Intact standardWeb (hostPayload "host") "lang=en%20US".toList := by
  refine (intact_iff standardWeb_codesUrls (hostPayload_keyed (by decide)) _).1 ⟨?_, ?_⟩
  · intro name hname
    have hnames : payloadNames (hostPayload "host") = ["d".toList, "host".toList] := by
      decide +kernel
    rw [hnames] at hname
    rcases List.mem_cons.mp hname with rfl | hname
    · exact ⟨by decide, by decide, by decide +kernel⟩
    · rw [List.mem_singleton.mp hname]
      exact ⟨by decide, by decide, by decide +kernel⟩
  · intro key _ _ _ s hs
    have hmem := List.mem_of_mem_filter (List.mem_of_getLast? hs)
    have hsegments : formSegments "lang=en%20US".toList = ["lang=en%20US".toList] := by
      decide +kernel
    rw [hsegments] at hmem
    rw [List.mem_singleton.mp hmem]
    exact .inl ⟨"lang".toList, "en%20US".toList, by decide +kernel, by decide +kernel⟩

/-- A name with an ampersand does not. -/
theorem ampersand_not_intact :
    ¬ ∀ (pd : ProxyData) (qs : Str), pd.Keyed → Intact standardWeb pd qs := by
  intro h
  have hintact := h (hostPayload "a&b") [] (hostPayload_keyed (by decide))
  have hread := @Intact.queryParams _ _ _ hintact "a&b".toList "1+2%".toList
    (List.mem_singleton_self _)
  revert hread
  decide +kernel

end MediaFlow
