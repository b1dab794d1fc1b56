import MediaFlow.Auth.QueryReaders

/-!
# Query strings of fields

A query string that the server writes is a list of fields, each a name and a value as they stand in
the text, joined by ampersands. Where no field contains an ampersand and no name an equals sign,
both readers find each field where it was put.
-/

open Text Json UrlCoding

namespace MediaFlow

/-- The query string of fields. -/
def joinFields (fields : List (Str × Str)) : Str :=
  ['&'].intercalate (fields.map fun f => f.1 ++ '=' :: f.2)

theorem joinFields_cons_cons (f g : Str × Str) (rest : List (Str × Str)) :
    joinFields (f :: g :: rest) = f.1 ++ '=' :: f.2 ++ '&' :: joinFields (g :: rest) := by
  unfold joinFields
  rw [List.map_cons, List.map_cons, List.intercalate_cons_cons, List.append_assoc]
  rfl

/-- Fields after the first. -/
theorem joinFields_cons (f : Str × Str) (rest : List (Str × Str)) :
    joinFields (f :: rest) = f.1 ++ '=' :: f.2 ++ rest.flatMap fun g => '&' :: (g.1 ++ '=' :: g.2) := by
  induction rest generalizing f with
  | nil => simp [joinFields, List.intercalate]
  | cons g rest ih =>
    rw [joinFields_cons_cons, ih, List.flatMap_cons]
    simp

/-- The characters of a query string. -/
theorem mem_joinFields {fields : List (Str × Str)} {c : Char} (h : c ∈ joinFields fields) :
    c = '&' ∨ c = '=' ∨ ∃ f ∈ fields, c ∈ f.1 ∨ c ∈ f.2 := by
  have hfield : ∀ f ∈ fields, c ∈ f.1 ++ '=' :: f.2 →
      c = '&' ∨ c = '=' ∨ ∃ f ∈ fields, c ∈ f.1 ∨ c ∈ f.2 := by
    intro f hf hc
    rcases List.mem_append.mp hc with hc | hc
    · exact .inr (.inr ⟨f, hf, .inl hc⟩)
    · rcases List.mem_cons.mp hc with hc | hc
      · exact .inr (.inl hc)
      · exact .inr (.inr ⟨f, hf, .inr hc⟩)
  cases fields with
  | nil => cases h
  | cons f rest =>
    rw [joinFields_cons] at h
    rcases List.mem_append.mp h with h | h
    · exact hfield f List.mem_cons_self h
    · obtain ⟨g, hg, hc⟩ := List.mem_flatMap.mp h
      rcases List.mem_cons.mp hc with hc | hc
      · exact .inl hc
      · exact hfield g (List.mem_cons_of_mem _ hg) hc

/-- Fields that stay apart. -/
structure PlainFields (fields : List (Str × Str)) : Prop where
  names : ∀ f ∈ fields, '&' ∉ f.1 ∧ '=' ∉ f.1
  values : ∀ f ∈ fields, '&' ∉ f.2

namespace PlainFields

variable {web : WebCrates} {fields : List (Str × Str)}

theorem mono (h : PlainFields fields) {some : List (Str × Str)} (hsome : ∀ f ∈ some, f ∈ fields) :
    PlainFields some :=
  ⟨fun f hf => h.names f (hsome f hf), fun f hf => h.values f (hsome f hf)⟩

theorem splitOn (h : PlainFields fields) (hne : fields ≠ []) :
    (joinFields fields).splitOn '&' = fields.map fun f => f.1 ++ '=' :: f.2 := by
  unfold joinFields
  refine List.splitOn_intercalate '&' ?_ (by simpa using hne)
  intro segment hsegment
  obtain ⟨f, hf, rfl⟩ := List.mem_map.mp hsegment
  intro hamp
  rcases List.mem_append.mp hamp with hamp | hamp
  · exact (h.names f hf).1 hamp
  · rcases List.mem_cons.mp hamp with hamp | hamp
    · cases hamp
    · exact h.values f hf hamp

/-- **A form reads the fields.** -/
theorem formPairs (h : PlainFields fields) :
    UrlCoding.formPairs (joinFields fields) =
      fields.map fun f => (formDecode f.1, formDecode f.2) := by
  by_cases hne : fields = []
  · rw [hne]
    rfl
  have hfilter : (fields.map fun f => f.1 ++ '=' :: f.2).filter (· ≠ []) =
      fields.map fun f => f.1 ++ '=' :: f.2 := by
    refine List.filter_eq_self.mpr fun segment hsegment => ?_
    obtain ⟨f, -, rfl⟩ := List.mem_map.mp hsegment
    simp
  rw [UrlCoding.formPairs, h.splitOn hne, hfilter, List.map_map]
  refine List.map_congr_left fun f hf => ?_
  show formPair (f.1 ++ '=' :: f.2) = _
  rw [formPair, splitOnce_of_not_mem (h.names f hf).2]

/-- What the middleware takes from a field. -/
theorem taken_eq (h : PlainFields fields) {f : Str × Str} (hf : f ∈ fields) (key : Str) :
    taken web key (f.1 ++ '=' :: f.2) =
      if f.1 = key ∧ f.2 ≠ [] then some (urldecodeOr web f.2) else none := by
  rw [taken, splitOnce_of_not_mem (h.names f hf).2]

/-- What the middleware takes for a name is in a field of that name. -/
theorem mem_of_takenValue (h : PlainFields fields) {key v : Str}
    (hv : takenValue web (joinFields fields) key = some v) :
    ∃ f ∈ fields, f.1 = key ∧ f.2 ≠ [] ∧ urldecodeOr web f.2 = v := by
  by_cases hne : fields = []
  · rw [hne] at hv
    cases hv
  unfold takenValue at hv
  rw [h.splitOn hne] at hv
  obtain ⟨segment, hsegment, htaken⟩ := List.mem_filterMap.mp (List.mem_of_getLast? hv)
  obtain ⟨f, hf, rfl⟩ := List.mem_map.mp hsegment
  rw [h.taken_eq hf] at htaken
  split at htaken
  · next hname => exact ⟨f, hf, hname.1, hname.2, Option.some.inj htaken⟩
  · cases htaken

/-- Where the middleware takes nothing for a name, fields of that name are empty. -/
theorem value_eq_nil_of_takenValue (h : PlainFields fields) {f : Str × Str} (hf : f ∈ fields)
    (hnone : takenValue web (joinFields fields) f.1 = none) : f.2 = [] := by
  unfold takenValue at hnone
  rw [h.splitOn (List.ne_nil_of_mem hf), List.getLast?_eq_none_iff, List.filterMap_eq_nil_iff] at hnone
  have htaken := hnone _ (List.mem_map_of_mem hf)
  rw [h.taken_eq hf] at htaken
  by_contra hvalue
  rw [if_pos ⟨rfl, hvalue⟩] at htaken
  cases htaken

/-- **The middleware takes a field** whose name no other field has. -/
theorem takenValue_of_mem (h : PlainFields fields) (hnodup : (fields.map Prod.fst).Nodup)
    {f : Str × Str} (hf : f ∈ fields) (hvalue : f.2 ≠ []) :
    takenValue web (joinFields fields) f.1 = some (urldecodeOr web f.2) := by
  cases hlast : takenValue web (joinFields fields) f.1 with
  | none => exact absurd (h.value_eq_nil_of_takenValue hf hlast) hvalue
  | some v =>
    obtain ⟨g, hg, hname, -, rfl⟩ := h.mem_of_takenValue hlast
    rw [List.inj_on_of_nodup_map hnodup hg hf hname]

/-- A form finds a field whose name no other field has. -/
theorem formValue_of_mem (h : PlainFields fields) (hweb : web.CodesUrls)
    (hnodup : (fields.map fun f => formDecode f.1).Nodup) {f : Str × Str} (hf : f ∈ fields) :
    formValue web (joinFields fields) (formDecode f.1) = some (formDecode f.2) := by
  unfold formValue
  rw [hweb.formPairs, h.formPairs]
  refine lastValue_of_mem ?_ (List.mem_map_of_mem (f := fun f => (formDecode f.1, formDecode f.2)) hf)
  rw [List.map_map]
  exact hnodup

theorem formValue_eq_none (h : PlainFields fields) (hweb : web.CodesUrls) {key : Str}
    (hkey : ∀ f ∈ fields, formDecode f.1 ≠ key) :
    formValue web (joinFields fields) key = none := by
  unfold formValue
  rw [hweb.formPairs, h.formPairs, lastValue_eq_none_iff]
  intro p hp
  obtain ⟨f, hf, rfl⟩ := List.mem_map.mp hp
  exact hkey f hf

end PlainFields

/-! ### Encoded names and values -/

theorem encode_append (a b : Str) : encode (a ++ b) = encode a ++ encode b := List.flatMap_append ..

theorem encode_injective : Function.Injective encode := by
  intro a b h
  rw [← formDecode_encode a, h, formDecode_encode]

theorem length_encodeOne_pos (c : Char) : 1 ≤ (encodeOne c).length ∧
    ((encodeOne c).length = 1 → encodeOne c = [c]) := by
  unfold encodeOne
  split
  · exact ⟨le_refl _, fun _ => rfl⟩
  · obtain ⟨n, bs, hchar, -, -⟩ := encodeChar_first c
    rw [hchar, List.flatMap_cons, List.length_append]
    have hthree : (percentByte (UInt8.ofNat n)).length = 3 := rfl
    rw [hthree]
    exact ⟨by omega, fun h => by omega⟩

/-- **Encoding lengthens** what it changes. -/
theorem length_encode (s : Str) : s.length ≤ (encode s).length ∧
    ((encode s).length = s.length → encode s = s) := by
  induction s with
  | nil => exact ⟨le_refl _, fun _ => rfl⟩
  | cons c s ih =>
    obtain ⟨hone, heq⟩ := length_encodeOne_pos c
    show (c :: s).length ≤ (encodeOne c ++ encode s).length ∧
      ((encodeOne c ++ encode s).length = (c :: s).length → encodeOne c ++ encode s = c :: s)
    rw [List.length_append, List.length_cons]
    refine ⟨by omega, fun h => ?_⟩
    rw [heq (by omega), ih.2 (by omega)]
    rfl

/-- Names that are each the encoding of one of them need no encoding. -/
theorem encode_eq_of_covered {names : List Str} (h : ∀ name ∈ names, ∃ other ∈ names,
    encode other = name) : ∀ name ∈ names, encode name = name := by
  intro name hname
  induction hlen : name.length using Nat.strong_induction_on generalizing name with
  | _ len ih =>
    subst hlen
    obtain ⟨other, hother, hencode⟩ := h name hname
    obtain ⟨hle, heq⟩ := length_encode other
    rcases Nat.lt_or_ge other.length name.length with hlt | hge
    · -- a shorter one encodes to itself
      have hself := ih other.length hlt other hother rfl
      rw [hself] at hencode
      rw [hencode] at hlt
      exact absurd hlt (lt_irrefl _)
    · rw [hencode] at hle heq
      have hname : name = other := heq (le_antisymm hge hle)
      rw [hname] at hencode ⊢
      exact hencode

/-! ### The values of one field -/

theorem length_value_formPair (segment : Str) : (formPair segment).2.length ≤ segment.length := by
  unfold formPair
  cases hsplit : splitOnce '=' segment with
  | none => exact Nat.zero_le _
  | some kv =>
    obtain ⟨k, v⟩ := kv
    obtain ⟨rfl, -⟩ := splitOnce_eq_some_iff.mp hsplit
    show (formDecode v).length ≤ (k ++ '=' :: v).length
    have hv := (length_formDecode v).1
    rw [List.length_append, List.length_cons]
    omega

/-- A form reads from a field no value that is longer than what stands there, and one of that length
only when the field is not split. -/
theorem length_value_of_mem {name raw : Str} (hamp : '&' ∉ name) (heq : '=' ∉ name) {p : Str × Str}
    (h : p ∈ UrlCoding.formPairs (name ++ '=' :: raw)) :
    p.2.length ≤ raw.length ∧ (p.2.length = raw.length → '&' ∉ raw ∧ p.2 = formDecode raw) := by
  by_cases hraw : '&' ∈ raw
  · -- the value falls apart at an ampersand
    obtain ⟨⟨a, b⟩, hsplit⟩ : ∃ ab, splitOnce '&' raw = some ab := by
      cases hnone : splitOnce '&' raw with
      | some ab => exact ⟨ab, rfl⟩
      | none => exact absurd hraw (not_mem_of_splitOnce_eq_none hnone)
    obtain ⟨rfl, ha⟩ := splitOnce_eq_some_iff.mp hsplit
    have hlen : (a ++ '&' :: b).length = a.length + (b.length + 1) := by simp
    have hfirst : '&' ∉ name ++ '=' :: a := by
      intro hmem
      rcases List.mem_append.mp hmem with hmem | hmem
      · exact hamp hmem
      · rcases List.mem_cons.mp hmem with hmem | hmem
        · cases hmem
        · exact ha hmem
    have happ : name ++ '=' :: (a ++ '&' :: b) = (name ++ '=' :: a) ++ '&' :: b := by simp
    rw [happ, formPairs_amp, formPairs_segment hfirst (by simp)] at h
    rcases List.mem_append.mp h with h | h
    · rw [List.mem_singleton.mp h, formPair, splitOnce_of_not_mem heq]
      show (formDecode a).length ≤ _ ∧ ((formDecode a).length = _ → _)
      have hle := (length_formDecode a).1
      exact ⟨by omega, fun heq => by omega⟩
    · obtain ⟨segment, hmem, rfl⟩ := List.mem_map.mp h
      have hle := (length_value_formPair segment).trans
        (length_of_mem_splitOn (List.mem_of_mem_filter hmem))
      exact ⟨by omega, fun heq => by omega⟩
  · have hall : '&' ∉ name ++ '=' :: raw := by
      intro hmem
      rcases List.mem_append.mp hmem with hmem | hmem
      · exact hamp hmem
      · rcases List.mem_cons.mp hmem with hmem | hmem
        · cases hmem
        · exact hraw hmem
    rw [formPairs_segment hall (by simp), List.mem_singleton] at h
    rw [h, formPair, splitOnce_of_not_mem heq]
    exact ⟨(length_formDecode raw).1, fun _ => ⟨hraw, rfl⟩⟩

/-! ### Pairs with encoded values -/

/-- Pairs as the server writes them: names as they are, values encoded. -/
def encodedFields (pairs : List (Str × Str)) : List (Str × Str) :=
  pairs.map fun p => (p.1, encode p.2)

section EncodedFields

variable {web : WebCrates} {pairs : List (Str × Str)}

theorem intercalate_queryPair (hweb : web.CodesUrls) (pairs : List (Str × Str)) :
    ['&'].intercalate (pairs.map (queryPair web)) = joinFields (encodedFields pairs) := by
  unfold joinFields encodedFields queryPair
  rw [List.map_map, hweb.urlencode]
  rfl

theorem formDecode_of_encode_eq {name : Str} (h : encode name = name) : formDecode name = name := by
  rw [← h, formDecode_encode, h]

theorem encodedFields_plain (hnames : ∀ p ∈ pairs, encode p.1 = p.1) :
    PlainFields (encodedFields pairs) := by
  constructor
  · intro f hf
    obtain ⟨p, hp, rfl⟩ := List.mem_map.mp hf
    show '&' ∉ p.1 ∧ '=' ∉ p.1
    rw [← hnames p hp]
    exact ⟨not_mem_encode (by decide) _, not_mem_encode (by decide) _⟩
  · intro f hf
    obtain ⟨p, -, rfl⟩ := List.mem_map.mp hf
    exact not_mem_encode (by decide) _

/-- **A form reads the pairs** whose names need no encoding. -/
theorem formPairs_encodedFields (hnames : ∀ p ∈ pairs, encode p.1 = p.1) :
    formPairs (joinFields (encodedFields pairs)) = pairs := by
  rw [(encodedFields_plain hnames).formPairs]
  unfold encodedFields
  rw [List.map_map]
  refine (List.map_congr_left fun p hp => ?_).trans (List.map_id _)
  show (formDecode p.1, formDecode (encode p.2)) = p
  rw [formDecode_of_encode_eq (hnames p hp), formDecode_encode]

/-- **The middleware takes the same** when no value is empty. -/
theorem takenValue_encodedFields (hweb : web.CodesUrls) (hnames : ∀ p ∈ pairs, encode p.1 = p.1)
    (hvalues : ∀ p ∈ pairs, p.2 ≠ []) (key : Str) :
    takenValue web (joinFields (encodedFields pairs)) key = lastValue key pairs := by
  by_cases hne : pairs = []
  · rw [hne]
    rfl
  have hfields : encodedFields pairs ≠ [] := by simpa [encodedFields] using hne
  unfold takenValue
  rw [(encodedFields_plain hnames).splitOn hfields, lastValue_eq_getLast?, encodedFields,
    List.map_map, List.filterMap_map]
  congr 1
  refine List.filterMap_congr fun p hp => ?_
  have hmem : (p.1, encode p.2) ∈ encodedFields pairs := List.mem_map_of_mem hp
  show taken web key (p.1 ++ '=' :: encode p.2) = valueFor key p
  rw [(encodedFields_plain hnames).taken_eq hmem, urldecodeOr, hweb.urldecode, decode_encode,
    valueFor]
  have hvalue : encode p.2 ≠ [] := fun h => hvalues p hp (encode_injective h)
  by_cases hkey : p.1 = key
  · rw [if_pos ⟨hkey, hvalue⟩, if_pos hkey]
    rfl
  · rw [if_neg fun h => hkey h.1, if_neg hkey]

end EncodedFields

end MediaFlow
