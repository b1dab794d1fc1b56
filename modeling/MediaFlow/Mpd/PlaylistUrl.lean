import MediaFlow.Auth.ValueQuery
import MediaFlow.Mpd.Master
import MediaFlow.Mpd.MultiPeriod

/-!
# The playlists of a master playlist

An entry of the master playlist carries the URL of its media playlist, whose handler selects profiles
by the `profile_id` of the query. The id is made of three texts and stands in the URL as it is:
`entryResolves_iff` says when the handler gets back what was put in and selects the representation
of the entry, in all periods, and no other.
-/

open Text Json UrlCoding

namespace MediaFlow

/-! ### What is to be shown -/

/-- A representation, with its place in the document. -/
structure PlacedRepresentation where
  period : Period
  /-- The place of the adaptation set in its period. -/
  position : ℕ
  adaptation : AdaptationSet
  rep : Representation

def MpdDocument.placed (doc : MpdDocument) : List PlacedRepresentation :=
  doc.periods.flatMap fun period => period.adaptationSets.zipIdx.flatMap fun (adaptation, position) =>
    adaptation.representations.map fun rep => ⟨period, position, adaptation, rep⟩

namespace PlacedRepresentation

variable (i : PlacedRepresentation)

/-- Adaptation set, representation id and bandwidth. An adaptation set without an id is known by its
place. -/
def identity : (Str ⊕ ℕ) × Option Str × ℕ :=
  (match i.adaptation.id with
    | some id => .inl id
    | none => .inr i.position,
    i.rep.id, (i.rep.bandwidth.bind parseU64).getD 0)

def profileId : Str := MediaFlow.profileId i.rep i.adaptation

/-- Video and audio make profiles. -/
def isProfile : Bool :=
  isVideo (mimeTypeOf i.rep i.adaptation) || isAudio (mimeTypeOf i.rep i.adaptation)

end PlacedRepresentation

/-- The characters that end a URL for the player: the fragment is not sent, a line ends, and the URI
of an audio entry stands in quotes. -/
def endsUrl (kind : EntryKind) (c : Char) : Bool :=
  c = '#' || c = '\n' || (kind = .audio && c = '"')

/-- What is sent of the query string of an entry's URL. -/
def sentQuery (kind : EntryKind) (query : Str) : Str := query.takeWhile fun c => !endsUrl kind c

section MainResult

variable (web : WebCrates) (crates : DocumentCrates) (nowUnix : ℚ) (doc : MpdDocument) (mpdUrl : Str)
  (params : MasterParams)

/-- The profile that `mpd_manifest_handler` makes of a representation. -/
def manifestProfile (i : PlacedRepresentation) : Option RepresentationProfile :=
  parseRepresentation crates nowUnix i.rep i.adaptation mpdUrl doc.isLive
    ((doc.availabilityStartTime.bind crates.parseDatetimeToUnix).getD 0 +
      (i.period.start.map parseDuration).getD 0)
    ((doc.timeShiftBufferDepth.map parseDuration).getD 120)
    (doc.mediaPresentationDuration.map parseDuration) none

/-- The query string that `mpd_playlist_handler` gets for an entry. -/
def entryQuery (kind : EntryKind) (p : RepresentationProfile) : Str :=
  sentQuery kind (playlistQuery web.urlencode mpdUrl p.id params)

/-- The handler gets the MPD URL, the headers and the keys, and a profile id that is that of the
representations with the identity of the entry's, and of no others. -/
structure EntryResolves (kind : EntryKind) (p : RepresentationProfile) : Prop where
  destination : (storedProxyData web (entryQuery web mpdUrl params kind p)).destination = mpdUrl
  headers : ∀ name, headerValue (storedProxyData web (entryQuery web mpdUrl params kind p)).requestHeaders
    name = (params.passHeaders.lookup name).map .string
  keys : splitKeys (formValue web (entryQuery web mpdUrl params kind p) "key_id".toList)
    (formValue web (entryQuery web mpdUrl params kind p) "key".toList) = (params.keyId, params.key)
  selects : ∃ id, formValue web (entryQuery web mpdUrl params kind p) "profile_id".toList = some id ∧
    ∀ i₀ ∈ doc.placed, manifestProfile crates nowUnix doc mpdUrl i₀ = some p →
      ∀ i ∈ doc.placed, i.isProfile → (i.profileId = id ↔ i.identity = i₀.identity)

/-- The condition: the id is read back from a URL as it stands there and no other representation
has it, header names need no encoding and no header is empty, and the keys are not of the combined
format. -/
structure ResolvesWhen (kind : EntryKind) (p : RepresentationProfile) : Prop where
  amp : '&' ∉ p.id
  ends : ∀ c ∈ p.id, endsUrl kind c = false
  decoded : formDecode p.id = p.id
  unique : ∀ i₀ ∈ doc.placed, manifestProfile crates nowUnix doc mpdUrl i₀ = some p →
    ∀ i ∈ doc.placed, i.isProfile → i.profileId = p.id → i.identity = i₀.identity
  headers : ∀ h ∈ params.passHeaders, encode h.1 = h.1 ∧ h.2 ≠ []
  keys : splitKeys params.keyId params.key = (params.keyId, params.key)

end MainResult

/-! ### The fields of the URL -/

/-- The parameters after the profile id, but the headers. -/
def fixedValues (params : MasterParams) : List (Str × Option Str) :=
  [("api_password".toList, some params.apiPassword), ("key_id".toList, params.keyId),
    ("key".toList, params.key), ("skip".toList, params.skip),
    ("remux_to_ts".toList, if params.remuxToTs then some "1".toList else none)]

def fixedFields (params : MasterParams) : List (Str × Str) :=
  (fixedValues params).flatMap fun f => optionalField f.1 f.2

def headerFields (params : MasterParams) : List (Str × Str) :=
  params.passHeaders.map fun h => ("h_".toList ++ encode h.1, encode h.2)

/-- The fields of `playlistQuery`. -/
def playlistFields (mpdUrl id : Str) (params : MasterParams) : List (Str × Str) :=
  ("d".toList, encode mpdUrl) :: ("profile_id".toList, id) ::
    (fixedFields params ++ headerFields params)

theorem headerFields_text (params : MasterParams) : (headerFields params).flatMap fieldText =
    params.passHeaders.flatMap fun (k, v) => "&h_".toList ++ encode k ++ ['='] ++ encode v :=
  headerField_text params.passHeaders

theorem fixedFields_text (params : MasterParams) : (fixedFields params).flatMap fieldText =
    "&api_password=".toList ++ encode params.apiPassword
      ++ (match params.keyId with | some kid => "&key_id=".toList ++ encode kid | none => [])
      ++ (match params.key with | some key => "&key=".toList ++ encode key | none => [])
      ++ (match params.skip with | some skip => "&skip=".toList ++ encode skip | none => [])
      ++ (if params.remuxToTs then "&remux_to_ts=1".toList else []) := by
  have hremux : (match (if params.remuxToTs then some "1".toList else none : Option Str) with
      | some v => "&remux_to_ts=".toList ++ encode v | none => []) =
        if params.remuxToTs then "&remux_to_ts=1".toList else [] := by
    cases params.remuxToTs <;> rfl
  unfold fixedFields fixedValues
  rw [List.flatMap_assoc, List.flatMap_cons, List.flatMap_cons, List.flatMap_cons,
    List.flatMap_cons, List.flatMap_cons, List.flatMap_nil, List.append_nil, ← hremux,
    optionalField_text rfl, optionalField_text rfl, optionalField_text rfl, optionalField_text rfl,
    optionalField_text rfl]
  simp only [List.append_assoc]
  rfl

theorem playlistQuery_eq (mpdUrl id : Str) (params : MasterParams) :
    playlistQuery encode mpdUrl id params = joinFields (playlistFields mpdUrl id params) := by
  have htexts : ∀ fields : List (Str × Str),
      fields.flatMap (fun g => '&' :: (g.1 ++ '=' :: g.2)) = fields.flatMap fieldText := fun _ => rfl
  have hfirst : "d".toList ++ '=' :: encode mpdUrl = "d=".toList ++ encode mpdUrl := rfl
  have hid : fieldText ("profile_id".toList, id) = "&profile_id=".toList ++ id := rfl
  unfold playlistFields
  rw [joinFields_cons, htexts, List.flatMap_cons, List.flatMap_append, fixedFields_text,
    headerFields_text, hfirst, hid]
  unfold playlistQuery
  simp only [List.append_assoc]
  -- what is left, if anything, is the same matches under two names
  all_goals rfl

/-! ### Their names -/

/-- The names of the fields but the headers. -/
def fixedNames : List Str :=
  ["d".toList, "profile_id".toList, "api_password".toList, "key_id".toList, "key".toList,
    "skip".toList, "remux_to_ts".toList]

theorem mem_fixedFields {params : MasterParams} {f : Str × Str} (h : f ∈ fixedFields params) :
    ∃ v, (f.1, some v) ∈ fixedValues params ∧ f.2 = encode v := mem_valueFields h

theorem mem_fixedFields_of_value {params : MasterParams} {name v : Str}
    (h : (name, some v) ∈ fixedValues params) : (name, encode v) ∈ fixedFields params :=
  mem_valueFields_of_value h

theorem mem_fixedNames_of_value {params : MasterParams} {f : Str × Option Str}
    (h : f ∈ fixedValues params) : f.1 ∈ fixedNames.drop 2 := List.mem_map_of_mem (f := Prod.fst) h

/-- What a field is. -/
theorem mem_playlistFields {mpdUrl id : Str} {params : MasterParams} {f : Str × Str}
    (h : f ∈ playlistFields mpdUrl id params) :
    f = ("d".toList, encode mpdUrl) ∨ f = ("profile_id".toList, id) ∨
      (∃ v, (f.1, some v) ∈ fixedValues params ∧ f.2 = encode v) ∨
      ∃ header ∈ params.passHeaders, f = ("h_".toList ++ encode header.1, encode header.2) := by
  rcases List.mem_cons.mp h with rfl | h
  · exact .inl rfl
  rcases List.mem_cons.mp h with rfl | h
  · exact .inr (.inl rfl)
  rcases List.mem_append.mp h with h | h
  · exact .inr (.inr (.inl (mem_fixedFields h)))
  · obtain ⟨header, hheader, rfl⟩ := List.mem_map.mp h
    exact .inr (.inr (.inr ⟨header, hheader, rfl⟩))

/-- The name of a field is a fixed one or that of a header. -/
theorem name_of_mem_playlistFields {mpdUrl id : Str} {params : MasterParams} {f : Str × Str}
    (h : f ∈ playlistFields mpdUrl id params) : f.1 ∈ fixedNames ∨
      ∃ header ∈ params.passHeaders, f = ("h_".toList ++ encode header.1, encode header.2) := by
  rcases mem_playlistFields h with rfl | rfl | ⟨v, hv, -⟩ | hheader
  · exact .inl List.mem_cons_self
  · exact .inl (List.mem_cons_of_mem _ List.mem_cons_self)
  · exact .inl (List.mem_of_mem_drop (mem_fixedNames_of_value hv))
  · exact .inr hheader

theorem playlistFields_names (mpdUrl id : Str) (params : MasterParams) :
    List.Sublist ((playlistFields mpdUrl id params).map Prod.fst)
      (fixedNames ++ params.passHeaders.map fun h => "h_".toList ++ encode h.1) := by
  have hheaders : (headerFields params).map Prod.fst =
      params.passHeaders.map fun h => "h_".toList ++ encode h.1 := by
    unfold headerFields
    rw [List.map_map]
    rfl
  unfold playlistFields
  rw [List.map_cons, List.map_cons, List.map_append, hheaders]
  have hfixed := valueFields_names (fixedValues params)
  exact ((hfixed.append (List.Sublist.refl _)).cons_cons _).cons_cons _

theorem encodingChar_of_mem_fixedNames {name : Str} (h : name ∈ fixedNames) {c : Char}
    (hc : c ∈ name) : encodingChar c = true := by
  have hall : fixedNames.all (fun name => name.all encodingChar) = true := by decide +kernel
  exact List.all_eq_true.mp (List.all_eq_true.mp hall name h) c hc

theorem formDecode_fixedName {name : Str} (h : name ∈ fixedNames) : formDecode name = name := by
  have hall : fixedNames.all (fun name => formDecode name = name) = true := by decide +kernel
  exact of_decide_eq_true (List.all_eq_true.mp hall name h)

theorem not_header_of_mem_fixedNames {name : Str} (h : name ∈ fixedNames) (rest : Str) :
    name ≠ "h_".toList ++ rest := by
  have hall : fixedNames.all (fun name => !"h_".toList.isPrefixOf name) = true := by decide +kernel
  have hname := List.all_eq_true.mp hall name h
  rintro rfl
  rw [List.isPrefixOf_iff_prefix.mpr (List.prefix_append _ _)] at hname
  cases hname

theorem fixedNames_apart : ∀ name ∈ fixedNames, ¬ "h_".toList <+: name :=
  fun _ h ⟨rest, heq⟩ => not_header_of_mem_fixedNames h rest heq.symm

theorem not_mem_fixedName {c : Char} (hc : encodingChar c = false) {name : Str}
    (h : name ∈ fixedNames) : c ∉ name := by
  intro hmem
  rw [encodingChar_of_mem_fixedNames h hmem] at hc
  cases hc

theorem playlistFields_plain {mpdUrl id : Str} {params : MasterParams} (hid : '&' ∉ id) :
    PlainFields (playlistFields mpdUrl id params) := by
  constructor
  · intro f hf
    rcases name_of_mem_playlistFields hf with hname | ⟨header, -, rfl⟩
    · exact ⟨not_mem_fixedName (by decide) hname, not_mem_fixedName (by decide) hname⟩
    · exact ⟨not_mem_header (by decide) _, not_mem_header (by decide) _⟩
  · intro f hf
    rcases mem_playlistFields hf with rfl | rfl | ⟨v, -, hv⟩ | ⟨header, -, rfl⟩
    · exact not_mem_encode (by decide) _
    · exact hid
    · rw [hv]
      exact not_mem_encode (by decide) v
    · exact not_mem_encode (by decide) _

section Names

variable {mpdUrl id : Str} {params : MasterParams} (hnodup : (params.passHeaders.map Prod.fst).Nodup)

include hnodup

/-- No two fields have one name. -/
theorem playlistFields_nodup : ((playlistFields mpdUrl id params).map Prod.fst).Nodup :=
  (playlistFields_names mpdUrl id params).nodup
    (nodup_append_headers encode_injective (by decide) fixedNames_apart hnodup)

/-- Neither has a form one name for two fields. -/
theorem playlistFields_decoded_nodup :
    ((playlistFields mpdUrl id params).map fun f => formDecode f.1).Nodup := by
  have hsub : List.Sublist ((playlistFields mpdUrl id params).map fun f => formDecode f.1)
      (fixedNames ++ params.passHeaders.map fun h => "h_".toList ++ h.1) := by
    have := (playlistFields_names mpdUrl id params).map formDecode
    rw [List.map_map, List.map_append, List.map_map] at this
    have hfixed : fixedNames.map formDecode = fixedNames := by decide +kernel
    have hheaders : params.passHeaders.map (formDecode ∘ fun h => "h_".toList ++ encode h.1) =
        params.passHeaders.map fun h => "h_".toList ++ h.1 :=
      List.map_congr_left fun h _ => formDecode_header h.1
    rwa [hfixed, hheaders] at this
  exact hsub.nodup
    (nodup_append_headers Function.injective_id (by decide) fixedNames_apart hnodup)

end Names

/-! ### What is sent -/

theorem endsUrl_eq_false {kind : EntryKind} {c : Char} (hhash : c ≠ '#') (hline : c ≠ '\n')
    (hquote : c ≠ '"') : endsUrl kind c = false := by simp [endsUrl, hhash, hline, hquote]

theorem endsUrl_encodingChar {kind : EntryKind} {c : Char} (h : encodingChar c = true) :
    endsUrl kind c = false := by
  have hne : ∀ d : Char, encodingChar d = false → c ≠ d := by
    rintro d hd rfl
    rw [hd] at h
    cases h
  exact endsUrl_eq_false (hne '#' (by decide)) (hne '\n' (by decide)) (hne '"' (by decide))

/-- Only the profile id has characters that end a URL. -/
theorem endsUrl_of_mem_field {kind : EntryKind} {mpdUrl id : Str} {params : MasterParams}
    {f : Str × Str} (hf : f ∈ playlistFields mpdUrl id params) {c : Char} (hc : c ∈ f.1 ∨ c ∈ f.2) :
    endsUrl kind c = false ∨ c ∈ id := by
  rcases hc with hc | hc
  · refine .inl (endsUrl_encodingChar ?_)
    rcases name_of_mem_playlistFields hf with hname | ⟨header, -, rfl⟩
    · exact encodingChar_of_mem_fixedNames hname hc
    · by_contra hnot
      exact not_mem_header (Bool.eq_false_of_not_eq_true hnot) _ hc
  · rcases mem_playlistFields hf with rfl | rfl | ⟨v, -, hv⟩ | ⟨header, -, rfl⟩
    · exact .inl (endsUrl_encodingChar (encodingChar_of_mem_encode hc))
    · exact .inr hc
    · rw [hv] at hc
      exact .inl (endsUrl_encodingChar (encodingChar_of_mem_encode hc))
    · exact .inl (endsUrl_encodingChar (encodingChar_of_mem_encode hc))

/-- The whole query string is sent when nothing in the profile id ends the URL. -/
theorem sentQuery_eq_self {kind : EntryKind} {mpdUrl id : Str} {params : MasterParams}
    (hid : ∀ c ∈ id, endsUrl kind c = false) :
    sentQuery kind (joinFields (playlistFields mpdUrl id params)) =
      joinFields (playlistFields mpdUrl id params) := by
  refine List.takeWhile_eq_self_iff.mpr fun c hc => ?_
  have hends : endsUrl kind c = false := by
    rcases mem_joinFields hc with rfl | rfl | ⟨f, hf, hc⟩
    · exact endsUrl_eq_false (by decide) (by decide) (by decide)
    · exact endsUrl_eq_false (by decide) (by decide) (by decide)
    · rcases endsUrl_of_mem_field hf hc with h | h
      · exact h
      · exact hid c h
  rw [hends]
  rfl

/-- The fields around the profile id. -/
theorem joinFields_around (mpdUrl id : Str) (params : MasterParams) :
    joinFields (playlistFields mpdUrl id params) =
      ("d".toList ++ '=' :: encode mpdUrl) ++ '&' :: (("profile_id".toList ++ '=' :: id) ++
        '&' :: joinFields (fixedFields params ++ headerFields params)) := by
  obtain ⟨f, rest, hrest⟩ : ∃ f rest, fixedFields params ++ headerFields params = f :: rest :=
    ⟨_, _, rfl⟩
  unfold playlistFields
  rw [hrest, joinFields_cons_cons, joinFields_cons_cons]

/-! ### Read back -/

section ReadBack

variable {web : WebCrates} {mpdUrl id : Str} {params : MasterParams} (hweb : web.CodesUrls)

/-- The parameters after the profile id have other names. -/
theorem ne_profileId_of_mem_rest {p : Str × Str}
    (hp : p ∈ UrlCoding.formPairs (joinFields (fixedFields params ++ headerFields params))) :
    p.1 ≠ "profile_id".toList := by
  have hplain : PlainFields (fixedFields params ++ headerFields params) :=
    (@playlistFields_plain [] [] params List.not_mem_nil).mono
      fun f hf => List.mem_cons_of_mem _ (List.mem_cons_of_mem _ hf)
  rw [hplain.formPairs] at hp
  obtain ⟨f, hf, rfl⟩ := List.mem_map.mp hp
  rcases List.mem_append.mp hf with hf | hf
  · obtain ⟨v, hv, -⟩ := mem_fixedFields hf
    have hname := mem_fixedNames_of_value hv
    show formDecode f.1 ≠ _
    rw [formDecode_fixedName (List.mem_of_mem_drop hname)]
    rintro heq
    rw [heq] at hname
    exact absurd hname (by decide)
  · obtain ⟨header, -, rfl⟩ := List.mem_map.mp hf
    show formDecode ("h_".toList ++ encode header.1) ≠ _
    rw [formDecode_header]
    exact (not_header_of_mem_fixedNames (by decide) _).symm

/-- What is sent: the query string, or what stands before the end of the URL in the profile id. -/
theorem sentQuery_eq {kind : EntryKind} (hid : ¬ ∀ c ∈ id, endsUrl kind c = false) :
    ∃ part, part.length < id.length ∧
      sentQuery kind (joinFields (playlistFields mpdUrl id params)) =
        ("d".toList ++ '=' :: encode mpdUrl) ++ '&' :: ("profile_id".toList ++ '=' :: part) := by
  have hcut : id.takeWhile (fun c => !endsUrl kind c) ≠ id := by
    intro hall
    refine hid fun c hc => ?_
    simpa using List.takeWhile_eq_self_iff.mp hall c hc
  have hlt : (id.takeWhile fun c => !endsUrl kind c).length < id.length := by
    refine lt_of_le_of_ne (List.takeWhile_prefix _).length_le fun heq => ?_
    exact hcut ((List.takeWhile_prefix _).eq_of_length heq)
  refine ⟨id.takeWhile fun c => !endsUrl kind c, hlt, ?_⟩
  have hfront : ∀ c ∈ ("d".toList ++ '=' :: encode mpdUrl) ++ '&' :: ("profile_id".toList ++ ['=']),
      (!endsUrl kind c) = true := by
    intro c hc
    have hfield : (c = '&' ∨ c = '=') ∨ encodingChar c = true := by
      have hname : ∀ name ∈ fixedNames, c ∈ name → encodingChar c = true :=
        fun name hname hc => encodingChar_of_mem_fixedNames hname hc
      simp only [List.mem_append, List.mem_cons, List.not_mem_nil, or_false] at hc
      rcases hc with (hc | hc | hc) | hc | hc | hc
      · exact .inr (hname "d".toList (by decide) hc)
      · exact .inl (.inr hc)
      · exact .inr (encodingChar_of_mem_encode hc)
      · exact .inl (.inl hc)
      · exact .inr (hname "profile_id".toList (by decide) hc)
      · exact .inl (.inr hc)
    have hends : endsUrl kind c = false := by
      rcases hfield with (rfl | rfl) | henc
      · exact endsUrl_eq_false (by decide) (by decide) (by decide)
      · exact endsUrl_eq_false (by decide) (by decide) (by decide)
      · exact endsUrl_encodingChar henc
    rw [hends]
    rfl
  have happ : ∀ tail : Str, ("d".toList ++ '=' :: encode mpdUrl) ++ '&' ::
      (("profile_id".toList ++ '=' :: id) ++ tail) = (("d".toList ++ '=' :: encode mpdUrl) ++
        '&' :: ("profile_id".toList ++ ['='])) ++ (id ++ tail) := by
    intro tail
    simp
  rw [joinFields_around, happ, sentQuery, List.takeWhile_append_of_pos hfront,
    List.takeWhile_append, if_neg (ne_of_lt hlt)]
  simp

theorem fixedValue_of_mem {f : Str × Str} (hf : f ∈ playlistFields mpdUrl id params) {name : Str}
    (hname : name ∈ fixedNames.drop 2) (heq : formDecode f.1 = name) :
    ∃ v, (name, some v) ∈ fixedValues params := by
  have hfirst : ∀ other ∈ fixedNames.take 2, formDecode other ≠ name := by
    rintro other hother rfl
    rw [formDecode_fixedName (List.mem_of_mem_take hother)] at hname
    exact List.disjoint_take_drop (by decide) (le_refl 2) hother hname
  rcases mem_playlistFields hf with rfl | rfl | ⟨v, hv, -⟩ | ⟨header, -, rfl⟩
  · exact absurd heq (hfirst _ List.mem_cons_self)
  · exact absurd heq (hfirst _ (List.mem_cons_of_mem _ List.mem_cons_self))
  · rw [formDecode_fixedName (List.mem_of_mem_drop (mem_fixedNames_of_value hv))] at heq
    exact ⟨v, heq ▸ hv⟩
  · rw [formDecode_header] at heq
    exact absurd heq.symm (not_header_of_mem_fixedNames (List.mem_of_mem_drop hname) _)

include hweb

/-- What the form gives for the profile id is no longer than the id, and as long only when all of it
is sent and read as it stands. -/
theorem profileId_of_formValue {kind : EntryKind} {v : Str}
    (hv : formValue web (sentQuery kind (joinFields (playlistFields mpdUrl id params)))
      "profile_id".toList = some v) (hlen : v.length = id.length) :
    '&' ∉ id ∧ (∀ c ∈ id, endsUrl kind c = false) ∧ v = formDecode id := by
  have hpair := mem_of_lastValue hv
  rw [hweb.formPairs] at hpair
  have hdname : formDecode "d".toList ≠ "profile_id".toList := by decide +kernel
  have hd : ∀ p ∈ UrlCoding.formPairs ("d".toList ++ '=' :: encode mpdUrl),
      p.1 ≠ "profile_id".toList := by
    intro p hp
    rw [formPairs_encoded (by decide) (by decide), List.mem_singleton] at hp
    rw [hp]
    exact hdname
  by_cases hid : ∀ c ∈ id, endsUrl kind c = false
  · rw [sentQuery_eq_self hid, joinFields_around, formPairs_amp, formPairs_amp] at hpair
    rcases List.mem_append.mp hpair with hpair | hpair
    · exact absurd rfl (hd _ hpair)
    · rcases List.mem_append.mp hpair with hpair | hpair
      · obtain ⟨hamp, hdecode⟩ := (length_value_of_mem (by decide) (by decide) hpair).2 hlen
        exact ⟨hamp, hid, hdecode⟩
      · exact absurd rfl (ne_profileId_of_mem_rest hpair)
  · -- a part of the id is too short
    obtain ⟨part, hpart, hsent⟩ := @sentQuery_eq mpdUrl id params kind hid
    rw [hsent, formPairs_amp] at hpair
    rcases List.mem_append.mp hpair with hpair | hpair
    · exact absurd rfl (hd _ hpair)
    · have hle : v.length ≤ part.length :=
        (length_value_of_mem (by decide) (by decide) hpair).1
      exact absurd hlen (ne_of_lt (lt_of_le_of_lt hle hpart))

variable (hnodup : (params.passHeaders.map Prod.fst).Nodup) (hamp : '&' ∉ id)

include hnodup hamp

theorem formValue_profileId :
    formValue web (joinFields (playlistFields mpdUrl id params)) "profile_id".toList =
      some (formDecode id) := by
  have hmem : ("profile_id".toList, id) ∈ playlistFields mpdUrl id params :=
    List.mem_cons_of_mem _ List.mem_cons_self
  have hvalue := (playlistFields_plain hamp).formValue_of_mem hweb
    (playlistFields_decoded_nodup hnodup) hmem
  have hname : formDecode "profile_id".toList = "profile_id".toList :=
    formDecode_fixedName (by decide)
  rwa [hname] at hvalue

/-- A parameter is read back, also when there is none. -/
theorem formValue_of_value {name : Str} {value : Option Str}
    (hvalue : (name, value) ∈ fixedValues params) :
    formValue web (joinFields (playlistFields mpdUrl id params)) name = value := by
  have hname := mem_fixedNames_of_value hvalue
  have hdecode := formDecode_fixedName (List.mem_of_mem_drop hname)
  cases value with
  | some v =>
    have hmem : (name, encode v) ∈ playlistFields mpdUrl id params :=
      List.mem_cons_of_mem _ (List.mem_cons_of_mem _
        (List.mem_append_left _ (mem_fixedFields_of_value hvalue)))
    have hform := (playlistFields_plain hamp).formValue_of_mem hweb
      (playlistFields_decoded_nodup hnodup) hmem
    rwa [hdecode, formDecode_encode] at hform
  | none =>
    refine (playlistFields_plain hamp).formValue_eq_none hweb fun f hf heq => ?_
    obtain ⟨v, hv⟩ := fixedValue_of_mem hf hname heq
    -- one name has one value
    have hnames : ((fixedValues params).map Prod.fst).Nodup := by
      show (fixedNames.drop 2).Nodup
      decide
    have hsame := List.inj_on_of_nodup_map hnames hv hvalue rfl
    cases (Prod.mk.inj hsame).2

/-- The middleware finds the MPD URL. -/
theorem destination_eq :
    (storedProxyData web (joinFields (playlistFields mpdUrl id params))).destination = mpdUrl := by
  have hplain := @playlistFields_plain mpdUrl id params hamp
  have hdecode := urldecodeOr_encode hweb mpdUrl
  have hd : ("d".toList, encode mpdUrl) ∈ playlistFields mpdUrl id params := List.mem_cons_self
  have hurl : takenValue web (joinFields (playlistFields mpdUrl id params)) "url".toList = none := by
    cases htaken : takenValue web (joinFields (playlistFields mpdUrl id params)) "url".toList with
    | none => rfl
    | some v =>
      obtain ⟨f, hf, hname, -, -⟩ := hplain.mem_of_takenValue htaken
      rcases name_of_mem_playlistFields hf with hfixed | ⟨header, -, rfl⟩
      · rw [hname] at hfixed
        exact absurd hfixed (by decide)
      · cases hname
  rw [(@stored_eq web _).1, hurl, Option.or_none]
  cases htaken : takenValue web (joinFields (playlistFields mpdUrl id params)) "d".toList with
  | none =>
    -- only an empty URL is not taken
    by_cases hempty : encode mpdUrl = []
    · exact (encode_injective hempty).symm
    · have hsome := @hplain.takenValue_of_mem web _ (playlistFields_nodup hnodup) _ hd hempty
      rw [htaken] at hsome
      cases hsome
  | some v =>
    obtain ⟨f, hf, hname, -, rfl⟩ := hplain.mem_of_takenValue htaken
    rw [List.inj_on_of_nodup_map (playlistFields_nodup hnodup) hf hd hname]
    exact hdecode

/-- **The headers come through** when their names need no encoding and none is empty, and only
then. -/
theorem headers_iff :
    (∀ name, headerValue (storedProxyData web (joinFields (playlistFields mpdUrl id params))).requestHeaders
      name = (params.passHeaders.lookup name).map .string) ↔
      ∀ h ∈ params.passHeaders, encode h.1 = h.1 ∧ h.2 ≠ [] := by
  have hcarries : CarriesHeaders (playlistFields mpdUrl id params) params.passHeaders := by
    refine ⟨playlistFields_plain hamp, playlistFields_nodup hnodup, fun header hheader => ?_, ?_⟩
    · exact List.mem_cons_of_mem _ (List.mem_cons_of_mem _ (List.mem_append_right _
        (List.mem_map_of_mem hheader)))
    · intro f hf hname
      rcases name_of_mem_playlistFields hf with hfixed | hheader
      · obtain ⟨rest, hrest⟩ := hname
        exact absurd hrest.symm (not_header_of_mem_fixedNames hfixed rest)
      · exact hheader
  exact hcarries.headers_iff hweb hnodup

end ReadBack

/-! ### The entries of a document -/

theorem profileId_of_identity {i j : PlacedRepresentation} (h : i.identity = j.identity) :
    i.profileId = j.profileId := by
  unfold PlacedRepresentation.identity at h
  obtain ⟨hadaptation, hrep⟩ := Prod.mk.inj h
  obtain ⟨hid, hbandwidth⟩ := Prod.mk.inj hrep
  have hset : i.adaptation.id = j.adaptation.id := by
    cases hi : i.adaptation.id with
    | none =>
      cases hj : j.adaptation.id with
      | none => rfl
      | some b =>
        rw [hi, hj] at hadaptation
        cases hadaptation
    | some a =>
      cases hj : j.adaptation.id with
      | none =>
        rw [hi, hj] at hadaptation
        cases hadaptation
      | some b =>
        rw [hi, hj] at hadaptation
        rw [Sum.inl.inj hadaptation]
  unfold PlacedRepresentation.profileId MediaFlow.profileId
  rw [hset, hid, hbandwidth]

section Entries

variable {web : WebCrates} {crates : DocumentCrates} {nowUnix : ℚ} {doc : MpdDocument}
  {mpdUrl : Str} {params : MasterParams} {kind : EntryKind} {p : RepresentationProfile}

theorem id_of_manifestProfile {i : PlacedRepresentation}
    (h : manifestProfile crates nowUnix doc mpdUrl i = some p) : p.id = i.profileId :=
  parseRepresentation_id h

theorem isProfile_of_manifestProfile {i : PlacedRepresentation}
    (h : manifestProfile crates nowUnix doc mpdUrl i = some p) : i.isProfile = true := by
  have hsome := @parseRepresentation_isSome_iff crates nowUnix mpdUrl i.rep i.adaptation doc.isLive
    ((doc.availabilityStartTime.bind crates.parseDatetimeToUnix).getD 0 +
      (i.period.start.map parseDuration).getD 0)
    ((doc.timeShiftBufferDepth.map parseDuration).getD 120)
    (doc.mediaPresentationDuration.map parseDuration) none
  unfold manifestProfile at h
  rw [h] at hsome
  exact hsome.symm

/-- An entry is made of a representation of the document. -/
theorem exists_placed_of_mem_masterEntries
    (h : (kind, p) ∈ masterEntries params (parseMpdDocument crates nowUnix doc mpdUrl none)) :
    ∃ i ∈ doc.placed, manifestProfile crates nowUnix doc mpdUrl i = some p := by
  obtain ⟨⟨period, adaptation, rep⟩, hinstance, hparse⟩ :=
    List.mem_filterMap.mp (mem_profiles_of_mem_masterEntries h)
  obtain ⟨period', hperiod, hinstance⟩ := List.mem_flatMap.mp hinstance
  obtain ⟨adaptation', hadaptation, hinstance⟩ := List.mem_flatMap.mp hinstance
  obtain ⟨rep', hrep, heq⟩ := List.mem_map.mp hinstance
  cases heq
  obtain ⟨position, hposition, hget⟩ := List.mem_iff_getElem.mp hadaptation
  have hzip : (adaptation, position) ∈ period.adaptationSets.zipIdx := by
    rw [List.mem_iff_getElem]
    exact ⟨position, by simpa using hposition, by simp [hget]⟩
  exact ⟨⟨period, position, adaptation, rep⟩,
    List.mem_flatMap.mpr ⟨period, hperiod, List.mem_flatMap.mpr ⟨_, hzip, List.mem_map_of_mem hrep⟩⟩,
    hparse⟩

/-- **When the URL of an entry leads to its representation.** -/
theorem entryResolves_iff (hweb : web.CodesUrls)
    (hnodup : (params.passHeaders.map Prod.fst).Nodup)
    (hentry : (kind, p) ∈ masterEntries params (parseMpdDocument crates nowUnix doc mpdUrl none)) :
    EntryResolves web crates nowUnix doc mpdUrl params kind p ↔
      ResolvesWhen crates nowUnix doc mpdUrl params kind p := by
  obtain ⟨i₀, hi₀, hmade⟩ := exists_placed_of_mem_masterEntries hentry
  have hquery : entryQuery web mpdUrl params kind p =
      sentQuery kind (joinFields (playlistFields mpdUrl p.id params)) := by
    rw [entryQuery, hweb.urlencode, playlistQuery_eq]
  have hkeyId : ("key_id".toList, params.keyId) ∈ fixedValues params :=
    List.mem_of_getElem? (i := 1) rfl
  have hkey : ("key".toList, params.key) ∈ fixedValues params := List.mem_of_getElem? (i := 2) rfl
  constructor
  · intro h
    obtain ⟨id, hid, hselects⟩ := h.selects
    rw [hquery] at hid
    -- the id is that of the representation that the entry is made of
    have hself : id = p.id := by
      rw [id_of_manifestProfile hmade]
      exact ((hselects i₀ hi₀ hmade i₀ hi₀ (isProfile_of_manifestProfile hmade)).mpr rfl).symm
    obtain ⟨hamp, hends, hdecode⟩ := profileId_of_formValue hweb hid (congrArg List.length hself)
    rw [sentQuery_eq_self hends] at hquery
    refine ⟨hamp, hends, hdecode ▸ hself, ?_, ?_, ?_⟩
    · intro i₁ hi₁ hmade₁ i hi hprofile heq
      exact (hselects i₁ hi₁ hmade₁ i hi hprofile).mp (heq.trans hself.symm)
    · have hheaders := h.headers
      rw [hquery] at hheaders
      exact (headers_iff hweb hnodup hamp).mp hheaders
    · have hkeys := h.keys
      rwa [hquery, formValue_of_value hweb hnodup hamp hkeyId,
        formValue_of_value hweb hnodup hamp hkey] at hkeys
  · intro h
    rw [sentQuery_eq_self h.ends] at hquery
    refine ⟨?_, ?_, ?_, p.id, ?_, ?_⟩
    · rw [hquery]
      exact destination_eq hweb hnodup h.amp
    · rw [hquery]
      exact (headers_iff hweb hnodup h.amp).mpr h.headers
    · rw [hquery, formValue_of_value hweb hnodup h.amp hkeyId,
        formValue_of_value hweb hnodup h.amp hkey]
      exact h.keys
    · rw [hquery, formValue_profileId hweb hnodup h.amp, h.decoded]
    · intro i₁ hi₁ hmade₁ i hi hprofile
      refine ⟨h.unique i₁ hi₁ hmade₁ i hi hprofile, fun hidentity => ?_⟩
      rw [profileId_of_identity hidentity, id_of_manifestProfile hmade₁]

end Entries

/-! ### Two ids -/

/-- A video set without an id, of one representation. -/
def unnamedSet (id : Str) : AdaptationSet where
  id := none
  mimeType := some "video/mp4".toList
  codecs := none
  lang := none
  width := none
  height := none
  bandwidth := none
  maxFrameRate := none
  frameRate := none
  segmentTemplate := none
  segmentList := none
  representations := [{ videoRepresentation with id := some id }]

def oneVideo (id : Str) : MpdDocument where
  streamType := some "static".toList
  availabilityStartTime := none
  timeShiftBufferDepth := none
  mediaPresentationDuration := some "PT4S".toList
  periods := [⟨some "PT0S".toList, some "PT4S".toList, [unnamedSet id]⟩]

/-- A key and one header. -/
def keyedParams : MasterParams where
  apiPassword := "secret".toList
  passHeaders := [("user-agent".toList, "VLC/3 (x y)".toList)]
  keyId := some "00ff".toList
  key := some "ff00".toList
  resolution := none
  skip := none
  remuxToTs := false

/-- The master playlist of one video has one entry. -/
theorem masterEntries_oneVideo (id : Str) : ∃ p,
    (EntryKind.video, p) ∈ masterEntries keyedParams
      (parseMpdDocument plainCrates 0 (oneVideo id) "http://h/m.mpd".toList none) ∧
    p.id = "0_".toList ++ (id ++ "_500000".toList) := by
  have hparsed : ∃ p, (parseMpdDocument plainCrates 0 (oneVideo id) "http://h/m.mpd".toList
      none).profiles = [p] ∧ p.mimeType = "video/mp4".toList ∧
      p.id = "0_".toList ++ (id ++ "_500000".toList) := by
    refine ⟨_, rfl, rfl, ?_⟩
    have hbandwidth : decimal (((some "500000".toList).bind parseU64).getD 0) = "500000".toList := by
      decide +kernel
    show "0_".toList ++ (id ++ '_' :: decimal (((some "500000".toList).bind parseU64).getD 0)) = _
    rw [hbandwidth]
    rfl
  obtain ⟨p, hprofiles, hmime, hid⟩ := hparsed
  refine ⟨p, List.mem_append_right _ (List.mem_map_of_mem ?_), hid⟩
  have hvideo : [p].filter (fun p => isVideo p.mimeType) = [p] := by
    have hmp4 : isVideo "video/mp4".toList = true := by decide +kernel
    rw [← hmime] at hmp4
    exact List.filter_cons_of_pos hmp4
  rw [hprofiles, masterVideo, hvideo]
  have hone {β : Type} [DecidableEq β] (key : RepresentationProfile → β) :
      retainNew key [] [p] = [p] := if_neg List.not_mem_nil
  show p ∈ List.take 5 (retainNew (·.height) [] (retainNew (·.repId) []
    ([p].mergeSort fun a b => b.bandwidth ≤ a.bandwidth)))
  rw [List.mergeSort_singleton, hone, hone]
  exact List.mem_singleton_self p

/-- An id that stands in a URL as it is. -/
theorem entryResolves_v1 : ∃ p,
    (EntryKind.video, p) ∈ masterEntries keyedParams
      (parseMpdDocument plainCrates 0 (oneVideo "v1".toList) "http://h/m.mpd".toList none) ∧
    EntryResolves standardWeb plainCrates 0 (oneVideo "v1".toList) "http://h/m.mpd".toList keyedParams
      .video p := by
  obtain ⟨p, hentry, hid⟩ := masterEntries_oneVideo "v1".toList
  have hid : p.id = "0_v1_500000".toList := hid
  refine ⟨p, hentry, (entryResolves_iff standardWeb_codesUrls (by decide) hentry).mpr ?_⟩
  constructor
  · rw [hid]
    decide +kernel
  · intro c hc
    have hall : "0_v1_500000".toList.all encodingChar = true := by decide +kernel
    exact endsUrl_encodingChar (List.all_eq_true.mp hall c (hid ▸ hc))
  · rw [hid]
    decide +kernel
  · intro i₀ hi₀ _ i hi _ _
    rw [List.mem_singleton.mp hi₀, List.mem_singleton.mp hi]
  · decide +kernel
  · decide +kernel

/-- **A plus sign in an id** is read as a space, and no representation is found. -/
theorem plus_not_entryResolves : ∃ p,
    ((oneVideo "a+b".toList).placed.map PlacedRepresentation.identity).Nodup ∧
    (EntryKind.video, p) ∈ masterEntries keyedParams
      (parseMpdDocument plainCrates 0 (oneVideo "a+b".toList) "http://h/m.mpd".toList none) ∧
    ¬ EntryResolves standardWeb plainCrates 0 (oneVideo "a+b".toList) "http://h/m.mpd".toList
      keyedParams .video p := by
  obtain ⟨p, hentry, hid⟩ := masterEntries_oneVideo "a+b".toList
  have hid : p.id = "0_a+b_500000".toList := hid
  refine ⟨p, List.nodup_singleton _, hentry, fun h => ?_⟩
  obtain ⟨i₀, hi₀, hmade⟩ := exists_placed_of_mem_masterEntries hentry
  obtain ⟨id, hform, hselects⟩ := h.selects
  have hread : formValue standardWeb (entryQuery standardWeb "http://h/m.mpd".toList keyedParams .video p)
      "profile_id".toList = some "0_a b_500000".toList := by
    rw [entryQuery, hid]
    decide +kernel
  have hsame := (hselects i₀ hi₀ hmade i₀ hi₀ (isProfile_of_manifestProfile hmade)).mpr rfl
  rw [← id_of_manifestProfile hmade, hid] at hsame
  rw [hread, ← hsame] at hform
  exact absurd (Option.some.inj hform) (by decide)

end MediaFlow
