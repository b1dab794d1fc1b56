import MediaFlow.Auth.Encryption
import MediaFlow.Auth.Middleware
import MediaFlow.Mpd.Document
import MediaFlow.Mpd.Playlist

/-!
# Master playlists

`build_hls_master` of `mpd/processor.rs` with the URLs of the media playlists, and
`build_proxy_params` of `mpd/handler.rs`, which reads their parameters back.
-/

open Text

namespace MediaFlow

/-- The parameters, with those that only the master playlist is made with. -/
structure MasterParams extends MpdProxyParams where
  /-- Resolution filter (e.g. "1080p"). -/
  resolution : Option Str
  /-- Skip segment time ranges. -/
  skip : Option Str

/-! ### Parameters -/

/-- The `key_id` and the `key` of a query, with the combined format `kid:key,kid:key` split up. -/
def splitKeys (keyId key : Option Str) : Option Str × Option Str :=
  let keyId := keyId.filter (· ≠ [])
  let key := key.filter (· ≠ [])
  match keyId, key with
  | none, some k =>
    let pairs := k.splitOn ','
    if ':' ∈ k ∧ pairs.all fun p => ':' ∈ p then
      (some ([','].intercalate (pairs.map fun p => p.takeWhile (· ≠ ':'))),
        some ([','].intercalate (pairs.map fun p => ((splitOnce ':' p).map (·.2)).getD [])))
    else (none, some k)
  | _, _ => (keyId, key)

/-- `build_proxy_params`, with the password and the default for remuxing of the configuration. -/
def buildProxyParams (proxyData : ProxyData) (query : Str → Option Str) (apiPassword : Str)
    (remuxToTs : Bool) : MasterParams :=
  let keys := splitKeys (query "key_id".toList) (query "key".toList)
  { apiPassword := apiPassword
    passHeaders := stringMembers proxyData.requestHeaders
    keyId := keys.1
    key := keys.2
    resolution := query "resolution".toList
    skip := query "skip".toList
    remuxToTs := ((query "remux_to_ts".toList).map fun v =>
      v = "true".toList || v = "1".toList).getD remuxToTs }

/-! ### URLs -/

section

-- `urlencoding::encode`
variable (encode : Str → Str)

/-- The query string of `build_playlist_url`. The profile id stands there as it is. -/
def playlistQuery (mpdUrl profileId : Str) (params : MasterParams) : Str :=
  "d=".toList ++ encode mpdUrl ++ "&profile_id=".toList ++ profileId
    ++ "&api_password=".toList ++ encode params.apiPassword
    ++ (match params.keyId with | some kid => "&key_id=".toList ++ encode kid | none => [])
    ++ (match params.key with | some key => "&key=".toList ++ encode key | none => [])
    ++ (match params.skip with | some skip => "&skip=".toList ++ encode skip | none => [])
    ++ (if params.remuxToTs then "&remux_to_ts=1".toList else [])
    ++ params.passHeaders.flatMap fun (k, v) => "&h_".toList ++ encode k ++ ['='] ++ encode v

def buildPlaylistUrl (proxyBase mpdUrl profileId : Str) (params : MasterParams) : Str :=
  proxyBase ++ "/proxy/mpd/playlist?".toList ++ playlistQuery encode mpdUrl profileId params

end

/-! ### The choice of profiles -/

section Choice

variable {α β : Type*}

/-- The elements with a new key, `seen` being the keys so far. -/
def retainNew [DecidableEq β] (key : α → β) : List β → List α → List α
  | _, [] => []
  | seen, a :: l =>
    if key a ∈ seen then retainNew key seen l else a :: retainNew key (key a :: seen) l

theorem mem_of_mem_retainNew [DecidableEq β] {key : α → β} {seen : List β} {l : List α} {a : α}
    (h : a ∈ retainNew key seen l) : a ∈ l := by
  induction l generalizing seen with
  | nil => cases h
  | cons b l ih =>
    rw [retainNew] at h
    split at h
    · exact List.mem_cons_of_mem _ (ih h)
    · rcases List.mem_cons.mp h with rfl | h
      · exact List.mem_cons_self
      · exact List.mem_cons_of_mem _ (ih h)

/-- `Iterator::max_by_key`: the last one of the greatest. -/
def maxByKey (key : α → ℕ) (l : List α) : Option α :=
  l.foldl (fun best a =>
    match best with
    | some b => if key b ≤ key a then some a else some b
    | none => some a) none

end Choice

def filterByResolution (profiles : List RepresentationProfile) (target : Str) :
    List RepresentationProfile :=
  let targetHeight := (parseU32 (target.reverse.dropWhile (· = 'p')).reverse).getD 1080
  let valid := (profiles.filter fun p => p.height > 0).mergeSort fun a b => b.height ≤ a.height
  match (valid.find? fun p => p.height ≤ targetHeight).or valid.getLast? with
  | some selected => [selected]
  | none => profiles

/-- The video entries: one for each height, the best first, and one only with a resolution or in TS
mode. -/
def masterVideo (params : MasterParams) (profiles : List RepresentationProfile) :
    List RepresentationProfile :=
  let video := profiles.filter fun p => isVideo p.mimeType
  let video :=
    match params.resolution with
    | some res => filterByResolution video res
    | none => video
  let video :=
    if params.remuxToTs then
      let maxHeight := (video.map (·.height)).foldl max 0
      video.filter fun p => maxHeight ≤ p.height
    else video
  -- highest bandwidth first, so that the best codec of a tier is kept
  let video := retainNew (·.repId) [] (video.mergeSort fun a b => b.bandwidth ≤ a.bandwidth)
  if params.resolution.isSome || params.remuxToTs then video.take 1
  else (retainNew (·.height) [] video).take 5

def audioProfiles (profiles : List RepresentationProfile) : List RepresentationProfile :=
  profiles.filter fun p => isAudio p.mimeType

/-- The id of the default audio profile: English if there is one, else the highest bandwidth. -/
def defaultAudioId (audio : List RepresentationProfile) : Option Str :=
  let english := audio.filter fun p => p.lang.any ("en".toList.isPrefixOf ·)
  ((maxByKey (·.bandwidth) english).or (maxByKey (·.bandwidth) audio)).map (·.id)

/-- The language of an audio entry. -/
def RepresentationProfile.language (p : RepresentationProfile) : Str := p.lang.getD "und".toList

/-- The audio entries: one for each language, the default first, and four at most. -/
def masterAudio (profiles : List RepresentationProfile) : List RepresentationProfile :=
  let audio := audioProfiles profiles
  let isDefault := fun p : RepresentationProfile => some p.id = defaultAudioId audio
  let sorted := audio.mergeSort fun a b =>
    if isDefault a = isDefault b then b.bandwidth ≤ a.bandwidth else isDefault a
  (retainNew RepresentationProfile.language [] sorted).take 4

theorem mem_of_mem_masterAudio {profiles : List RepresentationProfile} {p : RepresentationProfile}
    (h : p ∈ masterAudio profiles) : p ∈ profiles := by
  have hsorted := mem_of_mem_retainNew (List.mem_of_mem_take h)
  exact List.mem_of_mem_filter (List.mem_mergeSort.mp hsorted)

theorem mem_of_mem_filterByResolution {profiles : List RepresentationProfile}
    {p : RepresentationProfile} {target : Str} (h : p ∈ filterByResolution profiles target) :
    p ∈ profiles := by
  unfold filterByResolution at h
  dsimp only at h
  split at h
  · next selected hselected =>
    rw [List.mem_singleton.mp h]
    have hvalid : selected ∈ (profiles.filter fun p => p.height > 0).mergeSort
        fun a b => b.height ≤ a.height := by
      rcases Option.or_eq_some_iff.mp hselected with hfind | ⟨-, hlast⟩
      · exact List.mem_of_find?_eq_some hfind
      · exact List.mem_of_getLast? hlast
    exact List.mem_of_mem_filter (List.mem_mergeSort.mp hvalid)
  · exact h

theorem mem_of_mem_masterVideo {params : MasterParams} {profiles : List RepresentationProfile}
    {p : RepresentationProfile} (h : p ∈ masterVideo params profiles) : p ∈ profiles := by
  unfold masterVideo at h
  dsimp only at h
  -- each step only leaves entries out
  have hnew : ∀ l : List RepresentationProfile, (∀ q ∈ l, q ∈ profiles) →
      p ∈ retainNew (·.repId) [] (l.mergeSort fun a b => b.bandwidth ≤ a.bandwidth) →
      p ∈ profiles :=
    fun l hl hp => hl p (List.mem_mergeSort.mp (mem_of_mem_retainNew hp))
  have hres : ∀ q ∈ (match params.resolution with
      | some res => filterByResolution (profiles.filter fun p => isVideo p.mimeType) res
      | none => profiles.filter fun p => isVideo p.mimeType), q ∈ profiles := by
    intro q hq
    split at hq
    · exact List.mem_of_mem_filter (mem_of_mem_filterByResolution hq)
    · exact List.mem_of_mem_filter hq
  have hts : ∀ l : List RepresentationProfile, (∀ q ∈ l, q ∈ profiles) →
      ∀ q ∈ (if params.remuxToTs then
        l.filter fun p => (l.map (·.height)).foldl max 0 ≤ p.height else l), q ∈ profiles := by
    intro l hl q hq
    split at hq
    · exact hl q (List.mem_of_mem_filter hq)
    · exact hl q hq
  split at h
  · exact hnew _ (hts _ hres) (List.mem_of_mem_take h)
  · exact hnew _ (hts _ hres) (mem_of_mem_retainNew (List.mem_of_mem_take h))

/-! ### The playlist -/

inductive EntryKind
  | audio
  | video
deriving DecidableEq

/-- The entries of the master playlist. -/
def masterEntries (params : MasterParams) (parsed : ParsedMpd) :
    List (EntryKind × RepresentationProfile) :=
  (masterAudio parsed.profiles).map (.audio, ·) ++
    (masterVideo params parsed.profiles).map (.video, ·)

theorem mem_profiles_of_mem_masterEntries {params : MasterParams} {parsed : ParsedMpd}
    {entry : EntryKind × RepresentationProfile} (h : entry ∈ masterEntries params parsed) :
    entry.2 ∈ parsed.profiles := by
  rcases List.mem_append.mp h with h | h
  · obtain ⟨p, hp, rfl⟩ := List.mem_map.mp h
    exact mem_of_mem_masterAudio hp
  · obtain ⟨p, hp, rfl⟩ := List.mem_map.mp h
    exact mem_of_mem_masterVideo hp

section Lines

-- `urlencoding::encode`, and a frame rate with three decimals
variable (encode formatFrameRate : Str → Str) (proxyBase mpdUrl : Str) (params : MasterParams)

/-- The lines of one entry; `audio` are all audio profiles. -/
def entryLines (audio : List RepresentationProfile) (entry : EntryKind × RepresentationProfile) :
    List Str :=
  let profile := entry.2
  let playlistUrl := buildPlaylistUrl encode proxyBase mpdUrl profile.id params
  match entry.1 with
  | .audio =>
    let flag := if some profile.id = defaultAudioId audio then "YES".toList else "NO".toList
    ["#EXT-X-MEDIA:TYPE=AUDIO,GROUP-ID=\"audio\",NAME=\"Audio ".toList ++ profile.language
      ++ " (".toList ++ decimal profile.bandwidth ++ ")\",DEFAULT=".toList ++ flag
      ++ ",AUTOSELECT=".toList ++ flag ++ ",LANGUAGE=\"".toList ++ profile.language
      ++ "\",URI=\"".toList ++ playlistUrl ++ ['"']]
  | .video =>
    let audioCodec := (((audio.find? fun p => some p.id = defaultAudioId audio).or audio.head?).map
      (·.codecs)).filter (· ≠ [])
    let codecs :=
      match audioCodec with
      | some ac => profile.codecs ++ ',' :: ac
      | none => profile.codecs
    ["#EXT-X-STREAM-INF:BANDWIDTH=".toList ++ decimal profile.bandwidth ++ ",RESOLUTION=".toList
      ++ decimal profile.width ++ ['x'] ++ decimal profile.height ++ ",CODECS=\"".toList ++ codecs
      ++ ['"']
      ++ (if params.remuxToTs then []
        else ",FRAME-RATE=".toList ++ formatFrameRate profile.frameRateStr)
      ++ (if audio = [] then [] else ",AUDIO=\"audio\"".toList),
      playlistUrl]

/-- The lines of `build_hls_master`; the source joins them with newlines. -/
def buildHlsMaster (parsed : ParsedMpd) : List Str :=
  ["#EXTM3U".toList, "#EXT-X-VERSION:".toList ++ decimal (if params.remuxToTs then 3 else 6)] ++
    (masterEntries params parsed).flatMap
      (entryLines encode formatFrameRate proxyBase mpdUrl params (audioProfiles parsed.profiles))

end Lines

end MediaFlow
