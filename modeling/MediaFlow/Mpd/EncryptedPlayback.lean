import MediaFlow.Drm.EncryptedMedia
import MediaFlow.Mpd.IndexedPlayback

/-!
# Playing an encrypted file

The subsegments of a `SegmentBase` representation are encrypted, and the player knows a key. The proxy
decrypts each subsegment by itself, with the decrypter that the init segment has set up anew, so a
player receives what was there before encryption (`playsEncryptedFile`).
-/

open ByteString Text UrlCoding

namespace MediaFlow

/-- What a client receives of a body. -/
def DashBody.received : DashBody → Outcome
  | .whole b => .bytes b
  | .streaming items aborted =>
    if aborted then .aborted
    else if items.all fun item => item.isOk then
      .bytes (items.flatMap fun item => item.toOption.getD [])
    else .failed

theorem received_ofYielded (y : Yielded) : (DashBody.ofYielded y).received = streamOutcome y := by
  have hok : (y.items.map fun item => item.mapError MpdError.app).all (fun item => item.isOk) =
      y.items.all fun item => item.isOk := by
    rw [List.all_map]
    refine congrArg y.items.all (funext fun item => ?_)
    cases item <;> rfl
  have hbytes : (y.items.map fun item => item.mapError MpdError.app).flatMap
      (fun item => item.toOption.getD []) = y.bytes := by
    rw [List.flatMap_map]
    refine List.flatMap_congr fun item _ => ?_
    cases item <;> rfl
  unfold DashBody.ofYielded DashBody.received streamOutcome
  dsimp only
  rw [hok, hbytes]

/-- What a player receives from a URL of the proxy. -/
def playerReceives (crates : HeaderCrates) (up : MpdUpstream) (aes : BlockCipher) (web : WebCrates)
    (tokens : TokenCrates) (features : Features) (apiPassword : Str) (now : ℕ) (proxyBase url : Str) :
    Option Outcome :=
  (playerGets crates up aes web tokens features apiPassword now proxyBase url).map
    fun response => response.body.received

/-- A media segment that is encrypted for a decrypter, with what was there before. -/
structure EncryptedSegment (aes : BlockCipher) (s : Mp4Decrypter) where
  boxes : List Mp4Atom
  plain : List Mp4Atom
  encrypted : EncryptedMedia aes s boxes plain
  fits : ∀ a ∈ boxes, a.Fits

namespace EncryptedSegment

variable {aes : BlockCipher} {s : Mp4Decrypter} (segment : EncryptedSegment aes s)

def bytes : Bytes := segment.boxes.flatMap Mp4Atom.pack

def plainBytes : Bytes := segment.plain.flatMap Mp4Atom.pack

end EncryptedSegment

section MainResult

variable {web : WebCrates} {features : Features} {crates : HeaderCrates} {up : MpdUpstream}
  {params : MpdProxyParams} {file : IndexedFile} {docs : DocumentCrates} {nowUnix : ℚ}
  {rep : Representation} {adaptation : AdaptationSet} {base : SegmentBase} {mpdUrl : Str}
  {periodStart depth : ℚ} {duration : Option ℚ} {p : RepresentationProfile}
  {profiles : List IndexedProfile} {last : ℕ} {aes : BlockCipher} {s : Mp4Decrypter}
  {kid key : Str} {cleaned : Bytes} {segments : List (EncryptedSegment aes s)}

/-- The stream of one subsegment. -/
theorem received_of_delivered (hinv : ∀ key b, aes.decryptBlock key (aes.encryptBlock key b) = b)
    (hkeys : (buildKeyMapFromHex kid key).entries ≠ []) {init : Bytes} {includeInit : Bool}
    (hprimed : initPrimed (.new (buildKeyMapFromHex kid key)) init includeInit = some (cleaned, s))
    (segment : EncryptedSegment aes s) {answer : Option DashResponse}
    (h : SubsegmentDelivered aes (some kid) (some key) includeInit init segment.bytes answer) :
    answer.map (fun response => response.body.received) =
      some (.bytes (cleaned ++ segment.plainBytes)) := by
  obtain ⟨response, rfl, chunks, hchunks, hbody⟩ := h
  rw [Option.map_some, hbody, received_ofYielded, streamOutcome_primed hkeys hprimed
    (streamOutcome_of_encrypted hinv segment.encrypted segment.fits hchunks)]
  rfl

/-- **Playing an encrypted file**: from each entry of the playlist a player receives the subsegment as
it was before encryption, behind the init segment if that is not given by a map. -/
theorem playsEncryptedFile (hweb : web.CodesUrls) (hroutes : web.RoutesPaths)
    (hmpd : features.mpd = true) (hcrates : crates.WritesRanges)
    (hnodup : (params.passHeaders.map Prod.fst).Nodup) (hplain : PlainParams params)
    (hindexed : IsIndexed rep adaptation base)
    (hinit : base.initialization.bind (·.range) = some file.initRange)
    (hp : parseRepresentation docs nowUnix rep adaptation mpdUrl false periodStart depth duration
      (some p.id) = some p)
    (hprofiles : profiles.filter (fun q => q.id = p.id) =
      [⟨p.toMpdProfile, some (rangeText file.indexStart last)⟩])
    (hserved : file.Served up (indexedUrl docs.join rep mpdUrl) last)
    (hkeyId : params.keyId = some kid) (hkey : params.key = some key)
    (hkeys : (buildKeyMapFromHex kid key).entries ≠ [])
    (hprimed : initPrimed (.new (buildKeyMapFromHex kid key)) file.init params.remuxToTs =
      some (cleaned, s))
    (hinv : ∀ key b, aes.decryptBlock key (aes.encryptBlock key b) = b)
    (hsegments : file.subsegments = segments.map EncryptedSegment.bytes)
    (tokens : TokenCrates) (now : ℕ) (proxyBase : Str) (startOffset : Option ℚ)
    (configuredDepth : ℕ) (headers : List (Str × Bytes)) :
    ∃ lines, mpdPlaylistLines crates up web.urlencode false profiles p.id proxyBase params startOffset
        configuredDepth headers = .ok lines ∧
      (readEntries false none none lines).map (fun entry =>
          playerReceives crates up aes web tokens features params.apiPassword now proxyBase entry.url) =
        segments.map fun segment => some (.bytes (cleaned ++ segment.plainBytes)) := by
  obtain ⟨lines, mimeType, hlines, hurls, -⟩ := mpdPlaylistLines_indexed hcrates hindexed hinit hp
    hprofiles hserved params web.urlencode proxyBase startOffset configuredDepth headers
  -- each fragment has the bytes of a segment
  have hfragments : List.Forall₂ (fun f segment => f ∈ file.fragments ∧
      fileRange file.bytes f.start f.last = EncryptedSegment.bytes segment) file.fragments segments := by
    rw [List.forall₂_and_left]
    refine ⟨fun f hf => hf, ?_⟩
    have heq := IndexedFile.map_fileRange_fragments.trans hsegments
    rw [← List.forall₂_eq_eq_eq, List.forall₂_map_left_iff, List.forall₂_map_right_iff] at heq
    exact heq
  have hreceived : file.fragments.map (fun f =>
      playerReceives crates up aes web tokens features params.apiPassword now proxyBase
        (fragmentUrl web.urlencode proxyBase params mimeType (indexedUrl docs.join rep mpdUrl)
          file.initRange f)) =
      segments.map fun segment => some (.bytes (cleaned ++ segment.plainBytes)) := by
    rw [← List.forall₂_eq_eq_eq, List.forall₂_map_left_iff, List.forall₂_map_right_iff]
    refine hfragments.imp fun f segment hf => ?_
    have hdelivered := @delivered_fragmentUrl web features crates up aes tokens params file _ last
      hweb hroutes hmpd hcrates hnodup hplain hserved now proxyBase mimeType f hf.1
    rw [hkeyId, hkey, hf.2] at hdelivered
    exact received_of_delivered hinv hkeys hprimed segment hdelivered
  have hentries := congrArg (List.map (playerReceives crates up aes web tokens features
    params.apiPassword now proxyBase)) hurls
  rw [List.map_map, List.map_map] at hentries
  exact ⟨lines, hlines, hentries.trans hreceived⟩

end MainResult

/-! ### A film of one encrypted fragment -/

open Mp4Decrypter

/-- The fragment is `oneTrun`, with an `mdat` of 11 and 21. -/
def encryptedBoxes : List Mp4Atom := [moofOf oneTrun, ⟨.mdat, [11, 21]⟩]

/-- The init segment says nothing of the encryption, and the index lists one subsegment. -/
def encryptedFilm : IndexedFile where
  init := (Mp4Atom.mk .ftyp []).pack
  between := []
  items := []
  index := {
    version := .v0
    flags := 0
    referenceId := 1
    timescale := 1000
    earliestPresentationTime := 0
    firstOffset := 0
    references := [⟨false, 102, 2000, 0⟩]
    count_lt := by decide }
  gap := []
  parts := [encryptedBoxes.flatMap Mp4Atom.pack]
  tail := []
  init_ne := by decide
  items_fit := by decide
  items_ne := by decide
  timescale_pos := by decide
  gap_length := rfl
  sized := .cons ⟨by decide +kernel, by decide +kernel⟩ .nil
  exists_media := ⟨_, List.mem_cons_self, rfl⟩

/-- The same representation, with another range for the init segment. -/
def encryptedBase : SegmentBase := ⟨some ⟨some "0-7".toList⟩⟩

def encryptedRepresentation : Representation :=
  { indexedRepresentation with segmentBase := some encryptedBase }

/-- A key of 16 zero bytes. -/
def zeroKeyParams : MpdProxyParams where
  apiPassword := "pw".toList
  passHeaders := []
  keyId := some (List.replicate 16 "01".toList).flatten
  key := some (List.replicate 32 '0')
  remuxToTs := false

theorem encryptedFilm_served :
    encryptedFilm.Served (rangeServer encryptedFilm.bytes)
      (indexedUrl absoluteDocs.join encryptedRepresentation "http://cdn.example/film.mpd".toList)
      51 where
  index := ⟨by decide +kernel, by decide +kernel⟩
  url_ne := by decide +kernel
  ranges := rangeServer_serves _ (by decide +kernel)
  length_lt := by decide +kernel

theorem initPrimed_zeroKeyed :
    initPrimed (.new (buildKeyMapFromHex (List.replicate 16 "01".toList).flatten (List.replicate 32 '0')))
      encryptedFilm.init false = some ([], zeroKeyed) := by
  have hkeys : buildKeyMapFromHex (List.replicate 16 "01".toList).flatten (List.replicate 32 '0') =
      (∅ : KeyMap).insert (List.replicate 16 1) (List.replicate 16 0) :=
    AList.ext (by decide +kernel)
  have hinit : listAtoms encryptedFilm.init = some [⟨.ftyp, []⟩] := by decide +kernel
  rw [hkeys]
  unfold initPrimed initFromSegment
  rw [hinit]
  rfl

theorem playsEncryptedFile_film :
    ∃ p lines moof', parseRepresentation absoluteDocs 0 encryptedRepresentation plainAdaptation
        "http://cdn.example/film.mpd".toList false 0 0 none (some "0_0_0".toList) = some p ∧
      mpdPlaylistLines utf8Headers (rangeServer encryptedFilm.bytes) standardWeb.urlencode false
        [⟨p.toMpdProfile, some (rangeText encryptedFilm.indexStart 51)⟩] p.id "http://p".toList
        zeroKeyParams none 0 [] = .ok lines ∧
      (readEntries false none none lines).map (fun entry =>
          playerReceives utf8Headers (rangeServer encryptedFilm.bytes) addingOne standardWeb noTokens {}
            "pw".toList 0 "http://p".toList entry.url) =
        [some (.bytes ([] ++ [moof', ⟨.mdat, [10, 20]⟩].flatMap Mp4Atom.pack))] := by
  obtain ⟨p, hp, hid⟩ : ∃ p, parseRepresentation absoluteDocs 0 encryptedRepresentation plainAdaptation
      "http://cdn.example/film.mpd".toList false 0 0 none (some "0_0_0".toList) = some p ∧
      p.id = "0_0_0".toList := ⟨_, rfl, rfl⟩
  have hsome : (processMoof zeroKeyed (moofOf oneTrun)).isSome := by decide +kernel
  obtain ⟨⟨moof', s'⟩, hmoof⟩ := Option.isSome_iff_exists.mp hsome
  have hmedia : EncryptedMedia addingOne zeroKeyed encryptedBoxes [moof', ⟨.mdat, [10, 20]⟩] :=
    @EncryptedMedia.fragment _ _ _ _ _ [] _ _ _ _ _ _ rfl hmoof nofun encryptedFragment_oneTrun
      (.nil s')
  have hfits : ∀ a ∈ encryptedBoxes, a.Fits := by decide +kernel
  have hsegments : encryptedFilm.subsegments =
      [(⟨encryptedBoxes, _, hmedia, hfits⟩ : EncryptedSegment addingOne zeroKeyed)].map
        EncryptedSegment.bytes := rfl
  have hprofiles : [(⟨p.toMpdProfile, some (rangeText encryptedFilm.indexStart 51)⟩ :
      IndexedProfile)].filter (fun q => q.id = p.id) =
        [⟨p.toMpdProfile, some (rangeText encryptedFilm.indexStart 51)⟩] := by
    simp
  have hcrates : utf8Headers.WritesRanges := fun _ _ => rfl
  have hmpd : ({} : Features).mpd = true := rfl
  have hnodup : (zeroKeyParams.passHeaders.map Prod.fst).Nodup := List.nodup_nil
  have hplain : PlainParams zeroKeyParams := ⟨nofun, by decide +kernel, by decide⟩
  have hindexed : IsIndexed encryptedRepresentation plainAdaptation encryptedBase := ⟨rfl, rfl, rfl⟩
  have hinit : encryptedBase.initialization.bind (·.range) = some encryptedFilm.initRange := by
    decide +kernel
  have hkeys : (buildKeyMapFromHex (List.replicate 16 "01".toList).flatten
      (List.replicate 32 '0')).entries ≠ [] := by decide +kernel
  obtain ⟨lines, hlines, hplays⟩ := playsEncryptedFile standardWeb_codesUrls standardWeb_routesPaths
    hmpd hcrates hnodup hplain hindexed hinit (hid ▸ hp) hprofiles encryptedFilm_served rfl rfl
    hkeys initPrimed_zeroKeyed addingOne_decryptBlock hsegments noTokens 0 "http://p".toList none 0 []
  exact ⟨p, lines, moof', hp, hlines, hplays⟩

end MediaFlow
