import MediaFlow.Auth.Bypass
import MediaFlow.Drm.EncryptedMedia
import MediaFlow.Mpd.IndexedFile
import MediaFlow.Mpd.PlaylistReading

/-!
# Playing a file with a segment index

A player reads the media playlist of a `SegmentBase` representation and requests each URL in it from
the proxy. `playsIndexedFile`: what it has then are the subsegments of the file, each once and in
order, decrypted if there are keys; and the init segment through `EXT-X-MAP`, or with MPEG-TS in front
of each subsegment.

A URL carries what the handler needs (`readSegmentQuery_eq`), so the handler asks upstream for the
range that the index gave.
-/

open ByteString Text UrlCoding Routing

namespace MediaFlow

/-! ### Requests -/

section Routes

variable {web : WebCrates} {features : Features} (hroutes : web.RoutesPaths)
  (hmpd : features.mpd = true)

include hroutes hmpd

/-- A path under `/proxy/mpd` is looked up in its scope. -/
theorem routed_mpd {req : Request} {handler : Handler} {values : List Str}
    (hpercent : '%' ∉ req.path)
    (hroot : (rootRoutes ++ [hlsScope]).findSome?
      (Service.recognize standardMatcher (Guard.admits req) .defaultService req.path) = none)
    (hscope : Service.recognize standardMatcher (Guard.admits req) .defaultService req.path mpdScope =
      some (handler, values)) :
    (routed web features req).1 = handler := by
  have hbefore : (rootRoutes ++ whenEnabled features.hls [hlsScope]).findSome?
      (Service.recognize standardMatcher (Guard.admits req) .defaultService req.path) = none := by
    rw [List.findSome?_eq_none_iff] at hroot ⊢
    intro service hservice
    refine hroot service ?_
    rcases List.mem_append.mp hservice with h | h
    · exact List.mem_append_left _ h
    · unfold whenEnabled at h
      split at h
      · exact List.mem_append_right _ h
      · cases h
  unfold routed dispatch routeTable
  rw [hroutes.requote hpercent, hroutes.matcher, hmpd]
  simp only [whenEnabled, if_true, List.append_assoc] at hbefore ⊢
  rw [← List.append_assoc, List.findSome?_append, hbefore, Option.none_or, List.findSome?_append]
  have hmpdScope : [mpdScope].findSome? (Service.recognize standardMatcher (Guard.admits req)
      .defaultService req.path) = some (handler, values) := by
    rw [List.findSome?_cons, hscope]
  rw [hmpdScope]
  rfl

theorem routed_segment (remuxToTs : Bool) (query : Str) (addr : Option Str) (pd : Option ProxyData) :
    (routed web features ⟨.get, ⟨"/proxy/mpd/segment.".toList ++
      (if remuxToTs then "ts".toList else "mp4".toList), query⟩, addr, pd⟩).1 = .mpdSegmentHandler := by
  have hts : '%' ∉ "/proxy/mpd/segment.ts".toList := by decide
  have hmp4 : '%' ∉ "/proxy/mpd/segment.mp4".toList := by decide
  cases remuxToTs with
  | true => exact routed_mpd hroutes hmpd hts rfl rfl
  | false => exact routed_mpd hroutes hmpd hmp4 rfl rfl

theorem routed_init (query : Str) (addr : Option Str) (pd : Option ProxyData) :
    (routed web features ⟨.get, ⟨"/proxy/mpd/init".toList, query⟩, addr, pd⟩).1 = .mpdInitHandler := by
  have hinit : '%' ∉ "/proxy/mpd/init".toList := by decide
  exact routed_mpd hroutes hmpd hinit rfl rfl

end Routes

section Requests

variable {web : WebCrates} {features : Features} {crates : HeaderCrates} {up : MpdUpstream}
  {aes : BlockCipher} {tokens : TokenCrates} {params : MpdProxyParams} (hweb : web.CodesUrls)
  (hroutes : web.RoutesPaths) (hmpd : features.mpd = true)
  (hnodup : (params.passHeaders.map Prod.fst).Nodup) (now : ℕ) (proxyBase initUrl : Str)

include hweb hroutes hmpd hnodup

/-- **The request for a segment** is answered with the body that belongs to the values of its URL. -/
theorem playerGets_segment (segmentUrl mimeType : Str) (isLive useMap : Bool)
    (initRange segInitRange segmentRange : Option Str) :
    ∃ headers contentType,
      playerGets crates up aes web tokens features params.apiPassword now proxyBase
          (buildSegmentUrl web.urlencode proxyBase initUrl segmentUrl mimeType isLive useMap initRange
            segInitRange segmentRange params) =
        (segmentBody crates up aes
          { initUrl, segmentUrl, mimeType, useMap, isLive
            segmentRange := nonemptyValue segmentRange
            initRange := segInitRange.or initRange
            keyId := nonemptyValue params.keyId
            key := nonemptyValue params.key } headers).bind fun result =>
          (result.map (segmentResponse contentType)).toOption := by
  have hnames := segmentValues_plain initUrl segmentUrl mimeType isLive useMap
    (segInitRange.or initRange) segmentRange params
  have hpath := handledPath_segment params
  have hcall := call_valueQuery hpath hnames hweb hnodup 
    (List.mem_of_getElem? (i := 4) rfl) (by simp [segmentValues]) tokens now .get none
  have hread := readSegmentQuery_eq hweb hnodup initUrl segmentUrl mimeType isLive useMap
    (segInitRange.or initRange) segmentRange
  have huri := @requestUri_eq _ _ params.passHeaders hpath hnames proxyBase
  rw [hweb.urlencode, buildSegmentUrl_eq]
  -- nothing else is used of the query
  generalize valueQuery (segmentValues initUrl segmentUrl mimeType isLive useMap
    (segInitRange.or initRange) segmentRange params) params.passHeaders = query at hcall hread huri ⊢
  refine ⟨buildRequestHeaders crates (storedProxyData web query),
    mimeTypeToContentType mimeType (formValue web query "remux_to_ts".toList), ?_⟩
  unfold playerGets
  rw [huri, Option.bind_eq_bind, Option.bind_some, hcall]
  dsimp only [Except.toOption, Option.bind_eq_bind, Option.bind_some, Request.queryString]
  rw [routed_segment hroutes hmpd]
  dsimp only
  unfold mpdSegmentHandler
  rw [hread]
  dsimp only
  rw [Option.bind_map]
  rfl

/-- **The request for an init segment.** -/
theorem playerGets_init {mimeType : Str} {initRange : Option Str} {init : Bytes}
    (hfetch : ∀ headers, fetchWithRange crates up initUrl initRange headers = .ok init) :
    ∃ contentType, playerGets crates up aes web tokens features params.apiPassword now proxyBase
          (buildInitUrl web.urlencode proxyBase initUrl mimeType initRange params) =
        (processedInit (nonemptyValue params.keyId) (nonemptyValue params.key) init).bind fun result =>
          (result.map (initResponse contentType)).toOption := by
  have hnames := initValues_plain initUrl mimeType initRange params
  have hcall := call_valueQuery handledPath_init hnames hweb hnodup 
    (List.mem_of_getElem? (i := 2) rfl) (by simp [initValues]) tokens now .get none
  have hread := readInitQuery_eq hweb hnodup initUrl mimeType initRange
  have huri := @requestUri_eq _ _ params.passHeaders handledPath_init hnames proxyBase
  rw [hweb.urlencode, buildInitUrl_eq]
  generalize valueQuery (initValues initUrl mimeType initRange params) params.passHeaders = query
    at hcall hread huri ⊢
  refine ⟨mimeTypeToContentType mimeType (formValue web query "remux_to_ts".toList), ?_⟩
  unfold playerGets
  rw [huri, Option.bind_eq_bind, Option.bind_some, hcall]
  dsimp only [Except.toOption, Option.bind_eq_bind, Option.bind_some, Request.queryString]
  rw [routed_init hroutes hmpd]
  dsimp only
  unfold mpdInitHandler
  rw [hread]
  dsimp only
  rw [hfetch]
  dsimp only
  rw [Option.bind_map]
  refine Option.bind_congr fun result _ => ?_
  cases result with
  | ok bytes => rfl
  | error msg => rfl

end Requests

/-! ### The presentation -/

/-- A representation with a segment base, and with neither a template nor a list. -/
structure IsIndexed (rep : Representation) (adaptation : AdaptationSet) (base : SegmentBase) :
    Prop where
  template : templateOf rep adaptation = none
  list : rep.segmentList.or adaptation.segmentList = none
  base : rep.segmentBase = some base

/-- The URL of the file of such a representation. -/
def indexedUrl (join : Str → Str → Option Str) (rep : Representation) (mpdUrl : Str) : Str :=
  resolveUrl join mpdUrl (rep.baseUrl.getD [])

/-- What the profile of such a representation says of its file. -/
structure ProfileOfFile (p : MpdProfile) (url : Str) (initRange : Option Str) : Prop where
  initUrl_eq : p.initUrl = some url
  initRange_eq : p.initRange = initRange
  segments_eq : ∃ segment, p.segments = [segment] ∧ segment.media = url ∧ segment.initRange = initRange

theorem profileOfFile {docs : DocumentCrates} {nowUnix : ℚ} {rep : Representation}
    {adaptation : AdaptationSet} {base : SegmentBase} {mpdUrl : Str} {isLive : Bool}
    {periodStart depth : ℚ} {duration : Option ℚ} {p : RepresentationProfile}
    (hindexed : IsIndexed rep adaptation base)
    (hp : parseRepresentation docs nowUnix rep adaptation mpdUrl isLive periodStart depth duration
      (some p.id) = some p) :
    ProfileOfFile p.toMpdProfile (indexedUrl docs.join rep mpdUrl)
      (base.initialization.bind (·.range)) := by
  have hsegments (profile : MpdProfile) (baseUrl : Str) (n timescale : ℕ) :
      generateSegments docs nowUnix profile rep adaptation mpdUrl baseUrl isLive periodStart depth
        duration n timescale = generateFromBase docs base rep mpdUrl duration := by
    unfold generateSegments
    rw [hindexed.template, hindexed.list, hindexed.base]
  have hinit (baseUrl repId : Str) (bandwidth : ℕ) :
      computeInitUrl docs rep adaptation mpdUrl baseUrl repId bandwidth =
        (some (indexedUrl docs.join rep mpdUrl), base.initialization.bind (·.range)) := by
    unfold computeInitUrl
    rw [hindexed.template, hindexed.list, hindexed.base]
    rfl
  unfold parseRepresentation at hp
  dsimp only at hp
  rw [hinit, hsegments] at hp
  split at hp
  · cases hp
  · dsimp only at hp
    split at hp
    · rw [← Option.some.inj hp]
      exact ⟨rfl, rfl, _, rfl, rfl, rfl⟩
    · next hid =>
      refine absurd ?_ hid
      rw [← Option.some.inj hp]
      exact .inr rfl

namespace IndexedFile

/-- The range of the init segment. -/
def initRange (file : IndexedFile) : Str := rangeText 0 (file.init.length - 1)

/-- The file is served at a URL, and the range of its index ends at `last`. -/
structure Served (file : IndexedFile) (up : MpdUpstream) (url : Str) (last : ℕ) : Prop where
  index : file.IndexRange last
  url_ne : url ≠ []
  ranges : ServesRanges up url file.bytes
  length_lt : file.bytes.length < 2 ^ 63

theorem fileRange_init (file : IndexedFile) :
    fileRange file.bytes 0 (file.init.length - 1) = file.init := by
  have hbytes : file.bytes = [] ++ (file.init ++ (file.between ++
      (file.indexBoxes ++ (file.gap ++ (file.parts.flatten ++ file.tail))))) := by
    rw [bytes, List.append_assoc, List.nil_append]
  have hinit := @fileRange_append [] _ file.init_ne (file.between ++
    (file.indexBoxes ++ (file.gap ++ (file.parts.flatten ++ file.tail))))
  rw [List.length_nil, Nat.zero_add] at hinit
  rw [hbytes, hinit]

theorem init_inside (file : IndexedFile) : file.init.length - 1 < file.bytes.length := by
  have hpos := List.length_pos_iff.mpr file.init_ne
  rw [bytes, List.length_append, List.length_append]
  omega

end IndexedFile

/-! ### What a player has -/

/-- What a player is to have of a subsegment, with the init segment in front of it or not: the bytes
as they are, or what is decrypted of them, in chunks as they come from upstream. -/
def SubsegmentDelivered (aes : BlockCipher) (keyId key : Option Str) (includeInit : Bool)
    (init subsegment : Bytes) (answer : Option DashResponse) : Prop :=
  ∃ response, answer = some response ∧
    match keyId, key with
    | some kid, some key => ∃ chunks : List Bytes, chunks.flatten = subsegment ∧
        response.body =
          .ofYielded (decryptSegmentStreaming aes init (chunks.map .ok) kid key includeInit)
    | _, _ => response.body = .whole (if includeInit then init ++ subsegment else subsegment)

section Delivery

variable {web : WebCrates} {features : Features} {crates : HeaderCrates} {up : MpdUpstream}
  {aes : BlockCipher} {tokens : TokenCrates} {params : MpdProxyParams} {file : IndexedFile}
  {url : Str} {last : ℕ} (hweb : web.CodesUrls) (hroutes : web.RoutesPaths)
  (hmpd : features.mpd = true) (hcrates : crates.WritesRanges)
  (hnodup : (params.passHeaders.map Prod.fst).Nodup) (hplain : PlainParams params)
  (hserved : file.Served up url last) (now : ℕ) (proxyBase : Str)

include hcrates hserved in
/-- The init segment is fetched. -/
theorem fetchWithRange_init (headers : List (Str × Bytes)) :
    fetchWithRange crates up url (some file.initRange) headers = .ok file.init := by
  rw [IndexedFile.initRange, fetchWithRange_eq hcrates hserved.ranges (Nat.zero_le _)
    file.init_inside headers, file.fileRange_init]

include hcrates hserved hplain in
/-- **What is sent for a range** of the file. -/
theorem segmentBody_range {first : ℕ} {final : ℕ} (hle : first ≤ final)
    (hlt : final < file.bytes.length) (mimeType : Str) (useMap isLive : Bool)
    (headers : List (Str × Bytes)) (contentType : Str) :
    SubsegmentDelivered aes params.keyId params.key (!useMap) file.init
      (fileRange file.bytes first final)
      ((segmentBody crates up aes
        { initUrl := url, segmentUrl := url, mimeType, useMap, isLive
          segmentRange := nonemptyValue (some (rangeText first final))
          initRange := some file.initRange
          keyId := nonemptyValue params.keyId
          key := nonemptyValue params.key } headers).bind fun result =>
        (result.map (segmentResponse contentType)).toOption) := by
  have hrange : nonemptyValue (some (rangeText first final)) = some (rangeText first final) :=
    nonemptyValue_eq_self_iff.mpr fun h => rangeText_ne_nil _ _ (Option.some.inj h)
  have hfetch := fetchWithRange_eq hcrates hserved.ranges hle hlt headers
  obtain ⟨chunks, hstream, hchunks⟩ := createStream_withRange hcrates hserved.ranges hle hlt headers
  rw [hrange, nonemptyValue_eq_self_iff.mpr hplain.keyId, nonemptyValue_eq_self_iff.mpr hplain.key]
  unfold segmentBody SubsegmentDelivered
  dsimp only
  rw [fetchWithRange_init hcrates hserved headers, hfetch]
  -- without a key of both kinds nothing is decrypted
  have hplainBody : ∀ useMap : Bool, (if useMap = true ∨ file.init = [] then
      fileRange file.bytes first final else file.init ++ fileRange file.bytes first final) =
      if (!useMap) = true then file.init ++ fileRange file.bytes first final
      else fileRange file.bytes first final := by
    intro useMap
    cases useMap with
    | true => rfl
    | false => simp [file.init_ne]
  cases params.keyId with
  | none => exact ⟨_, rfl, congrArg DashBody.whole (hplainBody useMap)⟩
  | some kid =>
    cases params.key with
    | none => exact ⟨_, rfl, congrArg DashBody.whole (hplainBody useMap)⟩
    | some key =>
      refine ⟨_, rfl, chunks, hchunks, ?_⟩
      show decryptedStream crates up aes _ kid key (rangeText first final) _ headers = _
      unfold decryptedStream
      dsimp only
      rw [hstream]
      rfl

/-- The URL of a fragment. -/
def fragmentUrl (encode : Str → Str) (proxyBase : Str) (params : MpdProxyParams)
    (mimeType url initRange : Str) (f : SidxFragment) : Str :=
  buildSegmentUrl encode proxyBase url url mimeType false (!params.remuxToTs) (some initRange)
    (some initRange) (some (rangeText f.start f.last)) params

include hweb hroutes hmpd hcrates hnodup hplain hserved in
/-- **A fragment is delivered** when its URL is requested. -/
theorem delivered_fragmentUrl (mimeType : Str) {f : SidxFragment} (hf : f ∈ file.fragments) :
    SubsegmentDelivered aes params.keyId params.key params.remuxToTs file.init
      (fileRange file.bytes f.start f.last)
      (playerGets crates up aes web tokens features params.apiPassword now proxyBase
        (fragmentUrl web.urlencode proxyBase params mimeType url file.initRange f)) := by
  obtain ⟨hle, hlt⟩ := IndexedFile.fragments_inside f hf
  obtain ⟨headers, contentType, hgets⟩ := @playerGets_segment web features crates up aes tokens params
    hweb hroutes hmpd hnodup now proxyBase url url mimeType false (!params.remuxToTs)
    (some file.initRange) (some file.initRange) (some (rangeText f.start f.last))
  have hbody := @segmentBody_range crates up aes params file url last hcrates hplain hserved _ _ hle hlt
    mimeType (!params.remuxToTs) false headers contentType
  rw [Bool.not_not] at hbody
  unfold fragmentUrl
  rw [hgets]
  exact hbody

include hweb hroutes hmpd hcrates hnodup hplain hserved in
/-- **The init segment is delivered** when the URL of the map is requested. -/
theorem delivered_initUrl (aes : BlockCipher) (mimeType : Str) :
    ∃ contentType, playerGets crates up aes web tokens features params.apiPassword now proxyBase
        (buildInitUrl web.urlencode proxyBase url mimeType (some file.initRange) params) =
      (processedInit params.keyId params.key file.init).bind fun result =>
        (result.map (initResponse contentType)).toOption := by
  have hinit := @playerGets_init web features crates up aes tokens params hweb hroutes hmpd hnodup now
    proxyBase url mimeType _ _ (fetchWithRange_init hcrates hserved)
  rwa [nonemptyValue_eq_self_iff.mpr hplain.keyId, nonemptyValue_eq_self_iff.mpr hplain.key] at hinit

end Delivery

/-! ### The playlist -/

theorem map_url_writtenEntries (encode : Str → Str) (isLive : Bool) (proxyBase : Str)
    (params : MpdProxyParams) (current map : Option Str) (kept : List (Bool × PlacedSegment)) :
    (writtenEntries encode isLive proxyBase params current map kept).map PlaylistEntry.url =
      kept.map fun b => dashSegmentUrl encode isLive proxyBase params b.2.pair := by
  induction kept generalizing current map with
  | nil => rfl
  | cons b kept ih =>
    rw [writtenEntries, List.map_cons, ih, List.map_cons]
    rfl

/-- The map of the segments of a profile. -/
def profileMap (encode : Str → Str) (proxyBase : Str) (params : MpdProxyParams)
    (profile : MpdProfile) (url : Str) : Option Str :=
  if params.remuxToTs then none
  else some ("#EXT-X-MAP:URI=\"".toList ++
    buildInitUrl encode proxyBase url profile.mimeType profile.initRange params ++ ['"'])

/-- It is in force from the first of them on. -/
theorem map_writtenEntries {encode : Str → Str} {isLive : Bool} {proxyBase : Str}
    {params : MpdProxyParams} {profile : MpdProfile} {url : Str} (hinit : profile.initUrl = some url)
    (hurl : url ≠ []) {current map : Option Str} {kept : List (Bool × PlacedSegment)}
    (hkept : ∀ b ∈ kept, b.2.profile = profile)
    (hstate : current = none ∧ map = none ∨
      current = some url ∧ map = profileMap encode proxyBase params profile url) :
    ∀ entry ∈ writtenEntries encode isLive proxyBase params current map kept,
      entry.map = profileMap encode proxyBase params profile url := by
  induction kept generalizing current map with
  | nil => exact List.forall_mem_nil _
  | cons b kept ih =>
    obtain ⟨skipped, p⟩ := b
    obtain ⟨hp, hrest⟩ := List.forall_mem_cons.mp hkept
    have hp : p.profile = profile := hp
    have hpinit : p.initUrl = url := by
      unfold PlacedSegment.initUrl
      rw [hp, hinit]
      rfl
    have hchanges : InitChanges params current p ↔ params.remuxToTs = false ∧ some url ≠ current := by
      unfold InitChanges
      rw [hpinit]
    have hmapLine : profileMap encode proxyBase params profile url =
        if params.remuxToTs then none else some (mapLine encode proxyBase params p) := by
      unfold profileMap mapLine
      rw [hpinit, hp]
    have hnext : nextMap encode proxyBase params current map p =
          profileMap encode proxyBase params profile url ∧
        (nextInit params current p = current ∧ params.remuxToTs = true ∨
          nextInit params current p = some url) := by
      unfold nextMap nextInit
      rw [hmapLine] at hstate ⊢
      simp only [hchanges, hpinit]
      generalize mapLine encode proxyBase params p = line at hstate ⊢
      rcases hstate with ⟨rfl, rfl⟩ | ⟨rfl, rfl⟩
      · cases params.remuxToTs <;> simp [hurl]
      · simp
    obtain ⟨hmap, hcurrent⟩ := hnext
    rw [writtenEntries]
    refine List.forall_mem_cons.mpr ⟨hmap, ih hrest ?_⟩
    rw [hmap]
    rcases hcurrent with ⟨hsame, hts⟩ | hsame
    · have hnone : profileMap encode proxyBase params profile url = none := if_pos hts
      rw [hsame, hnone]
      rcases hstate with ⟨rfl, -⟩ | ⟨rfl, -⟩
      · exact .inl ⟨rfl, rfl⟩
      · exact .inr ⟨rfl, rfl⟩
    · exact .inr ⟨hsame, rfl⟩

/-- All segments of one profile are listed. -/
theorem readEntries_onDemand (encode : Str → Str) (proxyBase : Str) (params : MpdProxyParams)
    (profile : MpdProfile) (startOffset : Option ℚ) (configuredDepth : ℕ) :
    readEntries false none none (buildHlsMediaPlaylist encode false proxyBase params [profile] []
        startOffset configuredDepth) =
      writtenEntries encode false proxyBase params none none
        (profile.segments.map fun segment => (false, ⟨0, segment, profile⟩)) := by
  have htrimmed : trimmedPlaced false params startOffset configuredDepth [profile] =
      placedSegments [profile] := by
    unfold trimmedPlaced trimmedSegments
    simp
  have hplaced : placedSegments [profile] =
      profile.segments.map fun segment => ⟨0, segment, profile⟩ := by
    simp [placedSegments]
  rw [readEntries_buildHlsMediaPlaylist, listedSegments, keptSegments_no_ranges, htrimmed, hplaced,
    List.map_map]
  rfl

/-- The URLs of the entries are those of the fragments. -/
theorem urls_onDemand (encode : Str → Str) (proxyBase : Str) (params : MpdProxyParams)
    {profile : MpdProfile} {url initRange : Str} {segment : MpdSegment}
    {fragments : List SidxFragment} (hinitUrl : profile.initUrl = some url)
    (hinitRange : profile.initRange = some initRange)
    (hsegments : profile.segments = fragmentSegments segment fragments)
    (hmedia : segment.media = url) (hsegmentInit : segment.initRange = some initRange)
    (startOffset : Option ℚ) (configuredDepth : ℕ) :
    (readEntries false none none (buildHlsMediaPlaylist encode false proxyBase params [profile] []
        startOffset configuredDepth)).map PlaylistEntry.url =
      fragments.map (fragmentUrl encode proxyBase params profile.mimeType url initRange) := by
  have hurl : ∀ f : SidxFragment × ℕ, dashSegmentUrl encode false proxyBase params
      (fragmentSegment segment f.1 f.2, profile) =
        fragmentUrl encode proxyBase params profile.mimeType url initRange f.1 := by
    intro f
    unfold dashSegmentUrl fragmentUrl
    dsimp only [fragmentSegment]
    rw [hinitUrl, hinitRange, hmedia, hsegmentInit, Bool.and_self]
    rfl
  rw [readEntries_onDemand, map_url_writtenEntries, hsegments, fragmentSegments, List.map_map,
    List.map_map]
  conv_rhs => rw [← List.zipIdx_map_fst 0 fragments, List.map_map]
  exact List.map_congr_left fun f _ => hurl f

/-! ### The main result -/

section MainResult

variable {web : WebCrates} {features : Features} {crates : HeaderCrates} {up : MpdUpstream}
  {params : MpdProxyParams} {file : IndexedFile} {docs : DocumentCrates} {nowUnix : ℚ}
  {rep : Representation} {adaptation : AdaptationSet} {base : SegmentBase} {mpdUrl : Str}
  {periodStart depth : ℚ} {duration : Option ℚ} {p : RepresentationProfile}
  {profiles : List IndexedProfile} {last : ℕ}

section Lines

variable (hcrates : crates.WritesRanges) (hindexed : IsIndexed rep adaptation base)
  (hinit : base.initialization.bind (·.range) = some file.initRange)
  (hp : parseRepresentation docs nowUnix rep adaptation mpdUrl false periodStart depth duration
    (some p.id) = some p)
  (hprofiles : profiles.filter (fun q => q.id = p.id) =
    [⟨p.toMpdProfile, some (rangeText file.indexStart last)⟩])
  (hserved : file.Served up (indexedUrl docs.join rep mpdUrl) last)

include hcrates hindexed hinit hp hprofiles hserved

/-- The entries of the playlist are the fragments of the index. -/
theorem mpdPlaylistLines_indexed (params : MpdProxyParams) (encode : Str → Str) (proxyBase : Str)
    (startOffset : Option ℚ) (configuredDepth : ℕ) (headers : List (Str × Bytes)) :
    ∃ lines mimeType, mpdPlaylistLines crates up encode false profiles p.id proxyBase params startOffset
        configuredDepth headers = .ok lines ∧
      (readEntries false none none lines).map PlaylistEntry.url = file.fragments.map
        (fragmentUrl encode proxyBase params mimeType (indexedUrl docs.join rep mpdUrl) file.initRange) ∧
      ∀ entry ∈ readEntries false none none lines, entry.map = if params.remuxToTs then none else
        some ("#EXT-X-MAP:URI=\"".toList ++ buildInitUrl encode proxyBase
          (indexedUrl docs.join rep mpdUrl) mimeType (some file.initRange) params ++ ['"']) := by
  obtain ⟨hinitUrl, hinitRange, segment, hsegments, hmedia, hsegmentInit⟩ := profileOfFile hindexed hp
  rw [hinit] at hinitRange hsegmentInit
  have hranges : ServesRanges up segment.media file.bytes := hmedia ▸ hserved.ranges
  have hexpanded := @expandSegmentBaseSegments_eq _ _ _
    ⟨p.toMpdProfile, some (rangeText file.indexStart last)⟩ _ _ hcrates hranges hserved.length_lt
    hsegments hserved.index rfl headers
  -- the profile that the playlist is made of
  obtain ⟨expanded, hprofile⟩ : ∃ q : MpdProfile, q =
    { p.toMpdProfile with segments := fragmentSegments segment file.fragments } := ⟨_, rfl⟩
  have hexpandedUrl : expanded.initUrl = some (indexedUrl docs.join rep mpdUrl) := hprofile ▸ hinitUrl
  have hexpandedRange : expanded.initRange = some file.initRange := hprofile ▸ hinitRange
  have hexpandedSegments : expanded.segments = fragmentSegments segment file.fragments :=
    hprofile ▸ rfl
  refine ⟨buildHlsMediaPlaylist encode false proxyBase params [expanded] [] startOffset
    configuredDepth, expanded.mimeType, ?_, ?_, fun entry hentry => ?_⟩
  · unfold mpdPlaylistLines
    rw [hprofiles, List.map_singleton, hexpanded, hprofile]
    rfl
  · exact urls_onDemand encode proxyBase params hexpandedUrl hexpandedRange hexpandedSegments hmedia
      hsegmentInit startOffset configuredDepth
  · rw [readEntries_onDemand] at hentry
    have hmap := map_writtenEntries hexpandedUrl hserved.url_ne
      (List.forall_mem_map.mpr fun _ _ => rfl) (.inl ⟨rfl, rfl⟩) entry hentry
    rwa [profileMap, hexpandedRange] at hmap

end Lines

/-- **Playing an indexed file**: the entries of the playlist are the subsegments of the file, each once
and in order; and all have the map of the init segment, or none with MPEG-TS. -/
theorem playsIndexedFile (hweb : web.CodesUrls) (hroutes : web.RoutesPaths)
    (hmpd : features.mpd = true) (hcrates : crates.WritesRanges)
    (hnodup : (params.passHeaders.map Prod.fst).Nodup) (hplain : PlainParams params)
    (hindexed : IsIndexed rep adaptation base)
    (hinit : base.initialization.bind (·.range) = some file.initRange)
    (hp : parseRepresentation docs nowUnix rep adaptation mpdUrl false periodStart depth duration
      (some p.id) = some p)
    (hprofiles : profiles.filter (fun q => q.id = p.id) =
      [⟨p.toMpdProfile, some (rangeText file.indexStart last)⟩])
    (hserved : file.Served up (indexedUrl docs.join rep mpdUrl) last)
    (aes : BlockCipher) (tokens : TokenCrates) (now : ℕ) (proxyBase : Str) (startOffset : Option ℚ)
    (configuredDepth : ℕ) (headers : List (Str × Bytes)) :
    ∃ lines, mpdPlaylistLines crates up web.urlencode false profiles p.id proxyBase params startOffset
        configuredDepth headers = .ok lines ∧
      List.Forall₂ (fun entry subsegment =>
          SubsegmentDelivered aes params.keyId params.key params.remuxToTs file.init subsegment
            (playerGets crates up aes web tokens features params.apiPassword now proxyBase entry.url))
        (readEntries false none none lines) file.subsegments ∧
      ∀ entry ∈ readEntries false none none lines,
        if params.remuxToTs then entry.map = none
        else ∃ url contentType, entry.map = some ("#EXT-X-MAP:URI=\"".toList ++ url ++ ['"']) ∧
          playerGets crates up aes web tokens features params.apiPassword now proxyBase url =
            (processedInit params.keyId params.key file.init).bind fun result =>
              (result.map (initResponse contentType)).toOption := by
  obtain ⟨lines, mimeType, hlines, hurls, hmaps⟩ := mpdPlaylistLines_indexed hcrates hindexed
    hinit hp hprofiles hserved params web.urlencode proxyBase startOffset configuredDepth headers
  refine ⟨lines, hlines, ?_, fun entry hentry => ?_⟩
  · have hdelivered : List.Forall₂ (fun entryUrl subsegment =>
        SubsegmentDelivered aes params.keyId params.key params.remuxToTs file.init subsegment
          (playerGets crates up aes web tokens features params.apiPassword now proxyBase entryUrl))
        (file.fragments.map (fragmentUrl web.urlencode proxyBase params mimeType
          (indexedUrl docs.join rep mpdUrl) file.initRange)) file.subsegments := by
      rw [← IndexedFile.map_fileRange_fragments, List.forall₂_map_left_iff,
        List.forall₂_map_right_iff, List.forall₂_same]
      exact fun f hf => delivered_fragmentUrl hweb hroutes hmpd hcrates hnodup hplain hserved now
        proxyBase mimeType hf
    rw [← hurls, List.forall₂_map_left_iff] at hdelivered
    exact hdelivered
  · have hmap := hmaps entry hentry
    split
    · next hts => rw [hmap, if_pos hts]
    · next hts =>
      obtain ⟨contentType, hgets⟩ := @delivered_initUrl web features crates up tokens params file _ last
        hweb hroutes hmpd hcrates hnodup hplain hserved now proxyBase aes mimeType
      rw [if_neg hts] at hmap
      exact ⟨_, contentType, hmap, hgets⟩

end MainResult

/-! ### A short film -/

def readRange (s : Str) : Option (ℕ × ℕ) := do
  let (first, last) ← splitOnce '-' s
  return (← parseU64 first, ← parseU64 last)

/-- The range that is asked for. -/
def requestedRange (headers : List (Str × Bytes)) : Option (ℕ × ℕ) := do
  let value ← headers.lookup rangeName
  readRange (← stripPrefix "bytes=".toList (← fromUtf8 value))

/-- A server of one file, which sends a range in two chunks. -/
def rangeServer (file : Bytes) : MpdUpstream where
  fetchBytes _ headers := .ok ((requestedRange headers).elim file fun r => fileRange file r.1 r.2)
  createStream _ headers :=
    let body := (requestedRange headers).elim file fun r => fileRange file r.1 r.2
    .ok (some [.ok (body.take 1), .ok (body.drop 1)])

theorem readRange_rangeText {first last : ℕ} (hfirst : first < 2 ^ 64) (hlast : last < 2 ^ 64) :
    readRange (rangeText first last) = some (first, last) := by
  have hread : ∀ n < 2 ^ 64, parseU64 (decimal n) = some n := fun n hn => by
    have := (numeral n).parseU64_text
    rwa [numeral_text, numeral_value, if_pos hn] at this
  have hdash : '-' ∉ decimal first := (numeral first).not_mem (by decide)
  unfold readRange rangeText
  rw [splitOnce_of_not_mem hdash]
  simp only [Option.bind_eq_bind, Option.bind_some, hread first hfirst, hread last hlast]
  rfl

theorem rangeServer_serves (url : Str) {file : Bytes} (hlen : file.length < 2 ^ 64) :
    ServesRanges (rangeServer file) url file := by
  have hrequested : ∀ {headers : List (Str × Bytes)} {first last : ℕ}, first ≤ last →
      last < file.length →
      headers.lookup rangeName = some (utf8 ("bytes=".toList ++ rangeText first last)) →
      requestedRange headers = some (first, last) := by
    intro headers first last hle hlt hheader
    unfold requestedRange
    rw [hheader, Option.bind_eq_bind, Option.bind_some, fromUtf8_utf8, Option.bind_eq_bind,
      Option.bind_some, stripPrefix_append, Option.bind_some]
    exact readRange_rangeText (by omega) (by omega)
  constructor
  · intro headers first last hle hlt hheader
    have hrange := hrequested hle hlt hheader
    simp only [rangeServer, hrange, Option.elim_some]
  · intro headers first last hle hlt hheader
    refine ⟨[(fileRange file first last).take 1, (fileRange file first last).drop 1], ?_, ?_⟩
    · have hrange := hrequested hle hlt hheader
      simp only [rangeServer, hrange, Option.elim_some]
      rfl
    · rw [List.flatten_cons, List.flatten_cons, List.flatten_nil, List.append_nil,
        List.take_append_drop]

/-- Two subsegments, with a further index between them. -/
def indexedFilm : IndexedFile where
  init := [1, 2]
  between := []
  items := [⟨.lit 's' 't' 'y' 'p', []⟩]
  index := {
    version := .v0
    flags := 0
    referenceId := 1
    timescale := 1000
    earliestPresentationTime := 0
    firstOffset := 1
    references := [⟨false, 2, 2000, 0⟩, ⟨true, 1, 0, 0⟩, ⟨false, 3, 2000, 0⟩]
    count_lt := by decide }
  gap := [0]
  parts := [[5, 6], [0], [7, 8, 9]]
  tail := []
  init_ne := by decide
  items_fit := by decide
  items_ne := by decide
  timescale_pos := by decide
  gap_length := rfl
  sized := .cons ⟨rfl, by decide⟩ (.cons ⟨rfl, by decide⟩ (.cons ⟨rfl, by decide⟩ .nil))
  exists_media := ⟨_, List.mem_cons_self, rfl⟩

def filmBase : SegmentBase := ⟨some ⟨some "0-1".toList⟩⟩

def indexedRepresentation : Representation where
  id := none
  mimeType := some "video/mp4".toList
  codecs := none
  bandwidth := none
  width := none
  height := none
  frameRate := none
  lang := none
  segmentTemplate := none
  segmentList := none
  segmentBase := some filmBase
  baseUrl := some "http://cdn.example/film.mp4".toList

def plainAdaptation : AdaptationSet where
  id := none
  mimeType := none
  codecs := none
  lang := none
  width := none
  height := none
  bandwidth := none
  maxFrameRate := none
  frameRate := none
  segmentTemplate := none
  segmentList := none
  representations := [indexedRepresentation]

def absoluteDocs : DocumentCrates where
  join _ s := some s
  unixToIso8601 _ := none
  parseDatetimeToUnix _ := none

def utf8Headers : HeaderCrates := ⟨some, fun s => some (utf8 s)⟩

/-- The index ends at byte 77. -/
theorem indexedFilm_served :
    indexedFilm.Served (rangeServer indexedFilm.bytes)
      (indexedUrl absoluteDocs.join indexedRepresentation "http://cdn.example/film.mpd".toList) 77 where
  index := ⟨by decide +kernel, by decide +kernel⟩
  url_ne := by decide +kernel
  ranges := rangeServer_serves _ (by decide +kernel)
  length_lt := by decide +kernel

example : indexedFilm.subsegments = [[5, 6], [7, 8, 9]] := by decide

/-- With keys, and with a header for upstream. -/
theorem playsIndexedFile_film :
    ∃ p lines, parseRepresentation absoluteDocs 0 indexedRepresentation plainAdaptation
        "http://cdn.example/film.mpd".toList false 0 0 none (some "0_0_0".toList) = some p ∧
      mpdPlaylistLines utf8Headers (rangeServer indexedFilm.bytes) standardWeb.urlencode false
        [⟨p.toMpdProfile, some (rangeText indexedFilm.indexStart 77)⟩] p.id "http://p".toList
        (paramsWithHeader "user-agent".toList) none 0 [] = .ok lines ∧
      List.Forall₂ (fun entry subsegment => SubsegmentDelivered addingOne (some "01".toList)
          (some "23".toList) false [1, 2] subsegment
          (playerGets utf8Headers (rangeServer indexedFilm.bytes) addingOne standardWeb noTokens {}
            "pw".toList 0 "http://p".toList entry.url))
        (readEntries false none none lines) indexedFilm.subsegments := by
  obtain ⟨p, hp, hid⟩ : ∃ p, parseRepresentation absoluteDocs 0 indexedRepresentation plainAdaptation
      "http://cdn.example/film.mpd".toList false 0 0 none (some "0_0_0".toList) = some p ∧
      p.id = "0_0_0".toList := ⟨_, rfl, rfl⟩
  have hprofiles : [(⟨p.toMpdProfile, some (rangeText indexedFilm.indexStart 77)⟩ : IndexedProfile)].filter
      (fun q => q.id = p.id) = [⟨p.toMpdProfile, some (rangeText indexedFilm.indexStart 77)⟩] := by
    simp
  have hcrates : utf8Headers.WritesRanges := fun _ _ => rfl
  have hplain : PlainParams (paramsWithHeader "user-agent".toList) :=
    ⟨by decide +kernel, by decide, by decide⟩
  have hindexed : IsIndexed indexedRepresentation plainAdaptation filmBase := ⟨rfl, rfl, rfl⟩
  have hinit : filmBase.initialization.bind (·.range) = some indexedFilm.initRange := by decide +kernel
  have hmpd : ({} : Features).mpd = true := rfl
  obtain ⟨lines, hlines, hplays, -⟩ := playsIndexedFile standardWeb_codesUrls standardWeb_routesPaths
    hmpd hcrates (paramsWithHeader_nodup _) hplain hindexed hinit (hid ▸ hp) hprofiles
    indexedFilm_served addingOne noTokens 0 "http://p".toList none 0 []
  exact ⟨p, lines, hp, hlines, hplays⟩

end MediaFlow
