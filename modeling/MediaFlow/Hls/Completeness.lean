import MediaFlow.Hls.Prefetch
import MediaFlow.Hls.Routing
import MediaFlow.Hls.SkippedTags
import MediaFlow.Hls.UriValues
import MediaFlow.Proxy.TokenAndPlain

/-!
# Every URI is rewritten

A player fetches the URIs of a playlist that is written: those that m3u8-rs has in fields, and those
in the attributes of tags that it does not know, which are kept as texts. Here they are the *places*
of the playlist. `rewritesAll_iff` says when each of them holds a URL of the proxy: `process_master`
passes over the session tags and most unknown ones, and in an attribute text only the first URI is
looked for.
-/

open ByteString Text UrlCoding

namespace MediaFlow

open ManifestProcessor

/-! ### Places -/

inductive PlaceKind
  /-- Of a variant, or of its I-frames. -/
  | variant
  | rendition
  | sessionData
  | sessionKey
  | key
  | map
  | segment
  /-- Of a tag that is kept as a text. -/
  | tag (name : Str)
deriving DecidableEq

/-- Is the text that of attributes, not a URI itself? -/
def PlaceKind.hasAttributes : PlaceKind → Bool
  | tag _ => true
  | _ => false

/-- A text of a playlist that is a URI or has URIs in it. -/
structure Place (α : Type) where
  kind : PlaceKind
  text : α

section Places

variable {α : Type}

def ExtTag.place (tag : ExtTag α) : Option (Place α) := tag.rest.map (Place.mk (.tag tag.tag))

def MasterPlaylist.places (pl : MasterPlaylist α) : List (Place α) :=
  pl.variants.map (fun v => ⟨.variant, v.uri⟩) ++
    pl.alternatives.filterMap (fun alt => alt.uri.map (Place.mk .rendition)) ++
    pl.sessionData.filterMap (Option.map (Place.mk .sessionData)) ++
    pl.sessionKeys.filterMap (Option.map (Place.mk .sessionKey)) ++
    pl.unknownTags.filterMap ExtTag.place

def MediaSegment.places (seg : MediaSegment α) : List (Place α) :=
  ((seg.key.bind Key.uri).map (Place.mk .key)).toList ++
    (seg.map.map fun map => Place.mk .map map.uri).toList ++ [⟨.segment, seg.uri⟩] ++
    seg.unknownTags.filterMap ExtTag.place

def MediaPlaylist.places (pl : MediaPlaylist α) : List (Place α) :=
  pl.segments.flatMap MediaSegment.places ++ pl.unknownTags.filterMap ExtTag.place

/-- The playlist without the segments that are skipped. -/
def MediaPlaylist.kept (pl : MediaPlaylist α) (opts : ManifestOptions) : MediaPlaylist α :=
  if opts.skipRanges = [] then pl else applySkipFilter opts.skipRanges pl

end Places

/-- The line of a tag, that of a segment's duration apart. -/
def isTagLine (line : Str) : Bool :=
  trim line ≠ "#EXTM3U".toList ∧ "#EXT".toList.isPrefixOf line ∧ ¬ extinfTag.isPrefixOf line

/-- What a line of a playlist holds. -/
def linePlace (line : Str) : Option (Place Str) :=
  if isUrlLine line then some ⟨.segment, line⟩
  else if isTagLine line then some ⟨.tag ((line.takeWhile (· ≠ ':')).drop 5), line⟩
  else none

/-! ### What is to be shown -/

/-- URLs go through the proxy, not only those of keys. -/
def proxying (opts : ManifestOptions) : ManifestOptions :=
  { opts with noProxy := false, keyOnlyProxy := false }

/-- The destination that the server reads from what follows its base in a URL: it is in a token or in
the query string. -/
def destinationUnder (web : WebCrates) (crates : TokenCrates) (password : Str) (later : ℕ)
    (clientIp : Option Str) (rest : Str) : Option Str :=
  -- a fragment is not sent
  let target := rest.takeWhile (· ≠ '#')
  match stripPrefix "/_token_".toList target with
  | some afterMarker =>
    match (EncryptionHandler.new (utf8 password)).decrypt crates later
        (AuthMiddleware.splitPathToken afterMarker).1 clientIp with
    | .ok proxyData => some proxyData.destination
    | .error _ => none
  | none => (splitOnce '?' target).map fun uri => (storedProxyData web uri.2).destination

/-- The URL is under the base of the proxy, which reads this destination from it. -/
def LeadsTo (web : WebCrates) (crates : TokenCrates) (proxyBase password url destination : Str) :
    Prop :=
  ∃ rest, url = trimEndMatches '/' proxyBase ++ rest ∧
    ∀ later clientIp, destinationUnder web crates password later clientIp rest = some destination

section MainResult

variable (crates : HlsCrates) (opts : ManifestOptions) (sourceUrl : Str)

/-- The text that is written at a place sends its URIs, resolved, to an endpoint of the proxy. -/
def Place.RewrittenAs (p : Place Str) (w : Written) : Prop :=
  ∃ endpoint,
    let newUri (uri : Str) : Piece :=
      .proxied endpoint (Utils.resolveUrl crates.toJoinCrate sourceUrl uri)
    w = if p.kind.hasAttributes then rewriteAllUris newUri p.text else [newUri p.text]

/-- The places of a playlist, and what is written there. -/
def PlacesRewritten (places : List (Place Str)) (written : List (Place Written)) : Prop :=
  List.Forall₂ (fun p q => p.RewrittenAs crates sourceUrl q.text) places written

/-- Each line, with what is written for it. -/
def writtenFor : LineState → List Str → List (Str × List Written)
  | _, [] => []
  | st, line :: rest =>
    (line, (processLine crates opts sourceUrl st line).1) ::
      writtenFor (processLine crates opts sourceUrl st line).2 rest

/-- What is written last for a line is written at its place. -/
def LineRewritten (line : Str) (written : List Written) : Prop :=
  ∀ p w, linePlace line = some p → written.getLast? = some w → p.RewrittenAs crates sourceUrl w

/-- The URIs of the playlist, which m3u8-rs reads as `pl`, are all rewritten. -/
def OutputRewritten (content : Bytes) (pl : Playlist Str) : Prop :=
  match pl, process crates opts content sourceUrl with
  | _, .lines written =>
    let lines := writtenFor crates opts sourceUrl (firstState opts) (lines (contentText content))
    written = lines.flatMap Prod.snd ∧ ∀ p ∈ lines, LineRewritten crates sourceUrl p.1 p.2
  | .master pl, .master out => PlacesRewritten crates sourceUrl pl.places out.places
  | .media pl, .media out _ => PlacesRewritten crates sourceUrl (pl.kept opts).places out.places
  | _, _ => False

/-- All URIs of the playlist are rewritten, and what is written in their places leads to their
destinations. -/
structure RewritesAll (web : WebCrates) (mint : MintCrates) (proxyBase : Str) (params : ProxyParams)
    (content : Bytes) (pl : Playlist Str) : Prop where
  output : OutputRewritten crates opts sourceUrl content pl
  leads : ∀ (endpoint : Endpoint) destination iv now, iv.length = 16 →
    LeadsTo web mint.toTokenCrates proxyBase params.apiPassword
      ((Piece.proxied endpoint destination).render web mint proxyBase params iv now) destination

end MainResult

/-- What is relied on: with a password, tokens can be read, and without one, the names of headers need
no encoding. -/
structure ReadableUrls (web : WebCrates) (mint : MintCrates) (proxyBase : Str)
    (params : ProxyParams) : Prop where
  codes : web.CodesUrls
  names : params.apiPassword = [] → ∀ kv ∈ params.passHeaders, encode kv.1 = kv.1
  mints : params.apiPassword ≠ [] → ∀ (endpoint : Endpoint) destination now,
    mint.Mints ((endpoint.request proxyBase destination params).payload now)

/-! ### The condition -/

/-- A place of a master playlist: no URI of a session tag, and none in an unknown tag but that of
`EXT-X-MEDIA`. -/
def PlainMasterPlace (p : Place Str) : Prop :=
  match p.kind with
  | .sessionData | .sessionKey => False
  | .tag name => if name = "X-MEDIA".toList then LoneUri p.text else splitFirstUri p.text = none
  | _ => True

/-- A place of a media playlist. -/
def PlainMediaPlace (p : Place Str) : Prop := p.kind.hasAttributes = true → LoneUri p.text

/-- **The condition**: tags have no URI but their first, session tags and unknown tags of a master
playlist have none. -/
def PlainPlaylist (opts : ManifestOptions) (content : Bytes) (pl : Playlist Str) : Prop :=
  if isIptvPlaylist content then
    ∀ line ∈ lines (contentText content), isTagLine line = true → LoneUri line
  else
    match pl with
    | .master pl => ∀ p ∈ pl.places, PlainMasterPlace p
    | .media pl => ∀ p ∈ (pl.kept opts).places, PlainMediaPlace p

section Proof

/-! ### Places that are rewritten -/

section Written

variable {crates : HlsCrates} {sourceUrl : Str} {kind : PlaceKind} {text : Str}

/-- A text that is a URI. -/
theorem rewrittenAs_uri_iff (hkind : kind.hasAttributes = false) {w : Written} :
    Place.RewrittenAs crates sourceUrl ⟨kind, text⟩ w ↔
      ∃ endpoint, w = [.proxied endpoint (Utils.resolveUrl crates.toJoinCrate sourceUrl text)] := by
  unfold Place.RewrittenAs
  dsimp only
  rw [hkind]
  rfl

/-- Attributes. -/
theorem rewrittenAs_attributes_iff (hkind : kind.hasAttributes = true) {w : Written} :
    Place.RewrittenAs crates sourceUrl ⟨kind, text⟩ w ↔
      ∃ endpoint, w = rewriteAllUris
        (fun uri => .proxied endpoint (Utils.resolveUrl crates.toJoinCrate sourceUrl uri)) text := by
  unfold Place.RewrittenAs
  dsimp only
  rw [hkind]
  rfl

/-- A URI that is written as it stands is not rewritten. -/
theorem not_rewrittenAs_verbatim (hkind : kind.hasAttributes = false) :
    ¬ Place.RewrittenAs crates sourceUrl ⟨kind, text⟩ (verbatim text) := by
  rw [rewrittenAs_uri_iff hkind]
  rintro ⟨endpoint, h⟩
  cases (List.cons.inj h).1

theorem verbatim_rewrittenAs_iff (hkind : kind.hasAttributes = true) :
    Place.RewrittenAs crates sourceUrl ⟨kind, text⟩ (verbatim text) ↔ splitFirstUri text = none := by
  rw [rewrittenAs_attributes_iff hkind]
  constructor
  · rintro ⟨endpoint, h⟩
    exact text_eq_rewriteAllUris_iff.mp h
  · intro h
    exact ⟨.key, text_eq_rewriteAllUris_iff.mpr h⟩

variable {opts : ManifestOptions}

theorem target_proxying (endpoint : Endpoint) : target crates (proxying opts) endpoint sourceUrl =
    fun uri => .proxied endpoint (Utils.resolveUrl crates.toJoinCrate sourceUrl uri) :=
  rfl

/-- The attributes with their first URI rewritten. -/
theorem rewriteUriValue_rewrittenAs_iff (hkind : kind.hasAttributes = true) (endpoint : Endpoint) :
    Place.RewrittenAs crates sourceUrl ⟨kind, text⟩
        (rewriteUriValue (target crates (proxying opts) endpoint sourceUrl) text) ↔
      LoneUri text := by
  rw [rewrittenAs_attributes_iff hkind, target_proxying]
  constructor
  · rintro ⟨endpoint', h⟩
    exact loneUri_of_eq_all h
  · intro h
    exact ⟨endpoint, rewriteUriValue_eq_all h⟩

/-- What the structured path writes for attributes. -/
def rewriteAttributes (crates : HlsCrates) (opts : ManifestOptions) (sourceUrl : Str)
    (isPlaylist : Bool) (rest : Str) : Written :=
  if contains rest "URI=\"".toList then rewriteTagRestUri crates opts rest sourceUrl isPlaylist
  else verbatim rest

theorem rewriteAttributes_rewrittenAs_iff (hkind : kind.hasAttributes = true) (isPlaylist : Bool) :
    Place.RewrittenAs crates sourceUrl ⟨kind, text⟩
        (rewriteAttributes crates (proxying opts) sourceUrl isPlaylist text) ↔ LoneUri text := by
  unfold rewriteAttributes
  split
  · exact rewriteUriValue_rewrittenAs_iff hkind _
  · next hcontains =>
    have hnone := splitFirstUri_of_not_contains hcontains
    rw [verbatim_rewrittenAs_iff hkind]
    exact iff_of_true hnone (loneUri_of_none hnone)

/-- A URL of a segment or of a sub-playlist. -/
theorem rewriteSegmentOrPlaylistUri_rewrittenAs (hkind : kind.hasAttributes = false) :
    Place.RewrittenAs crates sourceUrl ⟨kind, text⟩
      [rewriteSegmentOrPlaylistUri crates (proxying opts) text sourceUrl] := by
  rw [rewrittenAs_uri_iff hkind]
  unfold rewriteSegmentOrPlaylistUri
  dsimp only
  rw [if_neg (show ¬ (proxying opts).noProxy = true from Bool.false_ne_true),
    if_neg (show ¬ (proxying opts).keyOnlyProxy = true from Bool.false_ne_true)]
  split
  · exact ⟨_, rfl⟩
  · split
    · exact ⟨_, rfl⟩
    · exact ⟨_, rfl⟩

end Written

/-- Places that are written one by one. -/
theorem placesRewritten_map_iff {crates : HlsCrates} {sourceUrl : Str} {places : List (Place Str)}
    (f : Place Str → Place Written) :
    PlacesRewritten crates sourceUrl places (places.map f) ↔
      ∀ p ∈ places, p.RewrittenAs crates sourceUrl (f p).text := by
  unfold PlacesRewritten
  rw [List.forall₂_map_right_iff, List.forall₂_same]

/-! ### Structures -/

section Structures

variable (crates : HlsCrates) (opts : ManifestOptions) (sourceUrl : Str)

/-- What `process_master` writes at a place. -/
def writtenInMaster (p : Place Str) : Place Written where
  kind := p.kind
  text :=
    match p.kind with
    | .sessionData | .sessionKey => verbatim p.text
    | .tag name =>
      if name = "X-MEDIA".toList then
        rewriteAttributes crates (proxying opts) sourceUrl true p.text
      else verbatim p.text
    | _ => [rewritePlaylistUri crates p.text sourceUrl]

/-- What `process_media` writes at a place. -/
def writtenInMedia (p : Place Str) : Place Written where
  kind := p.kind
  text :=
    match p.kind with
    | .key => [target crates (proxying opts) .key sourceUrl p.text]
    | .map => [target crates (proxying opts) .segment sourceUrl p.text]
    | .tag name => rewriteAttributes crates (proxying opts) sourceUrl (isPlaylistTag name) p.text
    | _ => [rewriteSegmentOrPlaylistUri crates (proxying opts) p.text sourceUrl]

variable {crates opts sourceUrl}

/-- A list of elements of which some have a place. -/
theorem filterMap_map_places {β γ : Type} {f : β → Option (Place Str)}
    {f' : γ → Option (Place Written)} {g : β → γ} {w : Place Str → Place Written}
    (h : ∀ b, f' (g b) = (f b).map w) (l : List β) :
    (l.map g).filterMap f' = (l.filterMap f).map w := by
  rw [List.filterMap_map, List.map_filterMap]
  exact List.filterMap_congr fun b _ => h b

theorem places_processMaster (pl : MasterPlaylist Str) :
    (processMaster crates (proxying opts) pl sourceUrl).places =
      pl.places.map (writtenInMaster crates opts sourceUrl) := by
  have hunknown : ∀ unknown : ExtTag Str,
      (if ¬ (proxying opts).noProxy ∧ unknown.tag = "X-MEDIA".toList then
          rewriteUnknown crates (proxying opts) sourceUrl true unknown
        else ⟨unknown.tag, unknown.rest.map verbatim⟩ : ExtTag Written).place =
      unknown.place.map (writtenInMaster crates opts sourceUrl) := by
    intro unknown
    obtain ⟨tag, rest⟩ := unknown
    unfold ExtTag.place
    rw [Option.map_map]
    by_cases hmedia : tag = "X-MEDIA".toList
    · rw [if_pos ⟨Bool.false_ne_true, hmedia⟩]
      unfold rewriteUnknown
      rw [Option.map_map]
      congr 1
      funext rest
      exact congrArg (Place.mk _) (if_pos hmedia).symm
    · rw [if_neg fun h => hmedia h.2, Option.map_map]
      congr 1
      funext rest
      exact congrArg (Place.mk _) (if_neg hmedia).symm
  unfold processMaster MasterPlaylist.places
  simp only [List.map_append]
  congr 1
  · congr 1
    · congr 1
      · congr 1
        · rw [List.map_map, List.map_map]
          rfl
        · refine filterMap_map_places (fun alt => ?_) _
          cases alt.uri with
          | none => rfl
          | some uri => rfl
      · refine filterMap_map_places (fun uri => ?_) _
        cases uri with
        | none => rfl
        | some uri => rfl
    · refine filterMap_map_places (fun uri => ?_) _
      cases uri with
      | none => rfl
      | some uri => rfl
  · exact filterMap_map_places hunknown _

theorem place_rewriteMediaTag (unknown : ExtTag Str) :
    (rewriteMediaTag crates (proxying opts) sourceUrl unknown).place =
      unknown.place.map (writtenInMedia crates opts sourceUrl) := by
  unfold rewriteMediaTag rewriteUnknown ExtTag.place
  rw [Option.map_map, Option.map_map]
  rfl

theorem places_rewriteSegment (seg : MediaSegment Str) :
    (rewriteSegment crates (proxying opts) sourceUrl seg).places =
      seg.places.map (writtenInMedia crates opts sourceUrl) := by
  unfold rewriteSegment MediaSegment.places
  simp only [List.map_append]
  congr 1
  · congr 1
    congr 1
    · cases seg.key with
      | none => rfl
      | some key =>
        obtain ⟨method, uri, iv, keyformat⟩ := key
        cases uri with
        | none => rfl
        | some uri => rfl
    · cases seg.map with
      | none => rfl
      | some map => rfl
  · exact filterMap_map_places place_rewriteMediaTag _

/-- Segments are skipped by their durations, which are not rewritten. -/
theorem skipSegments_rewriteSegment (filter : SkipSegmentFilter) (needDiscontinuity : Bool)
    (segments : List (MediaSegment Str)) :
    skipSegments filter needDiscontinuity (segments.map (rewriteSegment crates opts sourceUrl)) =
      (skipSegments filter needDiscontinuity segments).map
        (rewriteSegment crates opts sourceUrl) := by
  induction segments generalizing filter needDiscontinuity with
  | nil => rfl
  | cons seg rest ih =>
    cases hcheck : filter.checkAndAdvance seg.duration with
    | mk skipped filter' =>
      have hwritten : filter.checkAndAdvance (rewriteSegment crates opts sourceUrl seg).duration =
          (skipped, filter') := hcheck
      cases skipped with
      | true => rw [List.map_cons, skipSegments_skip hwritten, skipSegments_skip hcheck, ih]
      | false =>
        rw [List.map_cons, skipSegments_keep hwritten, skipSegments_keep hcheck, ih]
        rfl

theorem places_processMedia (pl : MediaPlaylist Str) :
    (processMedia crates (proxying opts) pl sourceUrl).1.places =
      (pl.kept (proxying opts)).places.map (writtenInMedia crates opts sourceUrl) := by
  have hplaces : ∀ (segments : List (MediaSegment Str)) (tags : List (ExtTag Str)),
      (segments.map (rewriteSegment crates (proxying opts) sourceUrl)).flatMap MediaSegment.places ++
          (tags.map (rewriteMediaTag crates (proxying opts) sourceUrl)).filterMap ExtTag.place =
        (segments.flatMap MediaSegment.places ++ tags.filterMap ExtTag.place).map
          (writtenInMedia crates opts sourceUrl) := by
    intro segments tags
    rw [List.map_append, List.flatMap_map, List.map_flatMap]
    congr 1
    · exact List.flatMap_congr fun seg _ => places_rewriteSegment seg
    · exact filterMap_map_places place_rewriteMediaTag _
  unfold processMedia MediaPlaylist.kept
  dsimp only
  split
  · exact hplaces pl.segments pl.unknownTags
  · unfold applySkipFilter MediaPlaylist.places
    dsimp only
    rw [skipSegments_rewriteSegment]
    exact hplaces _ pl.unknownTags

/-- **A place of a master playlist.** -/
theorem writtenInMaster_rewrittenAs_iff (p : Place Str) :
    p.RewrittenAs crates sourceUrl (writtenInMaster crates opts sourceUrl p).text ↔
      PlainMasterPlace p := by
  obtain ⟨kind, text⟩ := p
  cases kind with
  | sessionData => exact iff_of_false (not_rewrittenAs_verbatim rfl) id
  | sessionKey => exact iff_of_false (not_rewrittenAs_verbatim rfl) id
  | tag name =>
    unfold writtenInMaster PlainMasterPlace
    dsimp only
    split
    · exact rewriteAttributes_rewrittenAs_iff rfl true
    · exact verbatim_rewrittenAs_iff rfl
  | variant | rendition | key | map | segment =>
    exact iff_of_true ((rewrittenAs_uri_iff rfl).mpr ⟨.manifest, rfl⟩) trivial

/-- **A place of a media playlist.** -/
theorem writtenInMedia_rewrittenAs_iff (p : Place Str) :
    p.RewrittenAs crates sourceUrl (writtenInMedia crates opts sourceUrl p).text ↔
      PlainMediaPlace p := by
  obtain ⟨kind, text⟩ := p
  unfold PlainMediaPlace
  cases kind with
  | key => exact iff_of_true ((rewrittenAs_uri_iff rfl).mpr ⟨.key, rfl⟩) nofun
  | map => exact iff_of_true ((rewrittenAs_uri_iff rfl).mpr ⟨.segment, rfl⟩) nofun
  | tag name =>
    refine (rewriteAttributes_rewrittenAs_iff rfl (isPlaylistTag name)).trans ?_
    exact ⟨fun h _ => h, fun h => h rfl⟩
  | variant | rendition | sessionData | sessionKey | segment =>
    exact iff_of_true (rewriteSegmentOrPlaylistUri_rewrittenAs rfl) nofun

end Structures

/-! ### Lines -/

section Lines

variable {crates : HlsCrates} {opts : ManifestOptions} {sourceUrl : Str}

theorem processLinesFrom_eq (st : LineState) (ls : List Str) :
    processLinesFrom crates opts sourceUrl st ls =
      (writtenFor crates opts sourceUrl st ls).flatMap Prod.snd := by
  induction ls generalizing st with
  | nil => rfl
  | cons line rest ih => rw [processLinesFrom, writtenFor, List.flatMap_cons, ih]

/-- A tag line begins like a tag. -/
theorem head?_of_isTagLine {line : Str} (h : isTagLine line = true) : line.head? = some '#' := by
  obtain ⟨rest, rfl⟩ := List.isPrefixOf_iff_prefix.mp (of_decide_eq_true h).2.1
  rfl

/-- What is written last for a URL is its URL at the proxy. -/
theorem lineRewritten_url {st : LineState} {line : Str} (h : isUrlLine line = true) :
    LineRewritten crates sourceUrl line (processLine crates (proxying opts) sourceUrl st line).1 := by
  obtain ⟨hheader, htag, hblank⟩ := of_decide_eq_true h
  have hextinf : ¬ extinfTag.isPrefixOf line = true := fun h => htag (head?_of_extinf h)
  intro p w hplace hlast
  unfold linePlace at hplace
  rw [if_pos h] at hplace
  cases hplace
  unfold processLine at hlast
  rw [if_neg hheader, if_neg hextinf, if_pos ⟨htag, hblank⟩] at hlast
  unfold processUrlLine at hlast
  split at hlast
  · -- the segment is skipped
    cases hlast
  · rw [List.getLast?_append, List.getLast?_singleton] at hlast
    cases hlast
    exact rewriteSegmentOrPlaylistUri_rewrittenAs rfl

/-- A tag is written with its first URI rewritten. -/
theorem lineRewritten_tag_iff {st : LineState} {line : Str} (h : isTagLine line = true) :
    LineRewritten crates sourceUrl line (processLine crates (proxying opts) sourceUrl st line).1 ↔
      LoneUri line := by
  obtain ⟨hheader, -, hextinf⟩ := of_decide_eq_true h
  have hurl : ¬ (line.head? ≠ some '#' ∧ trim line ≠ []) := fun hurl =>
    hurl.1 (head?_of_isTagLine h)
  have hplace : linePlace line = some ⟨.tag ((line.takeWhile (· ≠ ':')).drop 5), line⟩ := by
    unfold linePlace
    rw [if_neg fun hline => hurl (of_decide_eq_true hline).2, if_pos h]
  have hone : ∀ w, LineRewritten crates sourceUrl line [w] ↔
      Place.RewrittenAs crates sourceUrl ⟨.tag ((line.takeWhile (· ≠ ':')).drop 5), line⟩ w := by
    intro w
    constructor
    · intro hline
      exact hline _ w hplace rfl
    · intro hw p w' hp hlast
      rw [hplace] at hp
      cases hp
      cases hlast
      exact hw
  unfold processLine
  rw [if_neg hheader, if_neg hextinf, if_neg hurl]
  by_cases huri : contains line "URI=".toList = true
  · rw [if_pos huri, hone]
    exact rewriteUriValue_rewrittenAs_iff rfl (lineEndpoint line)
  · have hnone : splitFirstUri line = none := splitFirstUri_of_not_contains fun hcontains =>
      huri (isSome_find_of_first (by decide) hcontains)
    have hverbatim : LineRewritten crates sourceUrl line [verbatim line] ↔ LoneUri line := by
      rw [hone, verbatim_rewrittenAs_iff rfl]
      exact iff_of_true hnone (loneUri_of_none hnone)
    rw [if_neg huri]
    split
    · exact hverbatim
    · exact hverbatim

/-- **A line**, in whatever state it is read. -/
theorem lineRewritten_iff (st : LineState) (line : Str) :
    LineRewritten crates sourceUrl line (processLine crates (proxying opts) sourceUrl st line).1 ↔
      (isTagLine line = true → LoneUri line) := by
  by_cases htag : isTagLine line = true
  · rw [lineRewritten_tag_iff htag]
    exact ⟨fun h _ => h, fun h => h htag⟩
  refine iff_of_true ?_ fun h => absurd h htag
  by_cases hurl : isUrlLine line = true
  · exact lineRewritten_url hurl
  · intro p w hplace
    unfold linePlace at hplace
    rw [if_neg hurl, if_neg htag] at hplace
    cases hplace

/-- **All lines.** -/
theorem linesRewritten_iff (st : LineState) (ls : List Str) :
    (∀ p ∈ writtenFor crates (proxying opts) sourceUrl st ls,
        LineRewritten crates sourceUrl p.1 p.2) ↔
      ∀ line ∈ ls, isTagLine line = true → LoneUri line := by
  induction ls generalizing st with
  | nil => exact iff_of_true nofun nofun
  | cons line rest ih =>
    rw [writtenFor, List.forall_mem_cons, List.forall_mem_cons, ih, lineRewritten_iff]

end Lines

/-! ### Playlists -/

theorem outputRewritten_iff {crates : HlsCrates} {opts : ManifestOptions} {sourceUrl : Str}
    {content : Bytes} {pl : Playlist Str} (hparse : crates.parsePlaylist content = some pl) :
    OutputRewritten crates (proxying opts) sourceUrl content pl ↔
      PlainPlaylist (proxying opts) content pl := by
  unfold OutputRewritten PlainPlaylist process
  by_cases hiptv : isIptvPlaylist content = true
  · rw [if_pos hiptv, if_pos hiptv]
    have hwritten := @processLinesFrom_eq crates (proxying opts) sourceUrl
      (firstState (proxying opts)) (lines (contentText content))
    cases pl with
    | master pl => exact (and_iff_right hwritten).trans (linesRewritten_iff _ _)
    | media pl => exact (and_iff_right hwritten).trans (linesRewritten_iff _ _)
  · rw [if_neg hiptv, if_neg hiptv, hparse]
    cases pl with
    | master pl =>
      dsimp only
      rw [places_processMaster, placesRewritten_map_iff]
      exact forall₂_congr fun p _ => writtenInMaster_rewrittenAs_iff p
    | media pl =>
      dsimp only
      rw [places_processMedia, placesRewritten_map_iff]
      exact forall₂_congr fun p _ => writtenInMedia_rewrittenAs_iff p

/-! ### URLs of the proxy -/

section Urls

variable {web : WebCrates} {mint : MintCrates} {proxyBase destination : Str} {params : ProxyParams}

/-- The paths of the endpoints need no encoding. -/
theorem endpointPath_request (endpoint : Endpoint) :
    ∃ name : Str, (endpoint.request proxyBase destination params).endpointPath =
        "/proxy/hls/".toList ++ name ∧
      ∀ c ∈ "/proxy/hls/".toList ++ name, pathChar c = true := by
  have hplain : ∀ {path : Str}, path.all pathChar = true → ∀ c ∈ path, pathChar c = true :=
    fun h => List.all_eq_true.mp h
  cases endpoint with
  | manifest => exact ⟨"manifest".toList, rfl, hplain (by decide)⟩
  | key => exact ⟨"segment".toList, rfl, hplain (by decide)⟩
  | segment =>
    refine ⟨"segment.".toList ++ Utils.segmentExtension destination, rfl, hplain ?_⟩
    unfold Utils.segmentExtension
    dsimp only
    repeat' split
    all_goals decide

/-- The parameters of a plain URL: the destination, the playlist and the headers. -/
theorem mem_params_request {endpoint : Endpoint} {p : Str × Str}
    (h : p ∈ (endpoint.request proxyBase destination params).params) :
    p = ("d".toList, destination) ∨ p.1 = "playlist_url".toList ∨
      ∃ kv ∈ params.passHeaders, p.1 = prefixed "h_".toList kv.1 := by
  have hd : (endpoint.request proxyBase destination params).destinationUrl = destination := by
    cases endpoint <;> rfl
  rcases mem_params h with ⟨-, rfl⟩ | hq | hh | hr | hr | ⟨hremoved, -⟩ | ⟨transformer, heq, -⟩
  · exact .inl (by rw [hd])
  · refine .inr (.inl ?_)
    cases endpoint with
    | manifest => cases hq
    | key => cases hq
    | segment =>
      obtain ⟨apiPassword, passHeaders, playlistUrl⟩ := params
      cases playlistUrl with
      | none => cases hq
      | some playlistUrl => rw [List.mem_singleton.mp hq]
  · obtain ⟨-, k, hk, hname⟩ := mem_prefixedParams hh
    refine .inr (.inr ⟨(k, p.2), ?_, hname⟩)
    have hk := List.mem_of_mem_filter hk
    cases endpoint <;> exact hk
  · cases endpoint <;> cases hr
  · cases endpoint <;> cases hr
  · cases endpoint <;> exact absurd rfl hremoved
  · cases endpoint <;> cases heq

/-- The middleware reads the destination back, if no other parameter is taken for it. -/
theorem destination_storedProxyData (hweb : web.CodesUrls) {pairs : List (Str × Str)}
    (hnames : ∀ p ∈ pairs, encode p.1 = p.1) (hmem : ("d".toList, destination) ∈ pairs)
    (hd : ∀ p ∈ pairs, p.1 = "d".toList → p.2 = destination)
    (hurl : ∀ p ∈ pairs, p.1 ≠ "url".toList) :
    (storedProxyData web (joinFields (encodedFields pairs))).destination = destination := by
  have hfields := encodedFields_plain hnames
  have htaken_url : takenValue web (joinFields (encodedFields pairs)) "url".toList = none := by
    by_contra hsome
    obtain ⟨v, hv⟩ := Option.ne_none_iff_exists'.mp hsome
    obtain ⟨f, hf, hname, -⟩ := hfields.mem_of_takenValue hv
    obtain ⟨p, hp, rfl⟩ := List.mem_map.mp hf
    exact hurl p hp hname
  rw [(stored_eq _).1, htaken_url, Option.or_none]
  cases htaken : takenValue web (joinFields (encodedFields pairs)) "d".toList with
  | none =>
    -- an empty destination is not taken, and none is read
    have hnil := hfields.value_eq_nil_of_takenValue (List.mem_map_of_mem hmem) htaken
    exact (encode_injective (hnil.trans rfl : encode destination = encode [])).symm
  | some v =>
    obtain ⟨f, hf, hname, -, rfl⟩ := hfields.mem_of_takenValue htaken
    obtain ⟨p, hp, rfl⟩ := List.mem_map.mp hf
    rw [Option.getD_some, urldecodeOr, hweb.urldecode, decode_encode, Option.getD_some]
    exact hd p hp hname

section Request

variable (endpoint : Endpoint) (iv : Bytes) (now : ℕ)

theorem base_request :
    (endpoint.request proxyBase destination params).base = trimEndMatches '/' proxyBase := by
  cases endpoint <;> rfl

theorem filenamePath_request :
    (endpoint.request proxyBase destination params).filenamePath web = [] := by
  cases endpoint <;> rfl

theorem apiPassword_request :
    (endpoint.request proxyBase destination params).apiPassword = params.apiPasswordOpt := by
  cases endpoint <;> rfl

/-- With a password, a URL has a token and the path of its endpoint. -/
theorem render_of_password (hpassword : params.apiPassword ≠ []) :
    (Piece.proxied endpoint destination).render web mint proxyBase params iv now =
      trimEndMatches '/' proxyBase ++ ("/_token_".toList ++
        ((EncryptionHandler.new (utf8 params.apiPassword)).encrypt mint iv
            ((endpoint.request proxyBase destination params).payload now) ++
          (endpoint.request proxyBase destination params).endpointPath)) := by
  have hopt : params.apiPasswordOpt.filter (· ≠ []) = some params.apiPassword := by
    unfold ProxyParams.apiPasswordOpt
    rw [if_neg hpassword]
    exact if_pos (decide_eq_true hpassword)
  unfold Piece.render buildProxyUrl
  dsimp only
  rw [apiPassword_request, hopt]
  dsimp only
  rw [base_request, filenamePath_request, List.append_nil, List.append_assoc, List.append_assoc]

/-- Without one, it has the path and a query. -/
theorem render_of_noPassword (hweb : web.CodesUrls) (hpassword : params.apiPassword = []) :
    (Piece.proxied endpoint destination).render web mint proxyBase params iv now =
      trimEndMatches '/' proxyBase ++
        ((endpoint.request proxyBase destination params).endpointPath ++ '?' ::
          joinFields (encodedFields (endpoint.request proxyBase destination params).params)) := by
  have hopt : params.apiPasswordOpt.filter (· ≠ []) = none := by
    unfold ProxyParams.apiPasswordOpt
    rw [if_pos hpassword]
    rfl
  have hparams : (endpoint.request proxyBase destination params).params ≠ [] := by
    cases endpoint <;> exact List.cons_ne_nil _ _
  have hpath : (endpoint.request proxyBase destination params).plainPath web mint =
      (endpoint.request proxyBase destination params).endpointPath := by
    cases endpoint <;> exact List.append_nil _
  unfold Piece.render buildProxyUrl
  dsimp only
  rw [apiPassword_request, hopt]
  dsimp only
  rw [if_neg hparams, intercalate_queryPair hweb, base_request, hpath, List.append_assoc]

/-- The query of a plain URL has the destination. -/
theorem destination_request (hweb : web.CodesUrls)
    (hheaders : ∀ kv ∈ params.passHeaders, encode kv.1 = kv.1) :
    (storedProxyData web (joinFields (encodedFields
        (endpoint.request proxyBase destination params).params))).destination = destination ∧
      ∀ p ∈ (endpoint.request proxyBase destination params).params, encode p.1 = p.1 := by
  have hmem : ("d".toList, destination) ∈ (endpoint.request proxyBase destination params).params := by
    cases endpoint <;> exact List.mem_cons_self
  have hnames : ∀ p ∈ (endpoint.request proxyBase destination params).params,
      encode p.1 = p.1 := by
    intro p hp
    rcases mem_params_request hp with rfl | hname | ⟨kv, hkv, hname⟩
    · exact (by decide : encode "d".toList = "d".toList)
    · rw [hname]
      exact (by decide +kernel : encode "playlist_url".toList = "playlist_url".toList)
    · rw [hname]
      exact encode_prefixed (by decide) (hheaders kv hkv)
  -- no other name is that of a destination
  have hother : ∀ p ∈ (endpoint.request proxyBase destination params).params,
      p = ("d".toList, destination) ∨ p.1 ≠ "d".toList ∧ p.1 ≠ "url".toList := by
    intro p hp
    rcases mem_params_request hp with rfl | hname | ⟨kv, -, hname⟩
    · exact .inl rfl
    · rw [hname]
      exact .inr (by decide)
    · obtain ⟨rest, hrest⟩ := prefix_prefixed "h_".toList kv.1
      rw [hname, ← hrest]
      exact .inr ⟨nofun, nofun⟩
  refine ⟨destination_storedProxyData hweb hnames hmem (fun p hp hname => ?_) fun p hp hname => ?_,
    hnames⟩
  · obtain rfl | hne := hother p hp
    · rfl
    · exact absurd hname hne.1
  · obtain rfl | hne := hother p hp
    · exact absurd hname (by decide : "d".toList ≠ "url".toList)
    · exact hne.2 hname

end Request

section Reading

variable {crates : TokenCrates} {password : Str} {later : ℕ} {clientIp : Option Str}

/-- A target without a fragment is sent as it is. -/
theorem sent_of_noHash {target : Str} (h : '#' ∉ target) : target.takeWhile (· ≠ '#') = target := by
  refine List.takeWhile_eq_self_iff.mpr fun c hc => decide_eq_true ?_
  rintro rfl
  exact h hc

theorem destinationUnder_of_decrypt {token path : Str} {proxyData : ProxyData} (hslash : '/' ∉ token)
    (hhash : '#' ∉ token) (hpath : '#' ∉ path)
    (hdecrypt : (EncryptionHandler.new (utf8 password)).decrypt crates later token clientIp =
      .ok proxyData) :
    destinationUnder web crates password later clientIp
      ("/_token_".toList ++ (token ++ '/' :: path)) = some proxyData.destination := by
  have hsent : '#' ∉ "/_token_".toList ++ (token ++ '/' :: path) := by
    intro hmem
    obtain hmem | hmem := List.mem_append.mp hmem
    · exact absurd hmem (by decide)
    · obtain hmem | hmem := List.mem_append.mp hmem
      · exact hhash hmem
      · exact hpath ((List.mem_cons.mp hmem).resolve_left (by decide))
  have hsplit : (AuthMiddleware.splitPathToken (token ++ '/' :: path)).1 = token := by
    unfold AuthMiddleware.splitPathToken
    rw [find_singleton_append hslash]
    exact List.take_left
  unfold destinationUnder
  dsimp only
  rw [sent_of_noHash hsent, stripPrefix_append]
  dsimp only
  rw [hsplit, hdecrypt]

theorem destinationUnder_of_query {path query : Str}
    (hmark : stripPrefix "/_token_".toList (path ++ '?' :: query) = none) (hquestion : '?' ∉ path)
    (hpath : '#' ∉ path) (hquery : '#' ∉ query) :
    destinationUnder web crates password later clientIp (path ++ '?' :: query) =
      some (storedProxyData web query).destination := by
  have hsent : '#' ∉ path ++ '?' :: query := by
    intro hmem
    obtain hmem | hmem := List.mem_append.mp hmem
    · exact hpath hmem
    · exact hquery ((List.mem_cons.mp hmem).resolve_left (by decide))
  unfold destinationUnder
  dsimp only
  rw [sent_of_noHash hsent, hmark, splitOnce_of_not_mem hquestion]
  rfl

end Reading

/-- **Every URL of the proxy leads to its destination.** -/
theorem leadsTo_render (h : ReadableUrls web mint proxyBase params) (endpoint : Endpoint)
    (destination : Str) {iv : Bytes} (hiv : iv.length = 16) (now : ℕ) :
    LeadsTo web mint.toTokenCrates proxyBase params.apiPassword
      ((Piece.proxied endpoint destination).render web mint proxyBase params iv now)
      destination := by
  obtain ⟨name, hpath, hplain⟩ := @endpointPath_request proxyBase destination params endpoint
  have hhash : '#' ∉ "/proxy/hls/".toList ++ name := not_mem_of_pathChar (by decide) hplain
  by_cases hpassword : params.apiPassword = []
  · -- the destination is in the query
    obtain ⟨hread, hnames⟩ := @destination_request web proxyBase destination params endpoint h.codes
      (h.names hpassword)
    refine ⟨_, render_of_noPassword endpoint iv now h.codes hpassword, fun later clientIp => ?_⟩
    have hquestion : '?' ∉ "/proxy/hls/".toList ++ name := not_mem_of_pathChar (by decide) hplain
    rw [hpath, destinationUnder_of_query rfl hquestion hhash (hash_not_mem_query hnames), hread]
  · -- it is in the token
    have hmint := h.mints hpassword endpoint destination now
    have hexp : ((endpoint.request proxyBase destination params).payload now).exp = none := by
      cases endpoint <;> rfl
    have hip : ((endpoint.request proxyBase destination params).payload now).ip = none := by
      cases endpoint <;> rfl
    have hnot : ∀ {c : Char}, unreserved c = false →
        c ∉ (EncryptionHandler.new (utf8 params.apiPassword)).encrypt mint iv
          ((endpoint.request proxyBase destination params).payload now) := by
      intro c hc hmem
      exact Bool.false_ne_true (hc.symm.trans (hmint.alphabet _ c hmem))
    refine ⟨_, render_of_password endpoint iv now hpassword, fun later clientIp => ?_⟩
    rw [hpath]
    refine (destinationUnder_of_decrypt (hnot (by decide)) (hnot (by decide))
      (fun hmem => hhash (List.mem_cons_of_mem _ hmem))
      (decrypt_encrypt hmint hiv hexp hip _ later clientIp)).trans ?_
    cases endpoint <;> rfl

end Urls

end Proof

/-- **All URIs are rewritten** exactly if the playlist is plain. -/
theorem rewritesAll_iff (crates : HlsCrates) (opts : ManifestOptions) (sourceUrl : Str)
    {web : WebCrates} {mint : MintCrates} {proxyBase : Str} {params : ProxyParams}
    (hurls : ReadableUrls web mint proxyBase params) {content : Bytes} {pl : Playlist Str}
    (hparse : crates.parsePlaylist content = some pl) :
    RewritesAll crates (proxying opts) sourceUrl web mint proxyBase params content pl ↔
      PlainPlaylist (proxying opts) content pl := by
  rw [← outputRewritten_iff hparse]
  constructor
  · exact RewritesAll.output
  · intro hout
    exact ⟨hout, fun endpoint destination iv now hiv => leadsTo_render hurls endpoint destination hiv now⟩

/-! ### Two master playlists -/

def variantText : Str := "#EXTM3U\n#EXT-X-STREAM-INF:BANDWIDTH=1\nv.m3u8\n".toList

/-- The same, with a session key. -/
def sessionKeyText : Str :=
  "#EXTM3U\n#EXT-X-SESSION-KEY:METHOD=AES-128,URI=\"k\"\n#EXT-X-STREAM-INF:BANDWIDTH=1\nv.m3u8\n".toList

def variantMaster : MasterPlaylist Str where
  variants := [⟨false, "v.m3u8".toList⟩]

def sessionKeyMaster : MasterPlaylist Str := { variantMaster with sessionKeys := [some ['k']] }

/-- m3u8-rs and the `url` crate, for these texts and the URL `http://h/m.m3u8`. -/
def masterCrates : HlsCrates where
  parses _ := true
  join _ path := some ("http://h/".toList ++ path)
  parsePlaylist content :=
    if content = utf8 variantText then some (.master variantMaster)
    else if content = utf8 sessionKeyText then some (.master sessionKeyMaster)
    else none

/-- No token is written without a password. -/
def noPayload : MintCrates := onePayload ⟨[], none, none, none, none, none⟩ [] []

def noPassword : ProxyParams := ⟨[], [], none⟩

theorem noPassword_readableUrls : ReadableUrls standardWeb noPayload "http://p".toList noPassword where
  codes := standardWeb_codesUrls
  names _ := List.forall_mem_nil _
  mints h := absurd rfl h

theorem parse_variantText : masterCrates.parsePlaylist (utf8 variantText) =
    some (.master variantMaster) := by
  unfold masterCrates
  dsimp only
  rw [if_pos rfl]

theorem parse_sessionKeyText : masterCrates.parsePlaylist (utf8 sessionKeyText) =
    some (.master sessionKeyMaster) := by
  have hne : utf8 sessionKeyText ≠ utf8 variantText := by decide +kernel
  unfold masterCrates
  dsimp only
  rw [if_neg hne, if_pos rfl]

theorem variantText_rewritesAll : RewritesAll masterCrates (proxying {}) "http://h/m.m3u8".toList
    standardWeb noPayload "http://p".toList noPassword (utf8 variantText) (.master variantMaster) := by
  refine (rewritesAll_iff masterCrates {} _ noPassword_readableUrls parse_variantText).mpr ?_
  have hiptv : ¬ isIptvPlaylist (utf8 variantText) = true := by decide +kernel
  unfold PlainPlaylist
  rw [if_neg hiptv]
  exact List.forall_mem_singleton.mpr trivial

/-- The key of the session stays as it is. -/
theorem sessionKeyText_not_rewritesAll :
    masterCrates.parsePlaylist (utf8 sessionKeyText) = some (.master sessionKeyMaster) ∧
      ReadableUrls standardWeb noPayload "http://p".toList noPassword ∧
      ¬ RewritesAll masterCrates (proxying {}) "http://h/m.m3u8".toList standardWeb noPayload
        "http://p".toList noPassword (utf8 sessionKeyText) (.master sessionKeyMaster) := by
  refine ⟨parse_sessionKeyText, noPassword_readableUrls, fun h => ?_⟩
  have hplain := (outputRewritten_iff parse_sessionKeyText).mp h.output
  have hiptv : ¬ isIptvPlaylist (utf8 sessionKeyText) = true := by decide +kernel
  unfold PlainPlaylist at hplain
  rw [if_neg hiptv] at hplain
  exact hplain ⟨.sessionKey, ['k']⟩ (List.mem_cons_of_mem _ List.mem_cons_self)

end MediaFlow
