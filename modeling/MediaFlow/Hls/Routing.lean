import MediaFlow.Hls.Manifest

/-!
# Where URIs are sent

The processor rewrites a playlist as the structure that m3u8-rs makes of it, or line by line. Here a
playlist is a list of items, each with its lines and with what m3u8-rs reads of them.
`routesAlike_iff` says when both ways send the URIs of all items to the same endpoints.
-/

open Text UrlCoding

namespace MediaFlow

open ManifestProcessor

/-! ### Items of playlists -/

def uriMark : Str := "URI=\"".toList

/-- The first `URI="..."` of a text. -/
def firstUri (s : Str) : Option Str :=
  match find uriMark s with
  | none => none
  | some start =>
    let rest := s.drop (start + 5)
    (find ['"'] rest).map rest.take

/-- The line of a tag. -/
def tagLine (tag : Str) : Option Str → Str
  | some rest => "#EXT-".toList ++ tag ++ ':' :: rest
  | none => "#EXT-".toList ++ tag

/-- A line that says nothing of segments, and is no URL. -/
structure IsTagLine (line : Str) : Prop where
  isLine : IsLine line
  noHeader : trim line ≠ "#EXTM3U".toList
  noExtinf : extinfTag.isPrefixOf line = false
  noUrl : line.head? = some '#' ∨ trim line = []

/-- A line that is a URL. -/
structure IsUrl (line : Str) : Prop where
  isLine : IsLine line
  noHeader : trim line ≠ "#EXTM3U".toList
  noTag : line.head? ≠ some '#'
  nonempty : trim line ≠ []

/-- An item of a master playlist. The attributes of a tag stand with the URI that m3u8-rs reads from
them. -/
inductive MasterItem
  | variant (attributes uri : Str)
  | iFrame (attributes uri : Str)
  | media (attributes : Str) (uri : Option Str)
  | sessionData (attributes : Str) (uri : Option Str)
  | sessionKey (attributes : Str) (uri : Option Str)
  | unknown (tag : Str) (rest : Option Str)
  /-- A comment, or a tag without a URI. -/
  | other (line : Str)

namespace MasterItem

/-- The line of the tag. -/
def tag : MasterItem → Str
  | variant attributes _ => tagLine "X-STREAM-INF".toList (some attributes)
  | iFrame attributes _ => tagLine "X-I-FRAME-STREAM-INF".toList (some attributes)
  | media attributes _ => tagLine "X-MEDIA".toList (some attributes)
  | sessionData attributes _ => tagLine "X-SESSION-DATA".toList (some attributes)
  | sessionKey attributes _ => tagLine "X-SESSION-KEY".toList (some attributes)
  | unknown tag rest => tagLine tag rest
  | other line => line

/-- The URI of a variant stands on a line of its own. -/
def urlLine : MasterItem → List Str
  | variant _ uri => [uri]
  | _ => []

def lines (item : MasterItem) : List Str := item.tag :: item.urlLine

structure WellFormed (item : MasterItem) : Prop where
  tag : IsTagLine item.tag
  url : ∀ line ∈ item.urlLine, IsUrl line
  name : ∀ tag rest, item = unknown tag rest → '"' ∉ tag

/-- What the item adds to the playlist that m3u8-rs reads. -/
def parsed : MasterItem → MasterPlaylist Str
  | variant _ uri => { variants := [⟨false, uri⟩] }
  | iFrame _ uri => { variants := [⟨true, uri⟩] }
  | media _ uri => { variants := [], alternatives := [⟨uri⟩] }
  | sessionData _ uri => { variants := [], sessionData := [uri] }
  | sessionKey _ uri => { variants := [], sessionKeys := [uri] }
  | unknown tag rest => { variants := [], unknownTags := [⟨tag, rest⟩] }
  | other _ => { variants := [] }

end MasterItem

/-- Playlists one after the other. -/
def concatMasters {α : Type} (pls : List (MasterPlaylist α)) : MasterPlaylist α where
  variants := pls.flatMap MasterPlaylist.variants
  alternatives := pls.flatMap MasterPlaylist.alternatives
  sessionData := pls.flatMap MasterPlaylist.sessionData
  sessionKeys := pls.flatMap MasterPlaylist.sessionKeys
  unknownTags := pls.flatMap MasterPlaylist.unknownTags

/-- A master playlist as a text. -/
structure MasterSource where
  items : List MasterItem
  wellFormed : ∀ item ∈ items, item.WellFormed

def MasterSource.text (src : MasterSource) : Str :=
  unlines ("#EXTM3U".toList :: src.items.flatMap MasterItem.lines)

def MasterSource.parsed (src : MasterSource) : MasterPlaylist Str :=
  concatMasters (src.items.map MasterItem.parsed)

/-- A segment, with the tags before it. -/
structure SegmentItem where
  key : Option (Str × Key Str) := none
  map : Option (Str × MapTag Str) := none
  unknownTags : List (ExtTag Str) := []
  extinf : Str
  duration : ℚ
  uri : Str

namespace SegmentItem

variable (seg : SegmentItem)

def keyLine (attributes : Str) : Str := tagLine "X-KEY".toList (some attributes)

def mapLine (attributes : Str) : Str := tagLine "X-MAP".toList (some attributes)

def tagLines : List Str :=
  (seg.key.map fun key => keyLine key.1).toList ++ (seg.map.map fun map => mapLine map.1).toList ++
    seg.unknownTags.map fun unknown => tagLine unknown.tag unknown.rest

def extinfLine : Str := extinfTag ++ seg.extinf

def lines : List Str := seg.tagLines ++ [seg.extinfLine, seg.uri]

structure WellFormed : Prop where
  tags : ∀ line ∈ seg.tagLines, IsTagLine line
  extinf : IsLine seg.extinfLine
  url : IsUrl seg.uri
  names : ∀ unknown ∈ seg.unknownTags, '"' ∉ unknown.tag

def parsed : MediaSegment Str where
  uri := seg.uri
  duration := seg.duration
  key := seg.key.map Prod.snd
  map := seg.map.map Prod.snd
  unknownTags := seg.unknownTags

end SegmentItem

/-- An item of a media playlist. -/
inductive MediaItem
  | segment (seg : SegmentItem)
  /-- Of the playlist, not of a segment. -/
  | unknown (tag : ExtTag Str)
  | other (line : Str)

namespace MediaItem

def lines : MediaItem → List Str
  | segment seg => seg.lines
  | unknown tag => [tagLine tag.tag tag.rest]
  | other line => [line]

def WellFormed : MediaItem → Prop
  | segment seg => seg.WellFormed
  | unknown tag => IsTagLine (tagLine tag.tag tag.rest) ∧ '"' ∉ tag.tag
  | other line => IsTagLine line

def segments : MediaItem → List SegmentItem
  | segment seg => [seg]
  | _ => []

def unknownTags : MediaItem → List (ExtTag Str)
  | unknown tag => [tag]
  | _ => []

end MediaItem

structure MediaSource where
  items : List MediaItem
  wellFormed : ∀ item ∈ items, item.WellFormed
  mediaSequence : ℕ
  playlistType : Option PlaylistType
  endList : Bool

def MediaSource.text (src : MediaSource) : Str :=
  unlines ("#EXTM3U".toList :: src.items.flatMap MediaItem.lines)

def MediaSource.parsed (src : MediaSource) : MediaPlaylist Str where
  mediaSequence := src.mediaSequence
  segments := (src.items.flatMap MediaItem.segments).map SegmentItem.parsed
  playlistType := src.playlistType
  endList := src.endList
  unknownTags := src.items.flatMap MediaItem.unknownTags

/-! ### Routes -/

/-- The endpoints to which a text sends, with the destinations. -/
def routesOf (w : Written) : List (Endpoint × Str) :=
  w.filterMap fun
    | .proxied endpoint destination => some (endpoint, destination)
    | .text _ => none

def routesOfOption (w : Option Written) : List (Endpoint × Str) := w.toList.flatMap routesOf

def routesOfMaster (pl : MasterPlaylist Written) : List (Endpoint × Str) :=
  pl.variants.flatMap (fun v => routesOf v.uri) ++
    pl.alternatives.flatMap (fun alt => routesOfOption alt.uri) ++
    pl.sessionData.flatMap routesOfOption ++ pl.sessionKeys.flatMap routesOfOption ++
    pl.unknownTags.flatMap fun unknown => routesOfOption unknown.rest

/-- URIs are sent through the proxy, those of all segments. -/
def routingMode (opts : ManifestOptions) : ManifestOptions :=
  { opts with noProxy := false, skipRanges := [] }

section Alike

variable (crates : HlsCrates) (opts : ManifestOptions) (baseUrl : Str)

/-- Where the line path sends the URI of a line. -/
def lineRoutes (line : Str) : List (Endpoint × Str) :=
  (processLine crates opts baseUrl (firstState opts) line).1.flatMap routesOf

/-- Both paths send the URIs of a master playlist item by item, and those of each item alike. -/
structure MastersAlike (src : MasterSource) : Prop where
  structured : processMaster crates opts src.parsed baseUrl =
    concatMasters (src.items.map fun item => processMaster crates opts item.parsed baseUrl)
  lines : (processLines crates opts src.text baseUrl).flatMap routesOf =
    src.items.flatMap fun item => item.lines.flatMap (lineRoutes crates opts baseUrl)
  alike : ∀ item ∈ src.items, routesOfMaster (processMaster crates opts item.parsed baseUrl) =
    item.lines.flatMap (lineRoutes crates opts baseUrl)

/-- Both paths send the URIs of a segment alike. -/
structure SegmentsAlike (seg : SegmentItem) : Prop where
  key : ∀ attributes key, seg.key = some (attributes, key) →
    ((rewriteSegment crates opts baseUrl seg.parsed).key.toList.flatMap fun key =>
        routesOfOption key.uri) =
      lineRoutes crates opts baseUrl (SegmentItem.keyLine attributes)
  map : ∀ attributes map, seg.map = some (attributes, map) →
    ((rewriteSegment crates opts baseUrl seg.parsed).map.toList.flatMap fun map =>
        routesOf map.uri) =
      lineRoutes crates opts baseUrl (SegmentItem.mapLine attributes)
  unknown : (rewriteSegment crates opts baseUrl seg.parsed).unknownTags.map
      (fun unknown => routesOfOption unknown.rest) =
    seg.unknownTags.map fun unknown =>
      lineRoutes crates opts baseUrl (tagLine unknown.tag unknown.rest)
  uri : routesOf (rewriteSegment crates opts baseUrl seg.parsed).uri =
    lineRoutes crates opts baseUrl seg.uri

/-- Both paths send the URIs of an item of a media playlist alike. -/
def MediaItemsAlike : MediaItem → Prop
  | .segment seg => SegmentsAlike crates opts baseUrl seg
  | .unknown tag => routesOfOption (rewriteMediaTag crates opts baseUrl tag).rest =
    lineRoutes crates opts baseUrl (tagLine tag.tag tag.rest)
  | .other line => lineRoutes crates opts baseUrl line = []

structure MediaAlike (src : MediaSource) : Prop where
  segments : (processMedia crates opts src.parsed baseUrl).1.segments =
    (src.items.flatMap MediaItem.segments).map fun seg =>
      rewriteSegment crates opts baseUrl seg.parsed
  unknown : (processMedia crates opts src.parsed baseUrl).1.unknownTags =
    (src.items.flatMap MediaItem.unknownTags).map (rewriteMediaTag crates opts baseUrl)
  lines : (processLines crates opts src.text baseUrl).flatMap routesOf =
    src.items.flatMap fun item => item.lines.flatMap (lineRoutes crates opts baseUrl)
  alike : ∀ item ∈ src.items, MediaItemsAlike crates opts baseUrl item

/-! ### The condition -/

/-- The endpoint that the line path takes for the URI of a tag. -/
def lineEndpoint (line : Str) : Endpoint :=
  if "#EXT-X-MAP".toList.isPrefixOf line then .segment
  else if "#EXT-X-MEDIA".toList.isPrefixOf line then .manifest
  else .key

/-- The first URI of a tag is the one that m3u8-rs reads, or leads to the same URL. -/
def FirstIs (line : Str) (uri : Option Str) : Prop :=
  (firstUri line).map (Utils.resolveUrl crates.toJoinCrate baseUrl) =
    uri.map (Utils.resolveUrl crates.toJoinCrate baseUrl)

/-- An unknown tag of a media playlist, if it has a URI, is for the line path what it is for the
other. -/
def PlainTag (unknown : ExtTag Str) : Prop :=
  firstUri (tagLine unknown.tag unknown.rest) = none ∨
    lineEndpoint (tagLine unknown.tag unknown.rest) =
      if isPlaylistTag unknown.tag then .manifest else .key

/-- **The condition**, for an item of a master playlist: only variants with the extension of a
playlist, unless playlists are forced, and renditions have URIs. If only keys are proxied, there are
no variants. -/
def PlainMasterItem (item : MasterItem) : Prop :=
  match item with
  | .variant _ uri => firstUri item.tag = none ∧ opts.keyOnlyProxy = false ∧
    (isPlaylistUrl (Utils.resolveUrl crates.toJoinCrate baseUrl uri) = true ∨
      opts.forcePlaylistProxy = true)
  | .iFrame _ _ => False
  | .media _ uri => FirstIs crates baseUrl item.tag uri
  | .unknown tag _ => tag = "X-MEDIA".toList ∨ firstUri item.tag = none
  | .sessionData _ _ | .sessionKey _ _ | .other _ => firstUri item.tag = none

/-- For an item of a media playlist. -/
def PlainMediaItem : MediaItem → Prop
  | .segment seg =>
    (∀ attributes key, seg.key = some (attributes, key) →
      FirstIs crates baseUrl (SegmentItem.keyLine attributes) key.uri) ∧
    (∀ attributes map, seg.map = some (attributes, map) →
      FirstIs crates baseUrl (SegmentItem.mapLine attributes) (some map.uri)) ∧
    ∀ unknown ∈ seg.unknownTags, PlainTag unknown
  | .unknown tag => PlainTag tag
  | .other line => firstUri line = none

end Alike

section Proof

variable {crates : HlsCrates} {opts : ManifestOptions} {baseUrl : Str}

/-- What `routingMode` says. -/
structure InRoutingMode (opts : ManifestOptions) : Prop where
  noProxy : opts.noProxy = false
  skipRanges : opts.skipRanges = []

/-! ### The first URI of a tag -/

/-- The pattern has a quote, so a text without quotes has no URI. -/
theorem firstUri_eq_none {s : Str} (h : '"' ∉ s) : firstUri s = none := by
  unfold firstUri
  rw [find_eq_none_of_not_mem (c := '"') (by decide) h]

/-- The URI of a tag is that of what follows the colon. -/
theorem firstUri_tagLine {tag : Str} (htag : '"' ∉ tag) (rest : Option Str) :
    firstUri (tagLine tag rest) = rest.bind firstUri := by
  have hname : '"' ∉ "#EXT-".toList ++ tag := by
    rw [List.mem_append, not_or]
    exact ⟨by decide, htag⟩
  cases rest with
  | none => exact firstUri_eq_none hname
  | some rest =>
    have hfind : find uriMark (("#EXT-".toList ++ tag) ++ ':' :: rest) =
        (find uriMark rest).map (· + (("#EXT-".toList ++ tag).length + 1)) :=
      find_append_cons (by decide) (find_eq_none_of_not_mem (c := '"') (by decide) hname) rest
    show firstUri (("#EXT-".toList ++ tag) ++ ':' :: rest) = firstUri rest
    unfold firstUri
    rw [hfind]
    cases find uriMark rest with
    | none => rfl
    | some start =>
      have hdrop : (("#EXT-".toList ++ tag) ++ ':' :: rest).drop
          (start + (("#EXT-".toList ++ tag).length + 1) + 5) = rest.drop (start + 5) := by
        rw [show start + (("#EXT-".toList ++ tag).length + 1) + 5 =
          ("#EXT-".toList ++ tag).length + (start + 5 + 1) by omega, List.drop_append]
        simp
      rw [Option.map_some]
      dsimp only
      rw [hdrop]

/-- Where a text has a URI, it has the words that the line path looks for. -/
theorem contains_of_firstUri {s u : Str} (h : firstUri s = some u) :
    contains s "URI=".toList = true := by
  refine @isSome_find_of_first _ uriMark _ (by decide) ?_
  unfold firstUri at h
  cases hfind : find uriMark s with
  | none =>
    rw [hfind] at h
    cases h
  | some start => rfl

/-! ### Where a URI is sent -/

/-- The route of a URI that there may be. -/
def sent (crate : JoinCrate) (baseUrl : Str) (endpoint : Endpoint) (uri : Option Str) :
    List (Endpoint × Str) :=
  (uri.map fun uri => (endpoint, Utils.resolveUrl crate baseUrl uri)).toList

/-- The route of a URL on a line of its own. -/
def urlRoutes (crate : JoinCrate) (opts : ManifestOptions) (baseUrl uri : Str) :
    List (Endpoint × Str) :=
  let resolved := Utils.resolveUrl crate baseUrl uri
  if opts.keyOnlyProxy = true then []
  else if isPlaylistUrl resolved = true ∨ opts.forcePlaylistProxy = true then
    [(.manifest, resolved)]
  else [(.segment, resolved)]

/-- A URL on a line of its own is sent to the manifest endpoint. -/
theorem urlRoutes_eq_manifest_iff {crate : JoinCrate} (uri : Str) :
    urlRoutes crate opts baseUrl uri = sent crate baseUrl .manifest (some uri) ↔
      opts.keyOnlyProxy = false ∧
        (isPlaylistUrl (Utils.resolveUrl crate baseUrl uri) = true ∨
          opts.forcePlaylistProxy = true) := by
  unfold urlRoutes
  dsimp only
  by_cases hkeys : opts.keyOnlyProxy = true
  · rw [if_pos hkeys]
    exact iff_of_false nofun fun h => absurd hkeys (Bool.eq_false_iff.mp h.1)
  rw [if_neg hkeys]
  have hfalse : opts.keyOnlyProxy = false := Bool.eq_false_iff.mpr hkeys
  by_cases hplaylist : isPlaylistUrl (Utils.resolveUrl crate baseUrl uri) = true ∨
      opts.forcePlaylistProxy = true
  · rw [if_pos hplaylist]
    exact iff_of_true rfl ⟨hfalse, hplaylist⟩
  · rw [if_neg hplaylist]
    refine iff_of_false (fun hsame => ?_) fun h => hplaylist h.2
    cases congrArg Prod.fst (List.cons.inj hsame).1

theorem sent_eq_nil_iff {crate : JoinCrate} {endpoint : Endpoint} {uri : Option Str} :
    sent crate baseUrl endpoint uri = [] ↔ uri = none := by
  unfold sent
  rw [Option.toList_eq_nil_iff, Option.map_eq_none_iff]

theorem sent_eq_sent_iff {crate : JoinCrate} {endpoint : Endpoint} {uri uri' : Option Str} :
    sent crate baseUrl endpoint uri = sent crate baseUrl endpoint uri' ↔
      uri.map (Utils.resolveUrl crate baseUrl) = uri'.map (Utils.resolveUrl crate baseUrl) := by
  unfold sent
  cases uri with
  | none => cases uri' with
    | none => simp
    | some uri' => simp
  | some uri => cases uri' with
    | none => simp
    | some uri' => simp

theorem sent_endpoint_iff {crate : JoinCrate} {endpoint endpoint' : Endpoint} {uri : Option Str} :
    sent crate baseUrl endpoint uri = sent crate baseUrl endpoint' uri ↔
      uri = none ∨ endpoint' = endpoint := by
  unfold sent
  cases uri with
  | none => simp
  | some uri => simp [eq_comm]

section Mode

variable (hmode : InRoutingMode opts)

include hmode

theorem target_eq (endpoint : Endpoint) (uri : Str) :
    target crates opts endpoint baseUrl uri =
      .proxied endpoint (Utils.resolveUrl crates.toJoinCrate baseUrl uri) := by
  unfold target
  rw [hmode.noProxy]
  rfl

/-- A rewritten URI is sent where it is to go. -/
theorem routesOf_rewriteUriValue (endpoint : Endpoint) (s : Str) :
    routesOf (rewriteUriValue (target crates opts endpoint baseUrl) s) =
      sent crates.toJoinCrate baseUrl endpoint (firstUri s) := by
  unfold rewriteUriValue firstUri uriMark
  cases find "URI=\"".toList s with
  | none => rfl
  | some start =>
    dsimp only
    cases find ['"'] (s.drop (start + 5)) with
    | none => rfl
    | some stop =>
      dsimp only
      rw [target_eq hmode]
      rfl

theorem routesOf_rewriteSegmentOrPlaylistUri (uri : Str) :
    routesOf [rewriteSegmentOrPlaylistUri crates opts uri baseUrl] =
      urlRoutes crates.toJoinCrate opts baseUrl uri := by
  unfold rewriteSegmentOrPlaylistUri urlRoutes
  dsimp only
  rw [hmode.noProxy, if_neg Bool.false_ne_true]
  by_cases hkeys : opts.keyOnlyProxy = true
  · rw [if_pos hkeys, if_pos hkeys]
    rfl
  rw [if_neg hkeys, if_neg hkeys]
  by_cases hplaylist : isPlaylistUrl (Utils.resolveUrl crates.toJoinCrate baseUrl uri) = true
  · rw [if_pos hplaylist, if_pos (.inl hplaylist)]
    rfl
  rw [if_neg hplaylist]
  by_cases hforce : opts.forcePlaylistProxy = true
  · rw [if_pos hforce, if_pos (.inr hforce)]
    rfl
  · rw [if_neg hforce, if_neg (not_or.mpr ⟨hplaylist, hforce⟩)]
    rfl

/-- The structured path sends the URI of an unknown tag that it rewrites. -/
theorem routesOfOption_rewriteUnknown (isPlaylist : Bool) (unknown : ExtTag Str) :
    routesOfOption (rewriteUnknown crates opts baseUrl isPlaylist unknown).rest =
      sent crates.toJoinCrate baseUrl (if isPlaylist then .manifest else .key)
        (unknown.rest.bind firstUri) := by
  unfold rewriteUnknown
  cases unknown.rest with
  | none => rfl
  | some rest =>
    rw [Option.map_some, Option.bind_some]
    show (some _ : Option Written).toList.flatMap routesOf = _
    rw [Option.toList_some, List.flatMap_singleton]
    by_cases huri : contains rest "URI=\"".toList = true
    · rw [if_pos huri]
      exact routesOf_rewriteUriValue hmode _ rest
    · have hfind : find uriMark rest = none := Option.not_isSome_iff_eq_none.mp huri
      have hnone : firstUri rest = none := by
        unfold firstUri
        rw [hfind]
      rw [if_neg huri, hnone]
      rfl

end Mode

/-! ### The line path -/

section Lines

variable {st : LineState} (hst : st.skipFilter = none)

include hst

/-- What is written for a URL, besides it, has no routes. -/
theorem processUrlLine_routes (line : Str) :
    (processUrlLine crates opts baseUrl st line).1.flatMap routesOf =
        routesOf [rewriteSegmentOrPlaylistUri crates opts line baseUrl] ∧
      (processUrlLine crates opts baseUrl st line).2.skipFilter = none := by
  unfold processUrlLine
  rw [if_neg (by simp [hst])]
  refine ⟨?_, hst⟩
  -- neither a discontinuity nor the EXTINF
  cases st.needDiscontinuity with
  | false =>
    cases st.pendingExtinf with
    | none => exact List.flatMap_singleton ..
    | some extinf => exact List.flatMap_singleton ..
  | true =>
    cases st.pendingExtinf with
    | none => exact List.flatMap_singleton ..
    | some extinf => exact List.flatMap_singleton ..

/-- The routes of a line, by what it is. -/
theorem processLine_routes_eq (line : Str) :
    (processLine crates opts baseUrl st line).1.flatMap routesOf =
        (if trim line = "#EXTM3U".toList then []
        else if extinfTag.isPrefixOf line = true then []
        else if line.head? ≠ some '#' ∧ trim line ≠ [] then
          routesOf [rewriteSegmentOrPlaylistUri crates opts line baseUrl]
        else if contains line "URI=".toList = true then
          routesOf (processTagWithUri crates opts line baseUrl)
        else []) ∧
      (processLine crates opts baseUrl st line).2.skipFilter = none := by
  unfold processLine
  by_cases hheader : trim line = "#EXTM3U".toList
  · rw [if_pos hheader, if_pos hheader]
    split
    · split
      · exact ⟨rfl, hst⟩
      · exact ⟨rfl, hst⟩
    · exact ⟨rfl, hst⟩
  rw [if_neg hheader, if_neg hheader]
  by_cases hextinf : extinfTag.isPrefixOf line = true
  · rw [if_pos hextinf, if_pos hextinf]
    unfold processExtinf
    rw [hst]
    exact ⟨rfl, rfl⟩
  rw [if_neg hextinf, if_neg hextinf]
  by_cases hurl : line.head? ≠ some '#' ∧ trim line ≠ []
  · rw [if_pos hurl, if_pos hurl]
    exact processUrlLine_routes hst line
  rw [if_neg hurl, if_neg hurl]
  by_cases huri : contains line "URI=".toList = true
  · rw [if_pos huri, if_pos huri]
    exact ⟨List.flatMap_singleton .., hst⟩
  rw [if_neg huri, if_neg huri]
  split
  · exact ⟨rfl, hst⟩
  · exact ⟨rfl, hst⟩

end Lines

section Mode

variable (hmode : InRoutingMode opts)

include hmode

/-- No line is skipped at first. -/
theorem firstState_skipFilter : (firstState opts).skipFilter = none := by
  unfold firstState
  rw [hmode.skipRanges]
  rfl

/-- **A text** sends where its lines do, whatever the state. -/
theorem processLinesFrom_routes {st : LineState} (hst : st.skipFilter = none) (ls : List Str) :
    (processLinesFrom crates opts baseUrl st ls).flatMap routesOf =
      ls.flatMap (lineRoutes crates opts baseUrl) := by
  induction ls generalizing st with
  | nil => rfl
  | cons line rest ih =>
    have hline : (processLine crates opts baseUrl st line).1.flatMap routesOf =
        lineRoutes crates opts baseUrl line := by
      unfold lineRoutes
      rw [(processLine_routes_eq hst line).1,
        (processLine_routes_eq (firstState_skipFilter hmode) line).1]
    rw [processLinesFrom, List.flatMap_append, hline, ih (processLine_routes_eq hst line).2,
      List.flatMap_cons]

/-- The header has no routes. -/
theorem lineRoutes_header : lineRoutes crates opts baseUrl "#EXTM3U".toList = [] := by
  unfold lineRoutes
  rw [(processLine_routes_eq (firstState_skipFilter hmode) _).1, if_pos (by decide)]

theorem lineRoutes_url {line : Str} (h : IsUrl line) :
    lineRoutes crates opts baseUrl line = urlRoutes crates.toJoinCrate opts baseUrl line := by
  have hextinf : ¬ extinfTag.isPrefixOf line = true := by
    intro hextinf
    obtain ⟨rest, rfl⟩ := List.isPrefixOf_iff_prefix.mp hextinf
    exact h.noTag rfl
  unfold lineRoutes
  rw [(processLine_routes_eq (firstState_skipFilter hmode) _).1, if_neg h.noHeader,
    if_neg hextinf, if_pos ⟨h.noTag, h.nonempty⟩]
  exact routesOf_rewriteSegmentOrPlaylistUri hmode line

/-- The line path sends the first URI of a tag. -/
theorem lineRoutes_tag {line : Str} (h : IsTagLine line) : lineRoutes crates opts baseUrl line =
    sent crates.toJoinCrate baseUrl (lineEndpoint line) (firstUri line) := by
  have hurl : ¬ (line.head? ≠ some '#' ∧ trim line ≠ []) := fun hline =>
    h.noUrl.elim hline.1 hline.2
  unfold lineRoutes
  rw [(processLine_routes_eq (firstState_skipFilter hmode) _).1, if_neg h.noHeader,
    if_neg (Bool.eq_false_iff.mp h.noExtinf), if_neg hurl]
  by_cases huri : contains line "URI=".toList = true
  · rw [if_pos huri]
    exact routesOf_rewriteUriValue hmode (lineEndpoint line) line
  · have hnone : firstUri line = none := by
      by_contra hsome
      obtain ⟨uri, hfirst⟩ := Option.ne_none_iff_exists'.mp hsome
      exact huri (contains_of_firstUri hfirst)
    rw [if_neg huri, hnone]
    rfl

/-- The text of a playlist, whose lines may stand in one. -/
theorem processLines_routes {ls : List Str} (hls : ∀ line ∈ ls, IsLine line) :
    (processLines crates opts (unlines ("#EXTM3U".toList :: ls)) baseUrl).flatMap routesOf =
      ls.flatMap (lineRoutes crates opts baseUrl) := by
  have hlines : ∀ line ∈ "#EXTM3U".toList :: ls, IsLine line :=
    List.forall_mem_cons.mpr ⟨⟨by decide, by decide⟩, hls⟩
  unfold processLines
  rw [lines_unlines hlines, processLinesFrom_routes hmode (firstState_skipFilter hmode),
    List.flatMap_cons, lineRoutes_header hmode, List.nil_append]

end Mode

/-! ### Master playlists -/

section Masters

variable (hmode : InRoutingMode opts) (item : MasterItem)

include hmode

/-- Where the structured path sends the URI of an item. -/
theorem routesOfMaster_parsed : routesOfMaster (processMaster crates opts item.parsed baseUrl) =
    match item with
    | .variant _ uri | .iFrame _ uri => sent crates.toJoinCrate baseUrl .manifest (some uri)
    | .media _ uri => sent crates.toJoinCrate baseUrl .manifest uri
    | .unknown tag rest =>
      if tag = "X-MEDIA".toList then
        sent crates.toJoinCrate baseUrl .manifest (rest.bind firstUri)
      else []
    | .sessionData _ _ | .sessionKey _ _ | .other _ => [] := by
  have hproxy := hmode.noProxy
  obtain ⟨_, noProxy, _, _, _, _⟩ := opts
  obtain rfl : noProxy = false := hproxy
  cases item with
  | variant attributes uri => rfl
  | iFrame attributes uri => rfl
  | media attributes uri =>
    cases uri with
    | none => rfl
    | some uri => rfl
  | sessionData attributes uri =>
    cases uri with
    | none => rfl
    | some uri => rfl
  | sessionKey attributes uri =>
    cases uri with
    | none => rfl
    | some uri => rfl
  | unknown tag rest =>
    refine (List.append_nil _).trans ?_
    show routesOfOption (if ¬ false = true ∧ tag = "X-MEDIA".toList then
      rewriteUnknown crates _ baseUrl true ⟨tag, rest⟩ else ⟨tag, rest.map verbatim⟩).rest = _
    by_cases hmedia : tag = "X-MEDIA".toList
    · rw [if_pos ⟨Bool.false_ne_true, hmedia⟩, routesOfOption_rewriteUnknown hmode]
      exact (if_pos hmedia).symm
    · rw [if_neg fun h => hmedia h.2]
      refine Eq.trans ?_ (if_neg hmedia).symm
      cases rest with
      | none => rfl
      | some rest => rfl
  | other line => rfl

variable (h : item.WellFormed)

include h

/-- Where the line path sends the URIs of an item. -/
theorem lineRoutes_item : item.lines.flatMap (lineRoutes crates opts baseUrl) =
    sent crates.toJoinCrate baseUrl (lineEndpoint item.tag) (firstUri item.tag) ++
      item.urlLine.flatMap (urlRoutes crates.toJoinCrate opts baseUrl) := by
  unfold MasterItem.lines
  rw [List.flatMap_cons, lineRoutes_tag hmode h.tag]
  congr 1
  exact List.flatMap_congr fun uri huri => lineRoutes_url hmode (h.url uri huri)

/-- **An item** of a master playlist. -/
theorem masterItem_alike_iff : routesOfMaster (processMaster crates opts item.parsed baseUrl) =
      item.lines.flatMap (lineRoutes crates opts baseUrl) ↔
    PlainMasterItem crates opts baseUrl item := by
  rw [lineRoutes_item hmode item h, routesOfMaster_parsed hmode]
  cases item with
  | variant attributes uri =>
    show sent .. = sent _ _ _ (firstUri (MasterItem.variant attributes uri).tag) ++
      (urlRoutes .. ++ []) ↔ _
    rw [List.append_nil]
    constructor
    · intro hsame
      cases hfirst : firstUri (MasterItem.variant attributes uri).tag with
      | some first =>
        -- the line path takes the URI of the tag for a key
        rw [hfirst] at hsame
        cases congrArg Prod.fst (List.cons.inj hsame).1
      | none =>
        rw [hfirst] at hsame
        exact ⟨hfirst, (urlRoutes_eq_manifest_iff uri).mp hsame.symm⟩
    · rintro ⟨hnone, hplaylist⟩
      rw [hnone]
      exact ((urlRoutes_eq_manifest_iff uri).mpr hplaylist).symm
  | iFrame attributes uri =>
    refine iff_of_false (fun hsame => ?_) id
    cases hfirst : firstUri (MasterItem.iFrame attributes uri).tag with
    | none =>
      rw [hfirst] at hsame
      cases hsame
    | some first =>
      -- the line path takes it for a key
      rw [hfirst] at hsame
      cases congrArg Prod.fst (List.cons.inj hsame).1
  | media attributes uri =>
    show sent _ _ .manifest uri = sent _ _ .manifest _ ++ [] ↔ _
    rw [List.append_nil, eq_comm]
    exact sent_eq_sent_iff
  | sessionData attributes uri =>
    show [] = sent .. ++ [] ↔ _
    rw [List.append_nil, eq_comm]
    exact sent_eq_nil_iff
  | sessionKey attributes uri =>
    show [] = sent .. ++ [] ↔ _
    rw [List.append_nil, eq_comm]
    exact sent_eq_nil_iff
  | unknown tag rest =>
    show (if _ then _ else _) =
      sent _ _ (lineEndpoint (tagLine tag rest)) (firstUri (tagLine tag rest)) ++ [] ↔
        _ ∨ firstUri (tagLine tag rest) = none
    rw [List.append_nil]
    by_cases hmedia : tag = "X-MEDIA".toList
    · have hendpoint : lineEndpoint (tagLine tag rest) = .manifest := by
        rw [hmedia]
        cases rest with
        | none => rfl
        | some rest => rfl
      rw [if_pos hmedia, hendpoint, firstUri_tagLine (h.name tag rest rfl)]
      exact iff_of_true rfl (.inl hmedia)
    · rw [if_neg hmedia, eq_comm, sent_eq_nil_iff]
      exact ⟨.inr, fun hor => hor.resolve_left hmedia⟩
  | other line =>
    show [] = sent .. ++ [] ↔ _
    rw [List.append_nil, eq_comm]
    exact sent_eq_nil_iff

end Masters

/-! ### Media playlists -/

section Media

variable (hmode : InRoutingMode opts)

include hmode

/-- An unknown tag of a media playlist. -/
theorem rewriteMediaTag_alike_iff {unknown : ExtTag Str} (hname : '"' ∉ unknown.tag)
    (hline : IsTagLine (tagLine unknown.tag unknown.rest)) :
    routesOfOption (rewriteMediaTag crates opts baseUrl unknown).rest =
        lineRoutes crates opts baseUrl (tagLine unknown.tag unknown.rest) ↔
      PlainTag unknown := by
  unfold rewriteMediaTag PlainTag
  rw [routesOfOption_rewriteUnknown hmode, lineRoutes_tag hmode hline, firstUri_tagLine hname]
  exact sent_endpoint_iff

/-- The URI of a key or a map. -/
theorem sent_alike_iff {line : Str} (hline : IsTagLine line) {uri : Option Str} :
    sent crates.toJoinCrate baseUrl (lineEndpoint line) uri = lineRoutes crates opts baseUrl line ↔
      FirstIs crates baseUrl line uri := by
  rw [lineRoutes_tag hmode hline, eq_comm]
  exact sent_eq_sent_iff

theorem key_alike_iff {seg : SegmentItem} (h : seg.WellFormed) {attributes : Str} {key : Key Str}
    (hkey : seg.key = some (attributes, key)) :
    ((rewriteSegment crates opts baseUrl seg.parsed).key.toList.flatMap fun key =>
          routesOfOption key.uri) =
        lineRoutes crates opts baseUrl (SegmentItem.keyLine attributes) ↔
      FirstIs crates baseUrl (SegmentItem.keyLine attributes) key.uri := by
  have hline : SegmentItem.keyLine attributes ∈ seg.tagLines := by
    unfold SegmentItem.tagLines
    rw [hkey]
    simp
  have hroutes : ((rewriteSegment crates opts baseUrl seg.parsed).key.toList.flatMap fun key =>
      routesOfOption key.uri) = sent crates.toJoinCrate baseUrl .key key.uri := by
    unfold rewriteSegment SegmentItem.parsed
    rw [hkey]
    refine (List.flatMap_singleton ..).trans ?_
    simp only [target_eq hmode]
    obtain ⟨method, uri, iv, keyformat⟩ := key
    cases uri with
    | none => rfl
    | some uri => rfl
  rw [hroutes]
  exact sent_alike_iff hmode (h.tags _ hline)

theorem map_alike_iff {seg : SegmentItem} (h : seg.WellFormed) {attributes : Str} {map : MapTag Str}
    (hmap : seg.map = some (attributes, map)) :
    ((rewriteSegment crates opts baseUrl seg.parsed).map.toList.flatMap fun map =>
          routesOf map.uri) =
        lineRoutes crates opts baseUrl (SegmentItem.mapLine attributes) ↔
      FirstIs crates baseUrl (SegmentItem.mapLine attributes) (some map.uri) := by
  have hline : SegmentItem.mapLine attributes ∈ seg.tagLines := by
    unfold SegmentItem.tagLines
    rw [hmap]
    simp
  have hroutes : ((rewriteSegment crates opts baseUrl seg.parsed).map.toList.flatMap fun map =>
      routesOf map.uri) = sent crates.toJoinCrate baseUrl .segment (some map.uri) := by
    unfold rewriteSegment SegmentItem.parsed
    rw [hmap]
    refine (List.flatMap_singleton ..).trans ?_
    simp only [target_eq hmode]
    rfl
  rw [hroutes]
  exact sent_alike_iff hmode (h.tags _ hline)

/-- **A segment** with its tags. -/
theorem segmentsAlike_iff {seg : SegmentItem} (h : seg.WellFormed) :
    SegmentsAlike crates opts baseUrl seg ↔ PlainMediaItem crates baseUrl (.segment seg) := by
  have hunknown : ∀ unknown ∈ seg.unknownTags,
      (routesOfOption (rewriteMediaTag crates opts baseUrl unknown).rest =
        lineRoutes crates opts baseUrl (tagLine unknown.tag unknown.rest) ↔ PlainTag unknown) := by
    intro unknown hmem
    refine rewriteMediaTag_alike_iff hmode (h.names unknown hmem) (h.tags _ ?_)
    exact List.mem_append_right _ (List.mem_map_of_mem hmem)
  have htags : ((rewriteSegment crates opts baseUrl seg.parsed).unknownTags.map fun unknown =>
        routesOfOption unknown.rest) =
      seg.unknownTags.map fun unknown =>
        routesOfOption (rewriteMediaTag crates opts baseUrl unknown).rest :=
    List.map_map
  constructor
  · rintro ⟨hkeyAlike, hmapAlike, hunknownAlike, -⟩
    refine ⟨fun attributes key hsome => (key_alike_iff hmode h hsome).mp (hkeyAlike _ _ hsome),
      fun attributes map hsome => (map_alike_iff hmode h hsome).mp (hmapAlike _ _ hsome), ?_⟩
    intro unknown hmem
    rw [htags] at hunknownAlike
    exact (hunknown unknown hmem).mp (List.map_inj_left.mp hunknownAlike unknown hmem)
  · rintro ⟨hkeyPlain, hmapPlain, hunknownPlain⟩
    refine ⟨fun attributes key hsome => (key_alike_iff hmode h hsome).mpr (hkeyPlain _ _ hsome),
      fun attributes map hsome => (map_alike_iff hmode h hsome).mpr (hmapPlain _ _ hsome), ?_, ?_⟩
    · rw [htags]
      exact List.map_congr_left fun unknown hmem =>
        (hunknown unknown hmem).mpr (hunknownPlain unknown hmem)
    · rw [lineRoutes_url hmode h.url]
      exact routesOf_rewriteSegmentOrPlaylistUri hmode seg.uri

theorem mediaItemsAlike_iff {item : MediaItem} (h : item.WellFormed) :
    MediaItemsAlike crates opts baseUrl item ↔ PlainMediaItem crates baseUrl item := by
  cases item with
  | segment seg => exact segmentsAlike_iff hmode h
  | unknown tag => exact rewriteMediaTag_alike_iff hmode h.2 h.1
  | other line =>
    show lineRoutes .. = [] ↔ firstUri line = none
    rw [lineRoutes_tag hmode h]
    exact sent_eq_nil_iff

end Media

/-! ### Whole playlists -/

/-- The structured path rewrites a master playlist item by item. -/
theorem processMaster_concat (opts : ManifestOptions) (pls : List (MasterPlaylist Str)) :
    processMaster crates opts (concatMasters pls) baseUrl =
      concatMasters (pls.map fun pl => processMaster crates opts pl baseUrl) := by
  unfold processMaster concatMasters
  simp only [List.map_flatMap, List.flatMap_map]

theorem MasterItem.WellFormed.isLine {item : MasterItem} (h : item.WellFormed) :
    ∀ line ∈ item.lines, IsLine line :=
  List.forall_mem_cons.mpr ⟨h.tag.isLine, fun line hline => (h.url line hline).isLine⟩

theorem MediaItem.WellFormed.isLine {item : MediaItem} (h : item.WellFormed) :
    ∀ line ∈ item.lines, IsLine line := by
  intro line hline
  cases item with
  | segment seg =>
    have h : seg.WellFormed := h
    obtain hline | hline := List.mem_append.mp hline
    · exact (h.tags line hline).isLine
    · obtain rfl | hline := List.mem_cons.mp hline
      · exact h.extinf
      · obtain rfl := List.mem_singleton.mp hline
        exact h.url.isLine
  | unknown tag =>
    obtain rfl := List.mem_singleton.mp hline
    exact h.1.isLine
  | other other =>
    obtain rfl := List.mem_singleton.mp hline
    exact IsTagLine.isLine h

section Whole

variable (hmode : InRoutingMode opts)

include hmode

/-- **Master playlists.** -/
theorem mastersAlike_iff (src : MasterSource) :
    MastersAlike crates opts baseUrl src ↔
      ∀ item ∈ src.items, PlainMasterItem crates opts baseUrl item := by
  have hlines : ∀ line ∈ src.items.flatMap MasterItem.lines, IsLine line :=
    List.forall_mem_flatMap.mpr fun item hitem => (src.wellFormed item hitem).isLine
  constructor
  · intro h item hitem
    exact (masterItem_alike_iff hmode item (src.wellFormed item hitem)).mp (h.alike item hitem)
  · intro h
    refine ⟨?_, ?_, fun item hitem => ?_⟩
    · unfold MasterSource.parsed
      rw [processMaster_concat, List.map_map]
      rfl
    · unfold MasterSource.text
      rw [processLines_routes hmode hlines, List.flatMap_assoc]
    · exact (masterItem_alike_iff hmode item (src.wellFormed item hitem)).mpr (h item hitem)

/-- **Media playlists.** -/
theorem mediaAlike_iff (src : MediaSource) :
    MediaAlike crates opts baseUrl src ↔ ∀ item ∈ src.items, PlainMediaItem crates baseUrl item := by
  have hlines : ∀ line ∈ src.items.flatMap MediaItem.lines, IsLine line :=
    List.forall_mem_flatMap.mpr fun item hitem => (src.wellFormed item hitem).isLine
  constructor
  · intro h item hitem
    exact (mediaItemsAlike_iff hmode (src.wellFormed item hitem)).mp (h.alike item hitem)
  · intro h
    refine ⟨?_, ?_, ?_, fun item hitem => ?_⟩
    · unfold processMedia
      dsimp only
      rw [if_pos hmode.skipRanges]
      exact List.map_map
    · unfold processMedia
      dsimp only
      rw [if_pos hmode.skipRanges]
      rfl
    · unfold MediaSource.text
      rw [processLines_routes hmode hlines, List.flatMap_assoc]
    · exact (mediaItemsAlike_iff hmode (src.wellFormed item hitem)).mpr (h item hitem)

end Whole

end Proof

end MediaFlow
