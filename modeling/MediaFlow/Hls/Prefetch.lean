import MediaFlow.Lib.Emit
import MediaFlow.Hls.Manifest

/-!
# Prefetched segments

The handler of a playlist lists the URLs of its segments (`media_segment_urls`), to fetch them before
the player does, and writes them into the playlist (`process`). The two lists are taken from the text
in different ways. `prefetches_iff`: they are the same if the URL lines of a text that is read line by
line are plain enough.
-/

open ByteString Text UrlCoding

namespace MediaFlow

open ManifestProcessor

/-! ### The two lists -/

/-- The destination of a URI at the segment endpoint. -/
def segmentDestination : Written → Option Str
  | [.proxied .segment destination] => some destination
  | _ => none

/-- The destinations of the segments, in a playlist that is written. -/
def segmentDestinations : Processed → List Str
  | .lines ls => ls.filterMap segmentDestination
  | .master _ => []
  | .media pl _ => pl.segments.filterMap fun seg => segmentDestination seg.uri

/-- Proxy mode without skip ranges. -/
def proxyMode (startOffset : Option ℚ) (forceStartOffset : Bool) : ManifestOptions :=
  { startOffset, forceStartOffset }

/-- What is fetched before is what the player will ask for. -/
def Prefetches (crates : HlsCrates) (opts : ManifestOptions) (content : Bytes) (sourceUrl : Str) :
    Prop :=
  mediaSegmentUrls crates content sourceUrl =
    segmentDestinations (process crates opts content sourceUrl)

/-! ### The condition -/

section Condition

variable (crate : JoinCrate) (sourceUrl : Str)

/-- A line that `process_lines` takes for a URL. -/
def isUrlLine (line : Str) : Bool :=
  trim line ≠ "#EXTM3U".toList ∧ line.head? ≠ some '#' ∧ trim line ≠ []

/-- The resolved URIs, without sub-playlists. -/
def mediaUrls (uris : List Str) : List Str :=
  (uris.map (Utils.resolveUrl crate sourceUrl)).filter fun url => !isPlaylistUrl url

/-- Does an EXTINF wait for its URL after this line? -/
def extinfAfter (pending : Bool) (line : Str) : Bool :=
  extinfTag.isPrefixOf (trim line) ||
    (pending && (trim line = [] || (trim line).head? = some '#'))

/-- The lines, each with whether an EXTINF waits for its URL. -/
def withExtinf : Bool → List Str → List (Bool × Str)
  | _, [] => []
  | pending, line :: rest => (pending, line) :: withExtinf (extinfAfter pending line) rest

/-- Each URL line that is not a sub-playlist follows an EXTINF, is no tag after its whitespace, and
resolves to the same URL without whitespace around it. -/
def PlainUrls (text : Str) : Prop :=
  ∀ p ∈ withExtinf false (lines text), isUrlLine p.2 = true →
    isPlaylistUrl (Utils.resolveUrl crate sourceUrl p.2) = false →
    p.1 = true ∧ (trim p.2).head? ≠ some '#' ∧
      Utils.resolveUrl crate sourceUrl (trim p.2) = Utils.resolveUrl crate sourceUrl p.2

/-- Whitespace around a URL line does not make a sub-playlist of it. -/
def PlainSubPlaylists (text : Str) : Prop :=
  ∀ p ∈ withExtinf false (lines text), isUrlLine p.2 = true → p.1 = true →
    (trim p.2).head? ≠ some '#' →
    isPlaylistUrl (Utils.resolveUrl crate sourceUrl p.2) = true →
    isPlaylistUrl (Utils.resolveUrl crate sourceUrl (trim p.2)) = true

end Condition

def Playlist.segmentUris : Playlist Str → List Str
  | .master _ => []
  | .media pl => pl.segments.map MediaSegment.uri

/-- **The condition.** A text that m3u8-rs cannot parse has plain URL lines. In an IPTV playlist that
it can parse, it finds the URIs of the URL lines, up to their form. -/
def PlainText (crates : HlsCrates) (content : Bytes) (sourceUrl : Str) : Prop :=
  match crates.parsePlaylist content with
  | some pl => isIptvPlaylist content = true →
    mediaUrls crates.toJoinCrate sourceUrl pl.segmentUris =
      mediaUrls crates.toJoinCrate sourceUrl ((lines (contentText content)).filter isUrlLine)
  | none => PlainUrls crates.toJoinCrate sourceUrl (contentText content) ∧
    PlainSubPlaylists crates.toJoinCrate sourceUrl (contentText content)

section Proof

variable (crates : HlsCrates) (sourceUrl : Str)

/-! ### What is listed -/

/-- What a line adds to the list. -/
def listedUrl (p : Bool × Str) : Option Str :=
  let resolved := Utils.resolveUrl crates.toJoinCrate sourceUrl (trim p.2)
  if p.1 = true ∧ ¬ (trim p.2 = [] ∨ (trim p.2).head? = some '#') ∧ isPlaylistUrl resolved = false then
    some resolved
  else none

/-- A line that begins with an EXTINF is a tag. -/
theorem head?_of_extinf {line : Str} (h : extinfTag.isPrefixOf line = true) :
    line.head? = some '#' := by
  obtain ⟨rest, rfl⟩ := List.isPrefixOf_iff_prefix.mp h
  rfl

theorem segmentUrlsFromLines_eq (pending : Bool) (ls : List Str) :
    segmentUrlsFromLines crates sourceUrl pending ls =
      (withExtinf pending ls).filterMap (listedUrl crates sourceUrl) := by
  induction ls generalizing pending with
  | nil => rfl
  | cons line rest ih =>
    rw [withExtinf, segmentUrlsFromLines]
    dsimp only
    by_cases hextinf : extinfTag.isPrefixOf (trim line) = true
    · have hlisted : listedUrl crates sourceUrl (pending, line) = none :=
        if_neg fun h => h.2.1 (.inr (head?_of_extinf hextinf))
      rw [if_pos hextinf, List.filterMap_cons_none hlisted, extinfAfter, hextinf, ih]
      rfl
    · rw [if_neg hextinf]
      by_cases htag : trim line = [] ∨ (trim line).head? = some '#'
      · have hlisted : listedUrl crates sourceUrl (pending, line) = none := if_neg fun h => h.2.1 htag
        have hafter : extinfAfter pending line = pending := by
          simp [extinfAfter, hextinf, htag]
        rw [if_pos htag, List.filterMap_cons_none hlisted, hafter, ih]
      · have hafter : extinfAfter pending line = false := by
          simp [extinfAfter, hextinf, not_or.mp htag]
        rw [if_neg htag, hafter]
        cases pending with
        | false =>
          have hlisted : listedUrl crates sourceUrl (false, line) = none := by
            unfold listedUrl
            exact if_neg fun h => Bool.false_ne_true h.1
          rw [if_neg Bool.false_ne_true, List.filterMap_cons_none hlisted, ih]
        | true =>
          rw [if_pos rfl]
          by_cases hplaylist :
              isPlaylistUrl (Utils.resolveUrl crates.toJoinCrate sourceUrl (trim line)) = true
          · have hlisted : listedUrl crates sourceUrl (true, line) = none :=
              if_neg fun h => Bool.false_ne_true (h.2.2.symm.trans hplaylist)
            rw [if_pos hplaylist, List.filterMap_cons_none hlisted, ih, List.nil_append]
          · have hlisted : listedUrl crates sourceUrl (true, line) = some _ :=
              if_pos ⟨rfl, htag, Bool.eq_false_iff.mpr hplaylist⟩
            rw [if_neg hplaylist, List.filterMap_cons_some hlisted, ih, List.singleton_append]

/-! ### What is written -/

/-- The destination that is written for a line, at the segment endpoint. -/
def emittedUrl (line : Str) : Option Str :=
  let resolved := Utils.resolveUrl crates.toJoinCrate sourceUrl line
  if isUrlLine line = true ∧ isPlaylistUrl resolved = false then some resolved else none

variable (startOffset : Option ℚ) (forceStartOffset : Bool)

/-- The destination of a URI, if it is that of a segment. -/
def mediaUrl (crate : JoinCrate) (uri : Str) : Option Str :=
  let resolved := Utils.resolveUrl crate sourceUrl uri
  if isPlaylistUrl resolved = true then none else some resolved

theorem segmentDestination_rewrite (uri : Str) :
    segmentDestination
        [rewriteSegmentOrPlaylistUri crates (proxyMode startOffset forceStartOffset) uri sourceUrl] =
      mediaUrl sourceUrl crates.toJoinCrate uri := by
  unfold rewriteSegmentOrPlaylistUri proxyMode mediaUrl
  dsimp only
  rw [if_neg Bool.false_ne_true, if_neg Bool.false_ne_true, if_neg Bool.false_ne_true]
  split
  · rfl
  · rfl

theorem segmentDestination_rewriteUriValue (newUri : Str → Piece) (line : Str) :
    segmentDestination (rewriteUriValue newUri line) = none := by
  unfold rewriteUriValue
  split
  · rfl
  · dsimp only
    split
    · rfl
    · rfl

/-- Other lines are written without a segment. -/
theorem emittedUrl_of_not_isUrlLine {line : Str} (h : isUrlLine line = false) :
    emittedUrl crates sourceUrl line = none :=
  if_neg fun h' => Bool.false_ne_true (h.symm.trans h'.1)

/-- The line of a URL is written as its URL, after its EXTINF. -/
theorem processUrlLine_destinations {st : LineState} (hst : st.skipFilter = none) {line : Str}
    (hline : isUrlLine line = true) :
    (processUrlLine crates (proxyMode startOffset forceStartOffset) sourceUrl st line).1.filterMap
        segmentDestination = (emittedUrl crates sourceUrl line).toList := by
  unfold processUrlLine
  rw [if_neg (by simp [hst])]
  have hurl : [[rewriteSegmentOrPlaylistUri crates (proxyMode startOffset forceStartOffset) line
      sourceUrl]].filterMap segmentDestination = (emittedUrl crates sourceUrl line).toList := by
    have hdestination := segmentDestination_rewrite crates sourceUrl startOffset forceStartOffset line
    unfold emittedUrl
    unfold mediaUrl at hdestination
    by_cases hplaylist : isPlaylistUrl (Utils.resolveUrl crates.toJoinCrate sourceUrl line) = true
    · rw [if_pos hplaylist] at hdestination
      rw [List.filterMap_cons_none hdestination,
        if_neg fun h => Bool.false_ne_true (h.2.symm.trans hplaylist)]
      rfl
    · rw [if_neg hplaylist] at hdestination
      rw [List.filterMap_cons_some hdestination, if_pos ⟨hline, Bool.eq_false_iff.mpr hplaylist⟩]
      rfl
  -- neither a discontinuity nor the EXTINF has a destination
  cases st.needDiscontinuity with
  | false =>
    cases st.pendingExtinf with
    | none => exact hurl
    | some extinf => exact hurl
  | true =>
    cases st.pendingExtinf with
    | none => exact hurl
    | some extinf => exact hurl

/-- One line. -/
theorem processLine_destinations {st : LineState} (hst : st.skipFilter = none) (line : Str) :
    (processLine crates (proxyMode startOffset forceStartOffset) sourceUrl st line).1.filterMap
        segmentDestination = (emittedUrl crates sourceUrl line).toList ∧
      (processLine crates (proxyMode startOffset forceStartOffset) sourceUrl st line).2.skipFilter =
        none := by
  unfold processLine
  by_cases hheader : trim line = "#EXTM3U".toList
  · rw [if_pos hheader, emittedUrl_of_not_isUrlLine crates sourceUrl (by simp [isUrlLine, hheader])]
    split
    · split
      · exact ⟨rfl, hst⟩
      · exact ⟨rfl, hst⟩
    · exact ⟨rfl, hst⟩
  rw [if_neg hheader]
  by_cases hextinf : extinfTag.isPrefixOf line = true
  · rw [if_pos hextinf, emittedUrl_of_not_isUrlLine crates sourceUrl
      (by simp [isUrlLine, head?_of_extinf hextinf])]
    unfold processExtinf
    rw [hst]
    exact ⟨rfl, rfl⟩
  rw [if_neg hextinf]
  by_cases hurl : line.head? ≠ some '#' ∧ trim line ≠ []
  · rw [if_pos hurl]
    refine ⟨processUrlLine_destinations crates sourceUrl startOffset forceStartOffset hst ?_, ?_⟩
    · exact decide_eq_true ⟨hheader, hurl⟩
    · unfold processUrlLine
      rw [if_neg (by simp [hst])]
      exact hst
  rw [if_neg hurl, emittedUrl_of_not_isUrlLine crates sourceUrl (by
    unfold isUrlLine
    exact decide_eq_false fun h => hurl h.2)]
  split
  · refine ⟨?_, hst⟩
    exact List.filterMap_cons_none (segmentDestination_rewriteUriValue ..)
  · split
    · exact ⟨rfl, hst⟩
    · exact ⟨rfl, hst⟩

theorem processLines_destinations (content : Str) :
    (processLines crates (proxyMode startOffset forceStartOffset) content sourceUrl).filterMap
        segmentDestination = (lines content).filterMap (emittedUrl crates sourceUrl) := by
  have hfrom : ∀ st : LineState, st.skipFilter = none → ∀ ls,
      (processLinesFrom crates (proxyMode startOffset forceStartOffset) sourceUrl st ls).filterMap
        segmentDestination = ls.filterMap (emittedUrl crates sourceUrl) := by
    intro st hst ls
    induction ls generalizing st with
    | nil => rfl
    | cons line rest ih =>
      obtain ⟨hline, hnext⟩ :=
        processLine_destinations crates sourceUrl startOffset forceStartOffset hst line
      rw [processLinesFrom, List.filterMap_append, hline, ih _ hnext]
      cases h : emittedUrl crates sourceUrl line with
      | none => rw [List.filterMap_cons_none h]; rfl
      | some url => rw [List.filterMap_cons_some h]; rfl
  exact hfrom _ rfl _

/-! ### The media URLs of a list of URIs -/

theorem mediaUrls_eq_filterMap (crate : JoinCrate) (uris : List Str) :
    mediaUrls crate sourceUrl uris = uris.filterMap (mediaUrl sourceUrl crate) := by
  unfold mediaUrls
  rw [List.filter_map]
  induction uris with
  | nil => rfl
  | cons uri uris ih =>
    by_cases h : isPlaylistUrl (Utils.resolveUrl crate sourceUrl uri) = true
    · have hnone : mediaUrl sourceUrl crate uri = none := if_pos h
      rw [List.filterMap_cons_none hnone, List.filter_cons_of_neg (by simp [h]), ih]
    · have hsome : mediaUrl sourceUrl crate uri = some _ := if_neg h
      rw [List.filterMap_cons_some hsome, List.filter_cons_of_pos (by simp [h]), List.map_cons, ih]

theorem filterMap_emittedUrl (ls : List Str) :
    ls.filterMap (emittedUrl crates sourceUrl) =
      mediaUrls crates.toJoinCrate sourceUrl (ls.filter isUrlLine) := by
  rw [mediaUrls_eq_filterMap, List.filterMap_filter]
  congr 1
  ext1 line
  unfold emittedUrl mediaUrl
  by_cases hline : isUrlLine line = true
  · by_cases hplaylist : isPlaylistUrl (Utils.resolveUrl crates.toJoinCrate sourceUrl line) = true
    · simp [hline, hplaylist]
    · simp [hline, hplaylist]
  · simp [hline]

theorem processMedia_destinations (pl : MediaPlaylist Str) :
    (processMedia crates (proxyMode startOffset forceStartOffset) pl sourceUrl).1.segments.filterMap
        (fun seg => segmentDestination seg.uri) =
      mediaUrls crates.toJoinCrate sourceUrl (pl.segments.map MediaSegment.uri) := by
  have hsegments : (processMedia crates (proxyMode startOffset forceStartOffset) pl
      sourceUrl).1.segments = pl.segments.map (rewriteSegment crates _ sourceUrl) := rfl
  rw [hsegments, List.filterMap_map, mediaUrls_eq_filterMap, List.filterMap_map]
  congr 1
  ext1 seg
  exact segmentDestination_rewrite crates sourceUrl startOffset forceStartOffset seg.uri

/-! ### Line by line -/

/-- What is listed of a line, as its parts. -/
theorem listedUrl_eq_some_iff {p : Bool × Str} {url : Str} :
    listedUrl crates sourceUrl p = some url ↔
      (p.1 = true ∧ ¬ (trim p.2 = [] ∨ (trim p.2).head? = some '#') ∧
        isPlaylistUrl (Utils.resolveUrl crates.toJoinCrate sourceUrl (trim p.2)) = false) ∧
      Utils.resolveUrl crates.toJoinCrate sourceUrl (trim p.2) = url := by
  unfold listedUrl
  rw [Option.ite_none_right_eq_some, Option.some.injEq]

theorem emittedUrl_eq_some_iff {line url : Str} :
    emittedUrl crates sourceUrl line = some url ↔
      (isUrlLine line = true ∧
        isPlaylistUrl (Utils.resolveUrl crates.toJoinCrate sourceUrl line) = false) ∧
      Utils.resolveUrl crates.toJoinCrate sourceUrl line = url := by
  unfold emittedUrl
  rw [Option.ite_none_right_eq_some, Option.some.injEq]

/-- What `media_segment_urls` takes for a URL line, `process_lines` does too. -/
theorem isUrlLine_of_trim {line : Str} (h : ¬ (trim line = [] ∨ (trim line).head? = some '#')) :
    isUrlLine line = true := by
  obtain ⟨hnonempty, htag⟩ := not_or.mp h
  refine decide_eq_true ⟨?_, ?_, hnonempty⟩
  · intro hheader
    exact htag (by rw [hheader]; rfl)
  · intro hhead
    cases line with
    | nil => cases hhead
    | cons c line =>
      obtain rfl : c = '#' := Option.some.inj hhead
      obtain ⟨rest, hrest⟩ := @trim_isPrefix '#' (by decide) line
      cases htrim : trim ('#' :: line) with
      | nil => exact hnonempty htrim
      | cons d t =>
        rw [htrim] at hrest htag
        exact htag (congrArg some (List.cons.inj hrest).1)

variable {crates sourceUrl}

/-- What is listed is written. -/
theorem PlainSubPlaylists.emitted {text : Str}
    (h : PlainSubPlaylists crates.toJoinCrate sourceUrl text) :
    ∀ p ∈ withExtinf false (lines text), (listedUrl crates sourceUrl p).isSome →
      (emittedUrl crates sourceUrl p.2).isSome := by
  intro p hp hlisted
  obtain ⟨url, hlisted⟩ := Option.isSome_iff_exists.mp hlisted
  obtain ⟨⟨hextinf, hplain, hmedia⟩, -⟩ := (listedUrl_eq_some_iff ..).mp hlisted
  have hline := isUrlLine_of_trim hplain
  refine Option.isSome_iff_exists.mpr ⟨_, (emittedUrl_eq_some_iff ..).mpr ⟨⟨hline, ?_⟩, rfl⟩⟩
  by_contra hplaylist
  have := h p hp hline hextinf (not_or.mp hplain).2 (by simpa using hplaylist)
  exact Bool.false_ne_true (hmedia.symm.trans this)

/-- A line adds the same to both lists, if the URL lines are plain. -/
theorem listedUrl_eq_emittedUrl_iff {text : Str}
    (h : PlainSubPlaylists crates.toJoinCrate sourceUrl text) :
    (∀ p ∈ withExtinf false (lines text), listedUrl crates sourceUrl p =
        emittedUrl crates sourceUrl p.2) ↔ PlainUrls crates.toJoinCrate sourceUrl text := by
  constructor
  · intro hsame p hp hline hmedia
    have hlisted := hsame p hp
    rw [(emittedUrl_eq_some_iff ..).mpr ⟨⟨hline, hmedia⟩, rfl⟩] at hlisted
    obtain ⟨⟨hextinf, hplain, -⟩, hresolved⟩ := (listedUrl_eq_some_iff ..).mp hlisted
    exact ⟨hextinf, (not_or.mp hplain).2, hresolved⟩
  · intro hurls p hp
    rcases hemitted : emittedUrl crates sourceUrl p.2 with _ | url
    · by_contra hlisted
      have := h.emitted p hp (Option.isSome_iff_ne_none.mpr hlisted)
      rw [hemitted] at this
      cases this
    · obtain ⟨⟨hline, hmedia⟩, rfl⟩ := (emittedUrl_eq_some_iff ..).mp hemitted
      obtain ⟨hextinf, htag, hresolved⟩ := hurls p hp hline hmedia
      have hnonempty : trim p.2 ≠ [] := (of_decide_eq_true hline).2.2
      refine (listedUrl_eq_some_iff ..).mpr ⟨⟨hextinf, not_or.mpr ⟨hnonempty, htag⟩, ?_⟩, hresolved⟩
      rw [hresolved]
      exact hmedia

theorem withExtinf_map_snd (pending : Bool) (ls : List Str) :
    (withExtinf pending ls).map Prod.snd = ls := by
  induction ls generalizing pending with
  | nil => rfl
  | cons line rest ih => exact congrArg _ (ih _)

/-- The two lists of a text that is read line by line. -/
theorem mediaSegmentUrlsFromLines_eq_iff {text : Str}
    (h : PlainSubPlaylists crates.toJoinCrate sourceUrl text) :
    mediaSegmentUrlsFromLines crates text sourceUrl =
        (processLines crates (proxyMode startOffset forceStartOffset) text sourceUrl).filterMap
          segmentDestination ↔
      PlainUrls crates.toJoinCrate sourceUrl text := by
  have hwritten : (lines text).filterMap (emittedUrl crates sourceUrl) =
      (withExtinf false (lines text)).filterMap fun p => emittedUrl crates sourceUrl p.2 := by
    conv_lhs => rw [← withExtinf_map_snd false (lines text)]
    rw [List.filterMap_map]
    rfl
  rw [processLines_destinations, mediaSegmentUrlsFromLines, segmentUrlsFromLines_eq, hwritten,
    Emit.filterMap_eq_iff h.emitted, listedUrl_eq_emittedUrl_iff h]

/-! ### The cases -/

variable {content : Bytes} {pl : Playlist Str}

theorem mediaSegmentUrls_of_parsed (h : crates.parsePlaylist content = some pl) :
    mediaSegmentUrls crates content sourceUrl =
      mediaUrls crates.toJoinCrate sourceUrl pl.segmentUris := by
  unfold mediaSegmentUrls
  rw [h]
  cases pl with
  | master pl => rfl
  | media pl =>
    unfold mediaUrls Playlist.segmentUris
    rw [List.map_map]
    rfl

theorem segmentDestinations_of_iptv (h : isIptvPlaylist content = true) :
    segmentDestinations (process crates (proxyMode startOffset forceStartOffset) content sourceUrl) =
      mediaUrls crates.toJoinCrate sourceUrl ((lines (contentText content)).filter isUrlLine) := by
  unfold process
  rw [if_pos h, ← filterMap_emittedUrl]
  exact processLines_destinations ..

theorem segmentDestinations_of_parsed (h : isIptvPlaylist content = false)
    (hparse : crates.parsePlaylist content = some pl) :
    segmentDestinations (process crates (proxyMode startOffset forceStartOffset) content sourceUrl) =
      mediaUrls crates.toJoinCrate sourceUrl pl.segmentUris := by
  unfold process
  rw [if_neg (Bool.eq_false_iff.mp h), hparse]
  cases pl with
  | master pl => rfl
  | media pl => exact processMedia_destinations ..

/-- A text that cannot be parsed is read line by line, whether it is an IPTV playlist or not. -/
theorem segmentDestinations_of_unparsed (h : crates.parsePlaylist content = none) :
    segmentDestinations (process crates (proxyMode startOffset forceStartOffset) content sourceUrl) =
      (processLines crates (proxyMode startOffset forceStartOffset) (contentText content)
        sourceUrl).filterMap segmentDestination := by
  unfold process
  rw [h, ite_self]
  rfl

end Proof

end MediaFlow
