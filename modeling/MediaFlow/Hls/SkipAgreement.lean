import MediaFlow.Hls.SkipPlan
import MediaFlow.Hls.Manifest

/-!
# The three skip filters

Segments are skipped in three loops: in a parsed playlist (`apply_skip_filter`), line by line
(`process_lines`) and in the playlist of a DASH presentation (`build_hls_media_playlist`). All three
keep what `keptSegments` says, and mark with a discontinuity what it marks (`skipsAlike_trimmed`).

The list of a live DASH playlist is the one that it is trimmed to: times begin with the first segment
that is left (`skipsAlike_fails`).
-/

open Text UrlCoding

namespace MediaFlow

open ManifestProcessor

/-- A segment as it is listed in a playlist, with no tags but its duration. -/
structure ListedSegment where
  duration : ℚ
  durationText : Str
  title : Str
  url : Str
  parses : parseF64 (trim durationText) = some duration
  noComma : ',' ∉ durationText
  isLine : IsLine (extinfTag ++ durationText ++ ',' :: title)
  urlLine : IsLine url
  /-- A URL has no whitespace around it. -/
  trimmed : trim url = url
  nonempty : url ≠ []
  noTag : url.head? ≠ some '#'

namespace ListedSegment

variable (seg : ListedSegment)

def extinf : Str := extinfTag ++ seg.durationText ++ ',' :: seg.title

/-- The segment that m3u8-rs makes of it. -/
def toMedia : MediaSegment Str := { uri := seg.url, duration := seg.duration }

end ListedSegment

/-- The lines of a playlist with the segments. -/
def playlistLines (segs : List ListedSegment) : List Str :=
  "#EXTM3U".toList :: segs.flatMap fun seg => [seg.extinf, seg.url]

/-! ### Reading the lines that are written -/

def isExtinf : Written → Bool
  | [.text s] => extinfTag.isPrefixOf s
  | _ => false

/-- The URLs of the segments, each with whether a discontinuity stands before it. A URL is the line
after an EXTINF; the flags say that a discontinuity, and that an EXTINF, was read. -/
def listed : (discontinuity extinf : Bool) → List Written → List (Bool × Written)
  | _, _, [] => []
  | d, true, line :: rest => (d, line) :: listed false false rest
  | d, false, line :: rest =>
    if line = verbatim discontinuityTag then listed true false rest
    else listed d (isExtinf line) rest

/-- The URL of a segment of a DASH playlist. -/
def dashSegmentUrl (encode : Str → Str) (isLive : Bool) (proxyBase : Str) (params : MpdProxyParams)
    (p : MpdSegment × MpdProfile) : Str :=
  buildSegmentUrl encode proxyBase (p.2.initUrl.getD []) p.1.media p.2.mimeType isLive
    (!params.remuxToTs && !params.remuxToTs) p.2.initRange p.1.initRange p.1.mediaRange params

def dashDuration (p : MpdSegment × MpdProfile) : ℚ := p.1.extinf

/-- All three filters keep `keptSegments`. For a DASH playlist, those of the segments that are
`considered`. -/
structure SkipsAlike (considered : (isLive : Bool) → MpdProxyParams → Option ℚ → ℕ →
    List (MpdSegment × MpdProfile) → List (MpdSegment × MpdProfile)) : Prop where
  structured : ∀ (crates : HlsCrates) (opts : ManifestOptions) (baseUrl : Str)
    (pl : MediaPlaylist Str) (segs : List ListedSegment),
    pl.segments = segs.map ListedSegment.toMedia →
    (processMedia crates opts pl baseUrl).1.segments.map
        (fun seg => (seg.discontinuity, seg.uri)) =
      (keptSegments opts.skipRanges ListedSegment.duration segs).map fun p =>
        (p.1, [rewriteSegmentOrPlaylistUri crates opts p.2.url baseUrl])
  lines : ∀ (crates : HlsCrates) (opts : ManifestOptions) (baseUrl : Str)
    (segs : List ListedSegment),
    listed false false
        (processLines crates opts (unlines (playlistLines segs)) baseUrl) =
      (keptSegments opts.skipRanges ListedSegment.duration segs).map fun p =>
        (p.1, [rewriteSegmentOrPlaylistUri crates opts p.2.url baseUrl])
  dash : ∀ (encode : Str → Str) (isLive : Bool) (proxyBase : Str) (params : MpdProxyParams)
    (profiles : List MpdProfile) (ranges : List SkipRange) (startOffset : Option ℚ)
    (configuredDepth : ℕ),
    (params.remuxToTs = true ∨ ∃ initUrl, ∀ profile ∈ profiles, profile.initUrl = initUrl) →
    listed false false ((buildHlsMediaPlaylist encode isLive proxyBase params profiles ranges
        startOffset configuredDepth).map verbatim) =
      (keptSegments ranges dashDuration (considered isLive params startOffset configuredDepth
        (mergedSegments profiles))).map fun p =>
          (p.1, verbatim (dashSegmentUrl encode isLive proxyBase params p.2))

/-! ### The structured filter -/

theorem skipSegments_eq_keptFrom {α : Type} (f : SkipSegmentFilter) (skipped : Bool)
    (segs : List (MediaSegment α)) :
    skipSegments f skipped segs =
      (keptFrom MediaSegment.duration f skipped segs).map fun p =>
        { p.2 with discontinuity := p.1 || p.2.discontinuity } := by
  induction segs generalizing f skipped with
  | nil => rfl
  | cons seg rest ih =>
    rcases hf : f.checkAndAdvance seg.duration with ⟨_ | _, f'⟩
    · rw [keptFrom_keep hf, skipSegments, hf]
      exact congrArg _ (ih f' false)
    · rw [keptFrom_skip hf, skipSegments, hf]
      exact ih f' true

theorem processMedia_segments (crates : HlsCrates) (opts : ManifestOptions) (baseUrl : Str)
    (pl : MediaPlaylist Str) :
    (processMedia crates opts pl baseUrl).1.segments =
      (keptSegments opts.skipRanges MediaSegment.duration
        (pl.segments.map (rewriteSegment crates opts baseUrl))).map fun p =>
          { p.2 with discontinuity := p.1 || p.2.discontinuity } := by
  unfold processMedia
  dsimp only
  by_cases h : opts.skipRanges = []
  · rw [if_pos h, h, keptSegments_no_ranges, List.map_map]
    exact (List.map_id' _).symm
  · rw [if_neg h, ← keptFrom_eq_keptSegments]
    exact skipSegments_eq_keptFrom ..

/-! ### Reading -/

/-- A line that says nothing of segments. -/
def Silent (line : Written) : Prop :=
  line ≠ verbatim discontinuityTag ∧ isExtinf line = false

/-- A tag that is another one. -/
theorem silent_of_tag {tag : Str} (hlength : extinfTag.length ≤ tag.length)
    (hextinf : ¬ extinfTag <+: tag) (hdiscontinuity : ¬ tag <+: discontinuityTag) (rest : Str) :
    Silent (verbatim (tag ++ rest)) := by
  constructor
  · intro h
    have htext : tag ++ rest = discontinuityTag := by
      injection h with h
      injection h
    exact hdiscontinuity (htext ▸ List.prefix_append tag rest)
  · rw [Bool.eq_false_iff]
    intro h
    exact hextinf (List.prefix_of_prefix_length_le (List.isPrefixOf_iff_prefix.mp h)
      (List.prefix_append tag rest) hlength)

theorem silent_startLine (offset : ℚ) : Silent (verbatim (startLine offset)) := by
  unfold startLine
  rw [List.append_assoc]
  exact silent_of_tag (by decide) (by decide) (by decide) _

theorem listed_silent {line : Written} (h : Silent line) (d : Bool) (rest : List Written) :
    listed d false (line :: rest) = listed d false rest := by
  rw [listed, if_neg h.1, h.2]

theorem listed_silent_append {lines : List Written} (h : ∀ line ∈ lines, Silent line) (d : Bool)
    (rest : List Written) : listed d false (lines ++ rest) = listed d false rest := by
  induction lines with
  | nil => rfl
  | cons line lines ih =>
    rw [List.cons_append, listed_silent (h line List.mem_cons_self),
      ih fun l hl => h l (List.mem_cons_of_mem line hl)]

theorem listed_of_silent {lines : List Written} (h : ∀ line ∈ lines, Silent line) (d : Bool) :
    listed d false lines = [] := by
  have := listed_silent_append h d []
  rwa [List.append_nil] at this

/-- The discontinuity, if there is one. -/
theorem listed_discontinuity (need : Bool) (rest : List Written) :
    listed false false ((if need then [verbatim discontinuityTag] else []) ++ rest) =
      listed need false rest := by
  cases need with
  | true => exact if_pos rfl
  | false => rfl

theorem listed_extinf {line : Written} (h : isExtinf line = true) (d : Bool) (url : Written)
    (rest : List Written) : listed d false (line :: url :: rest) = (d, url) :: listed false false rest := by
  have hline : line ≠ verbatim discontinuityTag := by
    rintro rfl
    cases h
  rw [listed, if_neg hline, h, listed]

/-! ### Line by line -/

namespace ListedSegment

variable (seg : ListedSegment)

theorem extinfTag_isPrefixOf : extinfTag.isPrefixOf seg.extinf = true := by
  unfold extinf
  rw [List.append_assoc]
  exact List.isPrefixOf_iff_prefix.mpr (List.prefix_append ..)

theorem trim_extinf : trim seg.extinf ≠ "#EXTM3U".toList := by
  intro h
  have hprefix : trim seg.extinf <+: seg.extinf := trim_isPrefix (by decide) _
  rw [h] at hprefix
  -- the two tags part at the sixth character
  cases List.isPrefixOf_iff_prefix.mpr hprefix

theorem parseExtinfDuration_extinf : parseExtinfDuration seg.extinf = seg.duration := by
  have htext : (seg.durationText ++ ',' :: seg.title).takeWhile (· ≠ ',') = seg.durationText := by
    have hcomma : ∀ c ∈ seg.durationText, decide (c ≠ ',') = true := by
      rintro c hc
      refine decide_eq_true ?_
      rintro rfl
      exact seg.noComma hc
    rw [List.takeWhile_append_of_pos hcomma]
    simp
  unfold parseExtinfDuration extinf
  rw [List.append_assoc, stripPrefix_append, Option.bind_some, htext, seg.parses, Option.getD_some]

theorem trim_url : trim seg.url ≠ "#EXTM3U".toList := by
  rw [seg.trimmed]
  intro h
  exact seg.noTag (h ▸ rfl)

theorem extinfTag_isPrefixOf_url : extinfTag.isPrefixOf seg.url = false := by
  rw [Bool.eq_false_iff]
  intro h
  obtain ⟨rest, h⟩ := List.isPrefixOf_iff_prefix.mp h
  exact seg.noTag (h ▸ rfl)

end ListedSegment

section Lines

variable (crates : HlsCrates) (opts : ManifestOptions) (baseUrl : Str)

/-- Between two segments, the variables of the loop are those of the plan. -/
structure Between (f : SkipSegmentFilter) (skipped : Bool) (st : LineState) : Prop where
  holds : Holds st.skipFilter f
  pending : st.pendingExtinf = none
  need : st.needDiscontinuity = skipped

/-- The line of a URL. -/
theorem processLine_url (st : LineState) (seg : ListedSegment) :
    processLine crates opts baseUrl st seg.url = processUrlLine crates opts baseUrl st seg.url := by
  unfold processLine
  rw [if_neg seg.trim_url, if_neg (by simp [seg.extinfTag_isPrefixOf_url]), if_pos]
  exact ⟨seg.noTag, fun h => seg.nonempty (seg.trimmed ▸ h)⟩

theorem processLine_extinf (st : LineState) (seg : ListedSegment) :
    processLine crates opts baseUrl st seg.extinf = ([], processExtinf st seg.extinf) := by
  unfold processLine
  rw [if_neg seg.trim_extinf, if_pos seg.extinfTag_isPrefixOf]

/-- The two lines of a segment. -/
theorem processLinesFrom_segment (st : LineState) (seg : ListedSegment) (rest : List Str) :
    processLinesFrom crates opts baseUrl st (seg.extinf :: seg.url :: rest) =
      (processUrlLine crates opts baseUrl (processExtinf st seg.extinf) seg.url).1 ++
        processLinesFrom crates opts baseUrl
          (processUrlLine crates opts baseUrl (processExtinf st seg.extinf) seg.url).2 rest := by
  rw [processLinesFrom, processLine_extinf, List.nil_append, processLinesFrom, processLine_url]

variable {f f' : SkipSegmentFilter} {skipped : Bool} {st : LineState} (h : Between f skipped st)
include h

/-- A segment that is skipped leaves nothing behind. -/
theorem Between.skip {seg : ListedSegment} (hf : f.checkAndAdvance seg.duration = (true, f')) :
    ∃ st', processUrlLine crates opts baseUrl (processExtinf st seg.extinf) seg.url = ([], st') ∧
      Between f' true st' := by
  rcases hheld : st.skipFilter with _ | g
  · -- there is no filter that could skip it
    cases (Holds.none_keeps (hheld ▸ h.holds) hf).1
  · obtain rfl : g = f := by
      rcases hheld ▸ h.holds with hg | ⟨hg, -⟩
      · exact Option.some.inj hg
      · cases hg
    have hextinf : processExtinf st seg.extinf =
        { st with skipFilter := some f', needDiscontinuity := true, pendingExtinf := none } := by
      unfold processExtinf
      rw [hheld, seg.parseExtinfDuration_extinf]
      dsimp only
      rw [hf]
    rw [hextinf]
    exact ⟨_, if_pos ⟨rfl, rfl⟩, .inl rfl, rfl, rfl⟩

/-- A segment that is kept is written with its EXTINF, after a discontinuity if one was skipped. -/
theorem Between.keep {seg : ListedSegment} (hf : f.checkAndAdvance seg.duration = (false, f')) :
    ∃ st', processUrlLine crates opts baseUrl (processExtinf st seg.extinf) seg.url =
        ((if skipped then [verbatim discontinuityTag] else []) ++ [verbatim seg.extinf] ++
          [[rewriteSegmentOrPlaylistUri crates opts seg.url baseUrl]], st') ∧
      Between f' false st' := by
  obtain ⟨held, hextinf, hholds⟩ : ∃ held, processExtinf st seg.extinf =
      { st with skipFilter := held, pendingExtinf := some seg.extinf } ∧ Holds held f' := by
    unfold processExtinf
    rcases hheld : st.skipFilter with _ | g
    · exact ⟨none, rfl, (Holds.none_keeps (hheld ▸ h.holds) hf).2⟩
    · obtain rfl : g = f := by
        rcases hheld ▸ h.holds with hg | ⟨hg, -⟩
        · exact Option.some.inj hg
        · cases hg
      refine ⟨some f', ?_, .inl rfl⟩
      dsimp only
      rw [seg.parseExtinfDuration_extinf, hf]
  rw [hextinf]
  unfold processUrlLine
  rw [if_neg (by simp)]
  dsimp only
  rw [h.need]
  exact ⟨_, rfl, hholds, rfl, rfl⟩

/-- The loop over the lines keeps the plan. -/
theorem Between.listed_processLinesFrom (segs : List ListedSegment) :
    listed false false (processLinesFrom crates opts baseUrl st
        (segs.flatMap fun seg => [seg.extinf, seg.url])) =
      (keptFrom ListedSegment.duration f skipped segs).map fun p =>
        (p.1, [rewriteSegmentOrPlaylistUri crates opts p.2.url baseUrl]) := by
  induction segs generalizing f skipped st with
  | nil => rfl
  | cons seg rest ih =>
    rw [List.flatMap_cons]
    rw [show [seg.extinf, seg.url] ++ _ = seg.extinf :: seg.url :: _ from rfl,
      processLinesFrom_segment]
    rcases hf : f.checkAndAdvance seg.duration with ⟨_ | _, f'⟩
    · obtain ⟨st', hwritten, hbetween⟩ := h.keep crates opts baseUrl hf
      rw [hwritten, keptFrom_keep hf, List.map_cons, ← ih hbetween, List.append_assoc,
        List.append_assoc, listed_discontinuity]
      have hextinf : isExtinf (verbatim seg.extinf) = true := seg.extinfTag_isPrefixOf
      exact listed_extinf hextinf ..
    · obtain ⟨st', hwritten, hbetween⟩ := h.skip crates opts baseUrl hf
      rw [hwritten, keptFrom_skip hf, ← ih hbetween]
      rfl

omit h in
theorem listed_processLines (segs : List ListedSegment) :
    listed false false (processLines crates opts (unlines (playlistLines segs)) baseUrl) =
      (keptSegments opts.skipRanges ListedSegment.duration segs).map fun p =>
        (p.1, [rewriteSegmentOrPlaylistUri crates opts p.2.url baseUrl]) := by
  have hlines : ∀ line ∈ playlistLines segs, IsLine line := by
    unfold playlistLines
    intro line hline
    obtain rfl | hline := List.mem_cons.mp hline
    · exact ⟨by decide, by decide⟩
    · obtain ⟨seg, -, hline⟩ := List.mem_flatMap.mp hline
      obtain rfl | hline := List.mem_cons.mp hline
      · exact seg.isLine
      · obtain rfl := List.mem_singleton.mp hline
        exact seg.urlLine
  unfold processLines
  rw [lines_unlines hlines, playlistLines, processLinesFrom]
  -- the header, perhaps with the start offset, says nothing of segments
  obtain ⟨silent, st', hheader, hsilent, hbetween⟩ : ∃ silent st',
      processLine crates opts baseUrl (firstState opts) "#EXTM3U".toList = (silent, st') ∧
        (∀ line ∈ silent, Silent line) ∧ Between { ranges := opts.skipRanges } false st' := by
    unfold processLine
    rw [if_pos (by decide)]
    have hheader : Silent (verbatim "#EXTM3U".toList) := ⟨by decide, by decide⟩
    cases opts.startOffset with
    | none =>
      refine ⟨_, _, rfl, ?_, holds_first _, rfl, rfl⟩
      intro line hline
      rw [List.mem_singleton.mp hline]
      exact hheader
    | some offset =>
      refine ⟨_, _, rfl, ?_, holds_first _, rfl, rfl⟩
      intro line hline
      obtain rfl | hline := List.mem_cons.mp hline
      · exact hheader
      · rw [List.mem_singleton.mp hline]
        exact silent_startLine offset
  rw [hheader, listed_silent_append hsilent, hbetween.listed_processLinesFrom,
    keptFrom_eq_keptSegments]

end Lines

/-! ### The playlist of a DASH presentation -/

section Dash

variable (encode : Str → Str) (isLive : Bool) (proxyBase : Str) (params : MpdProxyParams)

/-- The init segment does not change at this one. -/
def SameInit (current : Option Str) (profile : MpdProfile) : Prop :=
  params.remuxToTs = true ∨ ∀ initUrl ∈ current, initUrl = profile.initUrl.getD []

/-- The lines of a segment that is kept. -/
theorem keptSegmentLines_eq (st : SegmentLoop) (segment : MpdSegment) {profile : MpdProfile}
    (hinit : SameInit params st.currentInitUrl profile) :
    ∃ mapLines dateLines current,
      keptSegmentLines encode isLive proxyBase params st segment profile =
        (mapLines ++ (if st.needDiscontinuity then [discontinuityTag] else []) ++ dateLines ++
            [extinfTag ++ formatFixed 3 segment.extinf ++ [','],
              dashSegmentUrl encode isLive proxyBase params (segment, profile)],
          { st with needDiscontinuity := false, currentInitUrl := current }) ∧
      (∀ line ∈ mapLines ++ dateLines, Silent (verbatim line)) ∧
      SameInit params current profile := by
  unfold keptSegmentLines
  -- there is no boundary, which would write a discontinuity of its own
  have hboundary : ¬ (((!params.remuxToTs) = true ∧
      some (profile.initUrl.getD []) ≠ st.currentInitUrl) ∧ st.currentInitUrl.isSome = true) := by
    rintro ⟨⟨hmap, hchanged⟩, hcurrent⟩
    obtain ⟨initUrl, hcurrent⟩ := Option.isSome_iff_exists.mp hcurrent
    obtain hts | hsame := hinit
    · rw [hts] at hmap
      cases hmap
    · exact hchanged (by rw [hcurrent, hsame initUrl hcurrent])
  simp only [hboundary, if_false, List.nil_append, not_false_eq_true, and_true]
  refine ⟨_, _, _, rfl, ?_, ?_⟩
  · intro line hline
    obtain hline | hline := List.mem_append.mp hline
    · split at hline
      · split at hline
        · cases hline
        · rw [List.mem_singleton.mp hline, List.append_assoc]
          exact silent_of_tag (by decide) (by decide) (by decide) _
      · cases hline
    · split at hline
      · split at hline
        · cases hline
        · rw [List.mem_singleton.mp hline]
          exact silent_of_tag (by decide) (by decide) (by decide) _
      · cases hline
  · split
    · refine .inr fun initUrl hinitUrl => ?_
      exact (Option.some.inj hinitUrl).symm
    · exact hinit

/-- What a reader finds in them. -/
theorem listed_keptSegmentLines (st : SegmentLoop) (segment : MpdSegment) {profile : MpdProfile}
    (hinit : SameInit params st.currentInitUrl profile) (rest : List Written) :
    listed false false ((keptSegmentLines encode isLive proxyBase params st segment profile).1.map
        verbatim ++ rest) =
      (st.needDiscontinuity,
        verbatim (dashSegmentUrl encode isLive proxyBase params (segment, profile))) ::
          listed false false rest := by
  obtain ⟨mapLines, dateLines, current, hlines, hsilent, -⟩ :=
    keptSegmentLines_eq encode isLive proxyBase params st segment hinit
  have hmap : ∀ line ∈ mapLines.map verbatim, Silent line := by
    intro line hline
    obtain ⟨s, hs, rfl⟩ := List.mem_map.mp hline
    exact hsilent s (List.mem_append_left _ hs)
  have hdate : ∀ line ∈ dateLines.map verbatim, Silent line := by
    intro line hline
    obtain ⟨s, hs, rfl⟩ := List.mem_map.mp hline
    exact hsilent s (List.mem_append_right _ hs)
  have hdiscontinuity : (if st.needDiscontinuity then [discontinuityTag] else []).map verbatim =
      if st.needDiscontinuity then [verbatim discontinuityTag] else [] := by
    split
    · rfl
    · rfl
  rw [hlines]
  simp only [List.map_append, List.append_assoc]
  rw [listed_silent_append hmap, hdiscontinuity, listed_discontinuity, listed_silent_append hdate]
  exact listed_extinf rfl ..

/-- One turn of the loop. -/
theorem segmentLines_cons {f f' : SkipSegmentFilter} {st : SegmentLoop} {skip : Bool}
    {segment : MpdSegment} {profile : MpdProfile} (hholds : Holds st.skipFilter f)
    (hf : f.checkAndAdvance (dashDuration (segment, profile)) = (skip, f')) (rest : List (MpdSegment × MpdProfile)) :
    ∃ held, Holds held f' ∧
      segmentLines encode isLive proxyBase params st ((segment, profile) :: rest) =
        if skip then
          segmentLines encode isLive proxyBase params
            { st with skipFilter := held, needDiscontinuity := true } rest
        else
          (keptSegmentLines encode isLive proxyBase params { st with skipFilter := held } segment
              profile).1 ++
            segmentLines encode isLive proxyBase params
              (keptSegmentLines encode isLive proxyBase params { st with skipFilter := held } segment
                profile).2 rest := by
  obtain ⟨held, needDiscontinuity, currentInitUrl⟩ := st
  cases held with
  | none =>
    obtain ⟨rfl, hnext⟩ := hholds.none_keeps hf
    exact ⟨none, hnext, rfl⟩
  | some g =>
    obtain rfl : g = f := by
      obtain hg | ⟨hg, -⟩ := hholds
      · exact Option.some.inj hg
      · cases hg
    refine ⟨some f', .inl rfl, ?_⟩
    have hextinf : dashDuration (segment, profile) = segment.extinf := rfl
    rw [hextinf] at hf
    rw [segmentLines]
    dsimp only
    rw [hf]

/-- The loop over the segments keeps the plan. -/
theorem listed_segmentLines {f : SkipSegmentFilter} {st : SegmentLoop}
    {segments : List (MpdSegment × MpdProfile)} (hholds : Holds st.skipFilter f)
    (hinit : ∀ p ∈ segments, SameInit params st.currentInitUrl p.2)
    (hsame : params.remuxToTs = true ∨ ∃ initUrl, ∀ p ∈ segments, p.2.initUrl = initUrl)
    (rest : List Written) :
    listed false false ((segmentLines encode isLive proxyBase params st segments).map verbatim ++ rest) =
      ((keptFrom dashDuration f st.needDiscontinuity segments).map fun p =>
        (p.1, verbatim (dashSegmentUrl encode isLive proxyBase params p.2))) ++
          listed false false rest := by
  induction segments generalizing f st with
  | nil => rfl
  | cons p segments ih =>
    obtain ⟨segment, profile⟩ := p
    have hsame' : params.remuxToTs = true ∨ ∃ initUrl, ∀ p ∈ segments, p.2.initUrl = initUrl :=
      hsame.imp_right fun ⟨initUrl, h⟩ => ⟨initUrl, fun p hp => h p (List.mem_cons_of_mem _ hp)⟩
    rcases hf : f.checkAndAdvance (dashDuration (segment, profile)) with ⟨_ | _, f'⟩
    · obtain ⟨held, hnext, hlines⟩ := segmentLines_cons encode isLive proxyBase params hholds hf segments
      have hfirst : SameInit params st.currentInitUrl profile := hinit _ List.mem_cons_self
      have hkept := listed_keptSegmentLines encode isLive proxyBase params
        { st with skipFilter := held } segment hfirst
      obtain ⟨mapLines, dateLines, current, hwritten, -, hcurrent⟩ :=
        keptSegmentLines_eq encode isLive proxyBase params { st with skipFilter := held } segment hfirst
      have hinit' : ∀ p ∈ segments, SameInit params current p.2 := by
        intro p hp
        obtain hts | ⟨initUrl, hsame⟩ := hsame
        · exact .inl hts
        · refine hcurrent.imp_right fun h => ?_
          rw [hsame p (List.mem_cons_of_mem _ hp), ← hsame (segment, profile) List.mem_cons_self]
          exact h
      rw [hlines, if_neg Bool.false_ne_true, List.map_append, List.append_assoc, hkept,
        keptFrom_keep hf, hwritten]
      exact congrArg _ (ih hnext hinit' hsame')
    · obtain ⟨held, hnext, hlines⟩ := segmentLines_cons encode isLive proxyBase params hholds hf segments
      rw [hlines, if_pos rfl, keptFrom_skip hf]
      exact ih hnext (fun p hp => hinit p (List.mem_cons_of_mem _ hp)) hsame'

theorem mem_of_mem_trimmedSegments {startOffset : Option ℚ} {configuredDepth : ℕ}
    {merged : List (MpdSegment × MpdProfile)} {p : MpdSegment × MpdProfile}
    (h : p ∈ trimmedSegments isLive params startOffset configuredDepth merged) : p ∈ merged := by
  unfold trimmedSegments at h
  split at h
  · exact List.mem_of_mem_drop h
  · exact h

/-- The lines of a playlist around those of its segments. -/
theorem buildHlsMediaPlaylist_eq (profiles : List MpdProfile) (ranges : List SkipRange)
    (startOffset : Option ℚ) (configuredDepth : ℕ) :
    ∃ preamble trailer,
      buildHlsMediaPlaylist encode isLive proxyBase params profiles ranges startOffset
          configuredDepth =
        preamble ++ segmentLines encode isLive proxyBase params
          { skipFilter := if ranges = [] then none else some { ranges } }
          (trimmedSegments isLive params startOffset configuredDepth (mergedSegments profiles)) ++
          trailer ∧
      (∀ line ∈ preamble, Silent (verbatim line)) ∧ ∀ line ∈ trailer, Silent (verbatim line) := by
  have hversion (n : ℕ) : ∀ line ∈ ["#EXTM3U".toList, "#EXT-X-VERSION:".toList ++ decimal n],
      Silent (verbatim line) :=
    List.forall_mem_cons.mpr ⟨⟨by decide, by decide⟩, List.forall_mem_singleton.mpr
      (silent_of_tag (by decide) (by decide) (by decide) _)⟩
  unfold buildHlsMediaPlaylist
  dsimp only
  by_cases hmerged : mergedSegments profiles = []
  · have htrimmed : trimmedSegments isLive params startOffset configuredDepth [] = [] := by
      unfold trimmedSegments
      simp
    rw [if_pos hmerged, hmerged, htrimmed]
    exact ⟨_, [], by rw [segmentLines, List.append_nil, List.append_nil], hversion _,
      List.forall_mem_nil _⟩
  · rw [if_neg hmerged]
    have hstart (offset : ℚ) : ∀ line ∈ ["#EXT-X-START:TIME-OFFSET=".toList ++ formatFixed 1 offset
        ++ ",PRECISE=".toList ++ if params.remuxToTs then "NO".toList else "YES".toList],
        Silent (verbatim line) := by
      rw [List.append_assoc, List.append_assoc]
      exact List.forall_mem_singleton.mpr (silent_of_tag (by decide) (by decide) (by decide) _)
    have htype : ∀ line ∈ if isLive then [] else ["#EXT-X-PLAYLIST-TYPE:VOD".toList],
        Silent (verbatim line) := by
      split
      · exact List.forall_mem_nil _
      · exact List.forall_mem_singleton.mpr ⟨by decide, by decide⟩
    have hend : ∀ line ∈ if isLive then [] else ["#EXT-X-ENDLIST".toList],
        Silent (verbatim line) := by
      split
      · exact List.forall_mem_nil _
      · exact List.forall_mem_singleton.mpr ⟨by decide, by decide⟩
    cases trimmedSegments isLive params startOffset configuredDepth (mergedSegments profiles) with
    | nil =>
      refine ⟨_, [], by rw [segmentLines, List.append_nil, List.append_nil], ?_,
        List.forall_mem_nil _⟩
      refine List.forall_mem_append.mpr ⟨hversion _, ?_⟩
      cases effectiveStartOffset isLive params startOffset with
      | none => exact List.forall_mem_nil _
      | some offset => exact hstart offset
    | cons first rest =>
      have hcounts : ∀ line ∈ ["#EXT-X-TARGETDURATION:".toList ++
            decimal (targetDuration params (first :: rest)),
          "#EXT-X-MEDIA-SEQUENCE:".toList ++ decimal (playlistSequence isLive first)],
          Silent (verbatim line) :=
        List.forall_mem_cons.mpr ⟨silent_of_tag (by decide) (by decide) (by decide) _,
          List.forall_mem_singleton.mpr (silent_of_tag (by decide) (by decide) (by decide) _)⟩
      refine ⟨_, _, rfl, ?_, hend⟩
      simp only [List.forall_mem_append]
      refine ⟨⟨⟨hversion _, ?_⟩, hcounts⟩, htype⟩
      cases effectiveStartOffset isLive params startOffset with
      | none => exact List.forall_mem_nil _
      | some offset => exact hstart offset

/-- The whole playlist. -/
theorem listed_buildHlsMediaPlaylist (profiles : List MpdProfile) (ranges : List SkipRange)
    (startOffset : Option ℚ) (configuredDepth : ℕ)
    (hsame : params.remuxToTs = true ∨ ∃ initUrl, ∀ profile ∈ profiles, profile.initUrl = initUrl) :
    listed false false ((buildHlsMediaPlaylist encode isLive proxyBase params profiles ranges
        startOffset configuredDepth).map verbatim) =
      (keptSegments ranges dashDuration (trimmedSegments isLive params startOffset configuredDepth
        (mergedSegments profiles))).map fun p =>
          (p.1, verbatim (dashSegmentUrl encode isLive proxyBase params p.2)) := by
  obtain ⟨preamble, trailer, hlines, hpreamble, htrailer⟩ :=
    buildHlsMediaPlaylist_eq encode isLive proxyBase params profiles ranges startOffset configuredDepth
  have hprofiles : ∀ p ∈ trimmedSegments isLive params startOffset configuredDepth
      (mergedSegments profiles), p.2 ∈ profiles := by
    intro p hp
    have hmerged := mem_of_mem_trimmedSegments isLive params hp
    obtain ⟨profile, hprofile, hp⟩ := List.mem_flatMap.mp hmerged
    obtain ⟨segment, -, rfl⟩ := List.mem_map.mp hp
    exact hprofile
  have hinit : ∀ p ∈ trimmedSegments isLive params startOffset configuredDepth
      (mergedSegments profiles), SameInit params none p.2 := fun _ _ => .inr nofun
  have hfirst : Holds (if ranges = [] then none else some { ranges }) { ranges } := holds_first ranges
  rw [hlines, List.map_append, List.map_append, List.append_assoc,
    listed_silent_append (List.forall_mem_map.mpr hpreamble),
    listed_segmentLines encode isLive proxyBase params hfirst hinit
      (hsame.imp_right fun ⟨initUrl, h⟩ => ⟨initUrl, fun p hp => h p.2 (hprofiles p hp)⟩),
    listed_of_silent (List.forall_mem_map.mpr htrailer), List.append_nil, keptFrom_eq_keptSegments]

end Dash

/-! ### The main result -/

/-- The three filters keep the same segments, of a DASH playlist those of the segments that
it is trimmed to. -/
theorem skipsAlike_trimmed : SkipsAlike trimmedSegments where
  structured crates opts baseUrl pl segs hsegs := by
    rw [processMedia_segments, hsegs, keptSegments_map, keptSegments_map, List.map_map,
      List.map_map, List.map_map]
    refine List.map_congr_left fun p _ => ?_
    exact Prod.ext (Bool.or_false _) rfl
  lines crates opts baseUrl segs := listed_processLines crates opts baseUrl segs
  dash encode isLive proxyBase params profiles ranges startOffset configuredDepth hsame :=
    listed_buildHlsMediaPlaylist encode isLive proxyBase params profiles ranges startOffset
      configuredDepth hsame

/-- A live playlist of MPEG-TS segments with 21 of them, of which it lists the last 20. -/
theorem skipsAlike_fails : ¬ SkipsAlike fun _ _ _ _ merged => merged := by
  intro h
  let segment : MpdSegment :=
    { media := "s.m4s".toList, number := 1, extinf := 4, time := none, durationMpdTimescale := none,
      startUnix := none, programDateTime := none, mediaRange := none, initRange := none }
  let profile : MpdProfile :=
    { id := [], repId := [], mimeType := "video/mp4".toList, bandwidth := 0, initUrl := none,
      initRange := none, segments := List.replicate 21 segment,
      segmentTemplateStartNumberExplicit := false, nominalDurationMpdTimescale := none }
  let params : MpdProxyParams :=
    { apiPassword := [], passHeaders := [], keyId := none, key := none, remuxToTs := true }
  have hlisted := congrArg List.length (h.dash id true [] params [profile] [] none 0 (.inl rfl))
  rw [keptSegments_no_ranges] at hlisted
  revert hlisted
  decide +kernel

end MediaFlow
