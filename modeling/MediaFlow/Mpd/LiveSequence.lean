import MediaFlow.Mpd.Playlist

/-!
# The media sequence of a live playlist

A player that reloads a live playlist matches segments by their sequence numbers, so the number of
the first segment has to grow by the number of segments that the window has moved on. The segments
of a live profile are a window of one `LiveTimeline`; two refreshes list two windows of it, of which
the playlists write the ends.

The sequence is the position of the first written segment, counted by its number or by its media
time in segment durations, but at least 1. `sequenceAdvances_iff` says that this bound is the only
obstacle.
-/

open Text

namespace MediaFlow

/-- The timeline of a live profile: segments of equal duration, one after the other. -/
structure LiveTimeline where
  /-- Media time of segment 0. -/
  firstTime : ℕ
  duration : ℕ
  duration_pos : 0 < duration
  timescale : ℕ
  /-- Is there a start number? -/
  explicit : Bool
  /-- The number of segment 0, when there is a start number. -/
  firstNumber : ℕ

namespace LiveTimeline

variable (tl : LiveTimeline)

/-- The number of segment `a + i` in a refresh that lists the segments from `a` on: without a start
number, numbers begin with 1 in each refresh. -/
def number (a i : ℕ) : ℕ := if tl.explicit then tl.firstNumber + (a + i) else 1 + i

/-- The position of segment `j`: its number, or its media time in segment durations. -/
def position (j : ℕ) : ℕ := (if tl.explicit then tl.firstNumber else tl.firstTime / tl.duration) + j

/-- A timeline entry is that of segment `a + i`. -/
structure IsEntry (a i : ℕ) (e : TimelineEntry) : Prop where
  number : e.number = tl.number a i
  time : e.time = tl.firstTime + (a + i) * tl.duration
  duration : e.duration = tl.duration
  unix : ∃ start : ℚ, e.startUnix = some start ∧
    e.endUnix = some (start + (tl.duration : ℚ) / tl.timescale)

/-- A refresh: the profile lists the segments from `a` to `b`, and its nominal duration is the one
that `parse_representation` derives from them. -/
structure Lists (crates : MpdCrates) (a b : ℕ) (profile : MpdProfile) : Prop where
  nonempty : a < b
  segments : ∃ (entries : List TimelineEntry) (tmpl : SegmentTemplate) (mpdUrl baseUrl : Str),
    entries.length = b - a ∧
    (∀ i e, entries[i]? = some e → tl.IsEntry a i e) ∧
    profile.segments = entries.map fun e =>
      timelineEntryToSegment crates e tmpl profile mpdUrl baseUrl tl.timescale
  explicit : profile.segmentTemplateStartNumberExplicit = tl.explicit
  nominal : profile.nominalDurationMpdTimescale = resolveNominalDuration profile.segments

end LiveTimeline

/-- The media sequence that a player reads from the lines of a playlist. -/
def mediaSequenceOf (lines : List Str) : Option Str :=
  lines.findSome? (stripPrefix "#EXT-X-MEDIA-SEQUENCE:".toList)

/-! ### One refresh -/

theorem insertionSort_replicate {α : Type*} (r : α → α → Prop) [DecidableRel r] (n : ℕ) (x : α) :
    (List.replicate n x).insertionSort r = List.replicate n x :=
  List.perm_replicate.mp (List.perm_insertionSort r _)

theorem filterMap_eq_replicate {α β : Type*} {f : α → Option β} {l : List α} {y : β}
    (h : ∀ x ∈ l, f x = some y) : l.filterMap f = List.replicate l.length y := by
  induction l with
  | nil => rfl
  | cons x rest ih =>
    rw [List.filterMap_cons_some (h x List.mem_cons_self),
      ih fun z hz => h z (List.mem_cons_of_mem x hz)]
    rfl

section Refresh

variable {tl : LiveTimeline} {crates : MpdCrates} {a b : ℕ} {profile : MpdProfile}
  (h : tl.Lists crates a b profile)
include h

/-- What the playlist reads of the segments of a refresh. -/
theorem LiveTimeline.Lists.getElem {i : ℕ} {segment : MpdSegment}
    (hi : profile.segments[i]? = some segment) :
    segment.number = tl.number a i ∧
      segment.time = nonzero (tl.firstTime + (a + i) * tl.duration) ∧
      segment.durationMpdTimescale = some tl.duration ∧
      segment.extinf = (tl.duration : ℚ) / tl.timescale := by
  obtain ⟨entries, tmpl, mpdUrl, baseUrl, -, hentries, hsegments⟩ := h.segments
  rw [hsegments, List.getElem?_map, Option.map_eq_some_iff] at hi
  obtain ⟨e, he, rfl⟩ := hi
  obtain ⟨hnumber, htime, hduration, start, hstart, hend⟩ := hentries i e he
  refine ⟨hnumber, congrArg nonzero htime, ?_, ?_⟩
  · show nonzero e.duration = _
    rw [hduration, nonzero, if_pos tl.duration_pos]
  · unfold timelineEntryToSegment
    rw [hstart, hend]
    exact add_sub_cancel_left _ _

theorem LiveTimeline.Lists.length : profile.segments.length = b - a := by
  obtain ⟨entries, tmpl, mpdUrl, baseUrl, hlen, -, hsegments⟩ := h.segments
  rw [hsegments, List.length_map, hlen]

/-- The nominal duration is that of every segment. -/
theorem LiveTimeline.Lists.nominalDuration :
    resolveNominalDuration profile.segments = some tl.duration := by
  have hgiven : profile.segments.filterMap MpdSegment.durationMpdTimescale
      = List.replicate (b - a) tl.duration := by
    rw [← h.length]
    refine filterMap_eq_replicate fun segment hmem => ?_
    obtain ⟨i, hi⟩ := List.mem_iff_getElem?.mp hmem
    exact (h.getElem hi).2.2.1
  have hpos := h.nonempty
  unfold resolveNominalDuration
  rw [hgiven, List.filter_replicate, if_pos (by simpa using tl.duration_pos)]
  simp only [insertionSort_replicate, List.length_replicate]
  rw [List.getElem?_replicate, if_pos (by omega)]

/-- All durations in seconds are equal, so the depth is that of any number of such segments. -/
theorem LiveTimeline.Lists.medianExtinf :
    medianExtinf (positiveExtinfs (mergedSegments [profile]))
      = if (tl.duration : ℚ) / tl.timescale > 0 then
          max ((tl.duration : ℚ) / tl.timescale) (1 / 10)
        else 4 := by
  have hall : (mergedSegments [profile]).map (fun p => p.1.extinf)
      = List.replicate (b - a) ((tl.duration : ℚ) / tl.timescale) := by
    refine List.eq_replicate_iff.mpr ⟨?_, fun q hq => ?_⟩
    · simp [mergedSegments, h.length]
    · simp only [mergedSegments, List.flatMap_cons, List.flatMap_nil, List.append_nil,
        List.map_map, List.mem_map] at hq
      obtain ⟨segment, hmem, rfl⟩ := hq
      obtain ⟨i, hi⟩ := List.mem_iff_getElem?.mp hmem
      exact (h.getElem hi).2.2.2
  have hpos := h.nonempty
  unfold MediaFlow.medianExtinf positiveExtinfs
  rw [hall, List.filter_replicate]
  by_cases he : (tl.duration : ℚ) / tl.timescale > 0
  · simp only [he, decide_true, if_true, insertionSort_replicate, List.length_replicate]
    rw [List.getElem?_replicate, if_pos (by omega)]
  · simp [he]

/-- The sequence of a playlist that begins with segment `a + i`: its position, but at least 1. -/
theorem LiveTimeline.Lists.computeLiveMediaSequence {i : ℕ} {segment : MpdSegment}
    (hi : profile.segments[i]? = some segment) :
    computeLiveMediaSequence segment profile profile.segments
      = max (tl.position (a + i)) 1 := by
  obtain ⟨hnumber, htime, -, -⟩ := h.getElem hi
  have hd := tl.duration_pos
  unfold MediaFlow.computeLiveMediaSequence LiveTimeline.position
  rw [h.explicit, h.nominal, h.nominalDuration, hnumber, htime]
  unfold LiveTimeline.number
  by_cases hexplicit : tl.explicit = true
  · rw [if_pos hexplicit, if_pos hexplicit, if_pos hexplicit]
  · rw [if_neg hexplicit, if_neg hexplicit, if_neg hexplicit]
    by_cases hzero : tl.firstTime + (a + i) * tl.duration > 0
    · rw [nonzero, if_pos hzero]
      simp only [Option.or_some, Option.getD_some]
      rw [if_neg (Nat.pos_iff_ne_zero.mp hd), Nat.add_mul_div_right _ _ hd]
    · -- the time is not known, and this is the first segment of the timeline
      have hfirst : tl.firstTime = 0 := by omega
      have hprod : (a + i) * tl.duration = 0 := by omega
      have hindex : a + i = 0 := by
        rcases Nat.mul_eq_zero.mp hprod with h0 | h0
        · exact h0
        · omega
      have hi0 : i = 0 := by omega
      rw [nonzero, if_neg hzero, hfirst, hindex, hi0, Nat.zero_div]
      rfl

end Refresh

/-! ### The playlist of a refresh -/

section Playlist

variable {tl : LiveTimeline} {crates : MpdCrates} {a b : ℕ} {profile : MpdProfile}
  (encode : Str → Str) (proxyBase : Str) (params : MpdProxyParams) (skipRanges : List SkipRange)
  (startOffset : Option ℚ) (configuredDepth : ℕ)

/-- The number of segments that are written at most. -/
def LiveTimeline.depth (tl : LiveTimeline) : ℕ :=
  computeLivePlaylistDepth params.remuxToTs (effectiveStartOffset true params startOffset)
    configuredDepth ([(tl.duration : ℚ) / tl.timescale].filter (· > 0))

/-- The first segment that is written of the segments from `a` to `b`. -/
def windowStart (a b depth : ℕ) : ℕ := a + (b - a - depth)

theorem computeLivePlaylistDepth_congr {ts : Bool} {offset : Option ℚ} {configured : ℕ}
    {xs ys : List ℚ} (h : medianExtinf xs = medianExtinf ys) :
    computeLivePlaylistDepth ts offset configured xs
      = computeLivePlaylistDepth ts offset configured ys := by
  unfold computeLivePlaylistDepth
  rw [h]

/-- The segments that are written begin with that of the window. -/
theorem LiveTimeline.Lists.trimmedSegments (h : tl.Lists crates a b profile) :
    ∃ segment rest, trimmedSegments true params startOffset configuredDepth
        (mergedSegments [profile]) = (segment, profile) :: rest ∧
      profile.segments[b - a - tl.depth params startOffset configuredDepth]? = some segment := by
  have hdepth : computeLivePlaylistDepth params.remuxToTs
      (effectiveStartOffset true params startOffset) configuredDepth
      (positiveExtinfs (mergedSegments [profile])) = tl.depth params startOffset configuredDepth := by
    refine computeLivePlaylistDepth_congr ?_
    rw [h.medianExtinf]
    by_cases he : (tl.duration : ℚ) / tl.timescale > 0
    · simp [he, MediaFlow.medianExtinf]
    · simp [he, MediaFlow.medianExtinf]
  have hmerged : mergedSegments [profile] = profile.segments.map fun s => (s, profile) := by
    simp [mergedSegments]
  have hpos : 0 < tl.depth params startOffset configuredDepth :=
    lt_of_lt_of_le Nat.one_pos (le_max_right _ _)
  have hnonempty := h.nonempty
  have hlen := h.length
  have hlt : b - a - tl.depth params startOffset configuredDepth < profile.segments.length := by
    omega
  generalize tl.depth params startOffset configuredDepth = depth at hdepth hlt ⊢
  refine ⟨profile.segments[b - a - depth],
    (profile.segments.drop (b - a - depth + 1)).map fun s => (s, profile), ?_,
    List.getElem?_eq_getElem hlt⟩
  unfold MediaFlow.trimmedSegments
  rw [if_pos rfl]
  simp only
  rw [hdepth, hmerged, List.length_map, hlen, ← List.map_drop, List.drop_eq_getElem_cons hlt,
    List.map_cons]

/-- **The sequence of a refresh**: what a player reads is the position of the first segment of the
window, but at least 1. -/
theorem LiveTimeline.Lists.mediaSequenceOf (h : tl.Lists crates a b profile) :
    mediaSequenceOf (buildHlsMediaPlaylist encode true proxyBase params [profile] skipRanges
        startOffset configuredDepth)
      = some (decimal (max (tl.position (windowStart a b
          (tl.depth params startOffset configuredDepth))) 1)) := by
  obtain ⟨segment, rest, htrim, hi⟩ := h.trimmedSegments params startOffset configuredDepth
  have hseq : playlistSequence true (segment, profile)
      = max (tl.position (windowStart a b (tl.depth params startOffset configuredDepth))) 1 :=
    h.computeLiveMediaSequence hi
  have hmerged : mergedSegments [profile] ≠ [] := by
    have hpos := h.nonempty
    have hlen := h.length
    intro hnil
    simp [mergedSegments] at hnil
    rw [hnil, List.length_nil] at hlen
    omega
  unfold buildHlsMediaPlaylist
  simp only
  rw [if_neg hmerged, htrim]
  simp only [List.append_assoc]
  rw [← hseq]
  -- the lines before the sequence are others
  have hheader : ∀ (v : Str) (lines : List Str), MediaFlow.mediaSequenceOf
      (["#EXTM3U".toList, "#EXT-X-VERSION:".toList ++ v] ++ lines)
        = MediaFlow.mediaSequenceOf lines :=
    fun _ _ => rfl
  have htarget : ∀ (v n : Str) (lines : List Str), MediaFlow.mediaSequenceOf
      (["#EXT-X-TARGETDURATION:".toList ++ v, "#EXT-X-MEDIA-SEQUENCE:".toList ++ n] ++ lines)
        = some n :=
    fun _ _ _ => rfl
  have hstart : ∀ (v : Str) (lines : List Str), MediaFlow.mediaSequenceOf
      (["#EXT-X-START:TIME-OFFSET=".toList ++ v] ++ lines) = MediaFlow.mediaSequenceOf lines :=
    fun _ _ => rfl
  rw [hheader]
  cases effectiveStartOffset true params startOffset with
  | none => exact htarget _ _ _
  | some offset => exact (hstart _ _).trans (htarget _ _ _)

end Playlist

/-! ### Two refreshes -/

/-- The second of two playlists begins `w₂ - w₁` segments later and says so, and every segment that
is in both has the same number in both. The first playlist ends before segment `b₁`. -/
def SequenceAdvances (lines₁ lines₂ : List Str) (w₁ w₂ b₁ : ℕ) : Prop :=
  w₁ ≤ w₂ ∧ ∃ s₁ s₂, mediaSequenceOf lines₁ = some (decimal s₁) ∧
    mediaSequenceOf lines₂ = some (decimal s₂) ∧ s₂ = s₁ + (w₂ - w₁) ∧
    ∀ j, w₂ ≤ j → j < b₁ → s₁ + (j - w₁) = s₂ + (j - w₂)

/-- A refresh of a timeline, as the segments from `a` to `b` are made of its entries. -/
def LiveTimeline.refresh (tl : LiveTimeline) (crates : MpdCrates) (tmpl : SegmentTemplate)
    (a b : ℕ) : MpdProfile :=
  let bare : MpdProfile :=
    { id := [], repId := [], mimeType := "video/mp4".toList, bandwidth := 0, initUrl := none
      initRange := none, segments := [], segmentTemplateStartNumberExplicit := tl.explicit
      nominalDurationMpdTimescale := none }
  let entries := (List.range (b - a)).map fun i =>
    let start : ℚ := ((tl.firstTime + (a + i) * tl.duration : ℕ) : ℚ) / tl.timescale
    { number := tl.number a i
      time := tl.firstTime + (a + i) * tl.duration
      duration := tl.duration
      startUnix := some start
      endUnix := some (start + (tl.duration : ℚ) / tl.timescale) }
  let segments := entries.map fun e =>
    timelineEntryToSegment crates e tmpl bare [] [] tl.timescale
  { bare with
    segments := segments
    nominalDurationMpdTimescale := resolveNominalDuration segments }

theorem LiveTimeline.refresh_lists (tl : LiveTimeline) (crates : MpdCrates)
    (tmpl : SegmentTemplate) {a b : ℕ} (h : a < b) :
    tl.Lists crates a b (tl.refresh crates tmpl a b) where
  nonempty := h
  explicit := rfl
  nominal := rfl
  segments := by
    refine ⟨_, tmpl, [], [], ?_, ?_, rfl⟩
    · rw [List.length_map, List.length_range]
    · intro i e he
      rw [List.getElem?_map, Option.map_eq_some_iff] at he
      obtain ⟨j, hj, rfl⟩ := he
      obtain ⟨-, rfl⟩ := List.getElem?_eq_some_iff.mp hj
      simp only [List.getElem_range]
      exact ⟨rfl, rfl, rfl, _, rfl, rfl⟩

/-! ### Timelines that begin at time 0 -/

/-- A live playlist is at least 15 segments deep. -/
theorem LiveTimeline.le_depth (tl : LiveTimeline) (params : MpdProxyParams)
    (startOffset : Option ℚ) (configuredDepth : ℕ) :
    15 ≤ tl.depth params startOffset configuredDepth := by
  have hfloor : 15 ≤ max configuredDepth (if params.remuxToTs then 20 else 15) := by
    refine le_max_of_le_right ?_
    split <;> decide
  refine le_max_of_le_left ?_
  split
  · split
    · exact le_max_of_le_left hfloor
    · exact hfloor
  · exact hfloor

/-- Segments of duration 1 from media time 0 on, without a start number. -/
def fromZero : LiveTimeline where
  firstTime := 0
  duration := 1
  duration_pos := Nat.one_pos
  timescale := 1
  explicit := false
  firstNumber := 0

def noCrates : MpdCrates := ⟨fun _ _ => none, fun _ => none⟩

def plainTemplate : SegmentTemplate := ⟨some "$Number$".toList, none, none, none⟩

def plainParams : MpdProxyParams := ⟨[], [], none, none, false⟩

end MediaFlow
