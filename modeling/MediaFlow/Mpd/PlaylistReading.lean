import MediaFlow.Hls.SkipAgreement
import MediaFlow.Mpd.FixedPoint

/-!
# Reading a media playlist of a DASH presentation

A player reads the lines of `build_hls_media_playlist` with a discontinuity that was announced and
the `EXT-X-MAP` that is in force (`readEntries`). The entries it finds should begin anew at each
period and behind each gap, and each should have its own map (`TellsPeriods`).

The code sees a new period by its init URL only. `tellsPeriods_iff`: when that is enough.
-/

open Text UrlCoding

namespace MediaFlow

open ManifestProcessor

/-! ### The segments, with their periods -/

/-- A segment of a profile that is, with its period, at place `period` of the profiles given. -/
structure PlacedSegment where
  period : ℕ
  segment : MpdSegment
  profile : MpdProfile

namespace PlacedSegment

variable (p : PlacedSegment)

def pair : MpdSegment × MpdProfile := (p.segment, p.profile)

def duration : ℚ := p.segment.extinf

def initUrl : Str := p.profile.initUrl.getD []

end PlacedSegment

def placedSegments (profiles : List MpdProfile) : List PlacedSegment :=
  profiles.zipIdx.flatMap fun p => p.1.segments.map fun segment => ⟨p.2, segment, p.1⟩

theorem map_pair_placedSegments (profiles : List MpdProfile) :
    (placedSegments profiles).map PlacedSegment.pair = mergedSegments profiles := by
  unfold placedSegments mergedSegments
  rw [List.map_flatMap]
  conv_rhs => rw [← List.zipIdx_map_fst 0 profiles, List.flatMap_map]
  refine List.flatMap_congr fun p _ => ?_
  rw [List.map_map]
  rfl

/-- The segments that the playlist is trimmed to, with their periods. -/
def trimmedPlaced (isLive : Bool) (params : MpdProxyParams) (startOffset : Option ℚ)
    (configuredDepth : ℕ) (profiles : List MpdProfile) : List PlacedSegment :=
  let merged := mergedSegments profiles
  (placedSegments profiles).drop (merged.length
    - (trimmedSegments isLive params startOffset configuredDepth merged).length)

theorem map_pair_trimmedPlaced (isLive : Bool) (params : MpdProxyParams) (startOffset : Option ℚ)
    (configuredDepth : ℕ) (profiles : List MpdProfile) :
    (trimmedPlaced isLive params startOffset configuredDepth profiles).map PlacedSegment.pair =
      trimmedSegments isLive params startOffset configuredDepth (mergedSegments profiles) := by
  have hsuffix : trimmedSegments isLive params startOffset configuredDepth (mergedSegments profiles)
      <:+ mergedSegments profiles := by
    unfold trimmedSegments
    split
    · exact List.drop_suffix _ _
    · exact List.suffix_refl _
  unfold trimmedPlaced
  dsimp only
  rw [List.map_drop, map_pair_placedSegments]
  exact (List.suffix_iff_eq_drop.mp hsuffix).symm

/-! ### Reading -/

/-- A segment as a player finds it. -/
structure PlaylistEntry where
  discontinuity : Bool
  /-- The line of the map in force. -/
  map : Option Str
  extinf : Str
  url : Str
deriving DecidableEq

def mapTag : Str := "#EXT-X-MAP:".toList

/-- The entries from here on. The line after an EXTINF is the URL. -/
def readEntries : (discontinuity : Bool) → (map extinf : Option Str) → List Str → List PlaylistEntry
  | _, _, _, [] => []
  | discontinuity, map, some extinf, url :: rest =>
    ⟨discontinuity, map, extinf, url⟩ :: readEntries false map none rest
  | discontinuity, map, none, line :: rest =>
    if line = discontinuityTag then readEntries true map none rest
    else if mapTag.isPrefixOf line then readEntries discontinuity (some line) none rest
    else if extinfTag.isPrefixOf line then readEntries discontinuity map (some line) rest
    else readEntries discontinuity map none rest

/-- A line that the reader passes over. -/
structure PassedOver (line : Str) : Prop where
  discontinuity : line ≠ discontinuityTag
  map : mapTag.isPrefixOf line = false
  extinf : extinfTag.isPrefixOf line = false

section Reading

variable (discontinuity : Bool) (map : Option Str) (rest : List Str)

theorem readEntries_discontinuity :
    readEntries discontinuity map none (discontinuityTag :: rest) =
      readEntries true map none rest := if_pos rfl

theorem readEntries_map (uri : Str) :
    readEntries discontinuity map none ((mapTag ++ uri) :: rest) =
      readEntries discontinuity (some (mapTag ++ uri)) none rest := by
  have hne : mapTag ++ uri ≠ discontinuityTag :=
    append_ne_of_not_isPrefixOf (by decide) _
  rw [readEntries, if_neg hne, if_pos (List.isPrefixOf_iff_prefix.mpr (List.prefix_append _ _))]

theorem readEntries_extinf (duration url : Str) :
    readEntries discontinuity map none ((extinfTag ++ duration) :: url :: rest) =
      ⟨discontinuity, map, extinfTag ++ duration, url⟩ :: readEntries false map none rest := by
  have hne : extinfTag ++ duration ≠ discontinuityTag :=
    append_ne_of_not_isPrefixOf (by decide) _
  have hmap : ¬ mapTag.isPrefixOf (extinfTag ++ duration) = true := Bool.false_ne_true
  rw [readEntries, if_neg hne, if_neg hmap,
    if_pos (List.isPrefixOf_iff_prefix.mpr (List.prefix_append _ _)), readEntries]

theorem readEntries_passedOver {line : Str} (h : PassedOver line) :
    readEntries discontinuity map none (line :: rest) =
      readEntries discontinuity map none rest := by
  rw [readEntries, if_neg h.discontinuity, h.map, h.extinf, if_neg Bool.false_ne_true,
    if_neg Bool.false_ne_true]

theorem readEntries_passedOver_append {lines : List Str} (h : ∀ line ∈ lines, PassedOver line) :
    readEntries discontinuity map none (lines ++ rest) =
      readEntries discontinuity map none rest := by
  induction lines with
  | nil => rfl
  | cons line lines ih =>
    obtain ⟨hline, hlines⟩ := List.forall_mem_cons.mp h
    rw [List.cons_append, readEntries_passedOver _ _ _ hline, ih hlines]

end Reading

/-! ### The entries -/

section Entries

variable (encode : Str → Str) (isLive : Bool) (proxyBase : Str) (params : MpdProxyParams)

/-- The line of the map of a segment. -/
def mapLine (p : PlacedSegment) : Str :=
  "#EXT-X-MAP:URI=\"".toList
    ++ buildInitUrl encode proxyBase p.initUrl p.profile.mimeType p.profile.initRange params
    ++ ['"']

/-- The map that is to be in force at a segment. With MPEG-TS there is none. -/
def ownMap (p : PlacedSegment) : Option Str :=
  if params.remuxToTs = true ∨ p.initUrl = [] then none
  else some (mapLine encode proxyBase params p)

def entryOf (discontinuity : Bool) (map : Option Str) (p : PlacedSegment) : PlaylistEntry where
  discontinuity := discontinuity
  map := map
  extinf := extinfTag ++ (formatFixed 3 p.duration ++ [','])
  url := dashSegmentUrl encode isLive proxyBase params p.pair

/-- What the entries should be. Each segment comes with whether others were skipped before it. -/
def periodEntries : (before : Option PlacedSegment) → List (Bool × PlacedSegment) →
    List PlaylistEntry
  | _, [] => []
  | before, (skipped, p) :: rest =>
    entryOf encode isLive proxyBase params (before.any fun q => skipped || q.period ≠ p.period)
        (ownMap encode proxyBase params p) p
      :: periodEntries (some p) rest

/-- The init URL changes at a segment, after that which is in use. -/
def InitChanges (current : Option Str) (p : PlacedSegment) : Prop :=
  params.remuxToTs = false ∧ some p.initUrl ≠ current

instance (current : Option Str) (p : PlacedSegment) : Decidable (InitChanges params current p) :=
  inferInstanceAs (Decidable (_ ∧ _))

/-- The map in force at a segment. -/
def nextMap (current map : Option Str) (p : PlacedSegment) : Option Str :=
  if InitChanges params current p ∧ p.initUrl ≠ [] then some (mapLine encode proxyBase params p)
  else map

def nextInit (current : Option Str) (p : PlacedSegment) : Option Str :=
  if InitChanges params current p then some p.initUrl else current

/-- What the entries are. -/
def writtenEntries : (current map : Option Str) → List (Bool × PlacedSegment) →
    List PlaylistEntry
  | _, _, [] => []
  | current, map, (skipped, p) :: rest =>
    entryOf encode isLive proxyBase params
        (skipped || decide (InitChanges params current p ∧ current.isSome))
        (nextMap encode proxyBase params current map p) p
      :: writtenEntries (nextInit params current p)
        (nextMap encode proxyBase params current map p) rest

theorem readEntries_ifDiscontinuity (discontinuity : Bool) (map : Option Str) (c : Prop)
    [Decidable c] (rest : List Str) :
    readEntries discontinuity map none ((if c then [discontinuityTag] else []) ++ rest) =
      readEntries (discontinuity || decide c) map none rest := by
  by_cases h : c
  · rw [if_pos h, decide_eq_true h, Bool.or_true]
    exact readEntries_discontinuity discontinuity map rest
  · rw [if_neg h, decide_eq_false h, Bool.or_false]
    rfl

/-- The lines that tell of a new init segment. -/
def initLines (current : Option Str) (p : PlacedSegment) : List Str :=
  if InitChanges params current p then
    (if current.isSome then [discontinuityTag] else [])
      ++ if p.initUrl = [] then [] else [mapLine encode proxyBase params p]
  else []

theorem readEntries_initLines (current map : Option Str) (p : PlacedSegment) (rest : List Str) :
    readEntries false map none (initLines encode proxyBase params current p ++ rest) =
      readEntries (decide (InitChanges params current p ∧ current.isSome))
        (nextMap encode proxyBase params current map p) none rest := by
  unfold initLines nextMap
  by_cases h : InitChanges params current p
  · rw [if_pos h, List.append_assoc, readEntries_ifDiscontinuity, Bool.false_or]
    simp only [h, true_and]
    by_cases hinit : p.initUrl = []
    · rw [if_pos hinit, if_neg (not_not.mpr hinit)]
      rfl
    · rw [if_neg hinit, if_pos hinit]
      exact readEntries_map _ _ _ _
  · simp only [h, false_and, if_false, decide_false, List.nil_append]

def dateLines (segment : MpdSegment) : List Str :=
  match segment.programDateTime with
  | some pdt => if params.remuxToTs then [] else ["#EXT-X-PROGRAM-DATE-TIME:".toList ++ pdt]
  | none => []

theorem passedOver_dateLines (segment : MpdSegment) :
    ∀ line ∈ dateLines params segment, PassedOver line := by
  intro line hline
  unfold dateLines at hline
  split at hline
  · split at hline
    · cases hline
    · rw [List.mem_singleton.mp hline]
      exact ⟨append_ne_of_not_isPrefixOf (by decide) _, rfl, rfl⟩
  · cases hline

/-- The test of the loop. -/
theorem initUrlDiffers_iff (current : Option Str) (p : PlacedSegment) :
    ((!params.remuxToTs) = true ∧ some (p.profile.initUrl.getD []) ≠ current) ↔
      InitChanges params current p := by
  rw [InitChanges, Bool.not_eq_true']
  rfl

/-- The lines of one segment. -/
theorem keptSegmentLines_lines (st : SegmentLoop) (p : PlacedSegment) :
    (keptSegmentLines encode isLive proxyBase params st p.segment p.profile).1 =
      initLines encode proxyBase params st.currentInitUrl p ++
        ((if st.needDiscontinuity ∧ ¬ (InitChanges params st.currentInitUrl p ∧
            st.currentInitUrl.isSome) then [discontinuityTag] else []) ++
          (dateLines params p.segment ++
          [extinfTag ++ (formatFixed 3 p.duration ++ [',']),
            dashSegmentUrl encode isLive proxyBase params p.pair])) := by
  unfold keptSegmentLines initLines
  simp only [initUrlDiffers_iff]
  by_cases h : InitChanges params st.currentInitUrl p
  · simp only [h, true_and, if_true, List.append_assoc]
    rfl
  · simp only [h, false_and, if_false]
    simp only [List.append_assoc]
    rfl

theorem readEntries_keptSegmentLines (st : SegmentLoop) (p : PlacedSegment) (map : Option Str)
    (rest : List Str) :
    readEntries false map none
        ((keptSegmentLines encode isLive proxyBase params st p.segment p.profile).1 ++ rest) =
      entryOf encode isLive proxyBase params
          (st.needDiscontinuity || decide (InitChanges params st.currentInitUrl p ∧
            st.currentInitUrl.isSome))
          (nextMap encode proxyBase params st.currentInitUrl map p) p
        :: readEntries false (nextMap encode proxyBase params st.currentInitUrl map p) none
          rest := by
  rw [keptSegmentLines_lines, List.append_assoc, readEntries_initLines, List.append_assoc,
    readEntries_ifDiscontinuity, List.append_assoc,
    readEntries_passedOver_append _ _ _ (passedOver_dateLines params p.segment)]
  -- a discontinuity for the period is not written twice
  have hflag (b : Bool) (c : Prop) [Decidable c] :
      (decide c || decide (b = true ∧ ¬ c)) = (b || decide c) := by
    cases b
    · simp
    · by_cases hc : c
      · simp [hc]
      · simp [hc]
  rw [hflag]
  exact readEntries_extinf _ _ _ _ _

theorem keptSegmentLines_state (st : SegmentLoop) (p : PlacedSegment) :
    (keptSegmentLines encode isLive proxyBase params st p.segment p.profile).2 =
      { st with
        needDiscontinuity := false
        currentInitUrl := nextInit params st.currentInitUrl p } := by
  unfold keptSegmentLines nextInit
  simp only [initUrlDiffers_iff]
  rfl

/-- **What a player reads.** -/
theorem readEntries_segmentLines {f : SkipSegmentFilter} {st : SegmentLoop} {map : Option Str}
    {segments : List PlacedSegment} (hholds : Holds st.skipFilter f) (rest : List Str)
    (hrest : ∀ line ∈ rest, PassedOver line) :
    readEntries false map none (segmentLines encode isLive proxyBase params st
        (segments.map PlacedSegment.pair) ++ rest) =
      writtenEntries encode isLive proxyBase params st.currentInitUrl map
        (keptFrom PlacedSegment.duration f st.needDiscontinuity segments) := by
  induction segments generalizing f st map with
  | nil =>
    have hnone := readEntries_passedOver_append false map [] hrest
    rw [List.append_nil] at hnone
    exact hnone
  | cons p segments ih =>
    rcases hf : f.checkAndAdvance p.duration with ⟨_ | _, f'⟩
    · obtain ⟨held, hnext, hlines⟩ := segmentLines_cons encode isLive proxyBase params hholds hf
        (segments.map PlacedSegment.pair)
      have hkept := keptSegmentLines_state encode isLive proxyBase params
        { st with skipFilter := held } p
      rw [List.map_cons]
      unfold PlacedSegment.pair at hlines ⊢
      rw [hlines, if_neg Bool.false_ne_true, List.append_assoc, readEntries_keptSegmentLines,
        keptFrom_keep hf, writtenEntries, hkept]
      exact congrArg _ (ih hnext)
    · obtain ⟨held, hnext, hlines⟩ := segmentLines_cons encode isLive proxyBase params hholds hf
        (segments.map PlacedSegment.pair)
      rw [List.map_cons]
      unfold PlacedSegment.pair at hlines ⊢
      rw [hlines, if_pos rfl, keptFrom_skip hf]
      exact ih hnext

/-! ### When that is right -/

/-- A segment, given with whether others were skipped before it, continues the one that is listed
before it. -/
structure Continues (q : PlacedSegment) (b : Bool × PlacedSegment) : Prop where
  /-- Where nothing is skipped, the init URL tells whether it is in another period. -/
  period : b.1 = false →
    (q.period ≠ b.2.period ↔ params.remuxToTs = false ∧ b.2.initUrl ≠ q.initUrl)
  /-- Where the init URL stays, so does the map. -/
  sameInit : params.remuxToTs = false → b.2.initUrl = q.initUrl →
    ownMap encode proxyBase params q = ownMap encode proxyBase params b.2
  /-- Where it changes, there is one. -/
  newInit : params.remuxToTs = false → b.2.initUrl ≠ q.initUrl → b.2.initUrl ≠ []

/-- The list begins with no gap, and continues. -/
def ContinuesThroughout (kept : List (Bool × PlacedSegment)) : Prop :=
  (∀ first ∈ kept.head?, first.1 = false) ∧
    kept.IsChain fun a b => Continues encode proxyBase params a.2 b

/-- The init URL in use after a segment. -/
def initInUse (before : Option PlacedSegment) : Option Str :=
  if params.remuxToTs then none else before.map PlacedSegment.initUrl

def mapBefore (before : Option PlacedSegment) : Option Str :=
  before.bind (ownMap encode proxyBase params)

theorem initChanges_first (p : PlacedSegment) :
    InitChanges params (initInUse params none) p ↔ params.remuxToTs = false := by
  unfold InitChanges initInUse
  cases hts : params.remuxToTs <;> simp

theorem initChanges_iff (q p : PlacedSegment) :
    InitChanges params (initInUse params (some q)) p ↔
      params.remuxToTs = false ∧ p.initUrl ≠ q.initUrl := by
  unfold InitChanges initInUse
  cases hts : params.remuxToTs <;> simp

theorem nextInit_initInUse (before : Option PlacedSegment) (p : PlacedSegment) :
    nextInit params (initInUse params before) p = initInUse params (some p) := by
  unfold nextInit
  by_cases h : InitChanges params (initInUse params before) p
  · rw [if_pos h, initInUse, h.1]
    rfl
  · rw [if_neg h]
    cases hts : params.remuxToTs with
    | true => rw [initInUse, initInUse, hts, if_pos rfl, if_pos rfl]
    | false =>
      -- the URL in use is that of the segment
      have hsame : some p.initUrl = initInUse params before := by
        by_contra hne
        exact h ⟨hts, hne⟩
      rw [← hsame, initInUse, hts]
      rfl

theorem entryOf_inj {d d' : Bool} {map map' : Option Str} {p : PlacedSegment} :
    entryOf encode isLive proxyBase params d map p
        = entryOf encode isLive proxyBase params d' map' p ↔ d = d' ∧ map = map' := by
  simp [entryOf]

theorem nextMap_first (p : PlacedSegment) :
    nextMap encode proxyBase params (initInUse params none)
        (mapBefore encode proxyBase params none) p = ownMap encode proxyBase params p := by
  unfold nextMap ownMap
  simp only [initChanges_first]
  cases hts : params.remuxToTs <;> by_cases h : p.initUrl = [] <;> simp [h, mapBefore]

theorem nextMap_eq_iff (q p : PlacedSegment) :
    nextMap encode proxyBase params (initInUse params (some q))
        (mapBefore encode proxyBase params (some q)) p = ownMap encode proxyBase params p ↔
      params.remuxToTs = false →
        (p.initUrl = q.initUrl →
          ownMap encode proxyBase params q = ownMap encode proxyBase params p) ∧
        (p.initUrl ≠ q.initUrl → p.initUrl ≠ []) := by
  unfold nextMap
  simp only [initChanges_iff]
  cases hts : params.remuxToTs with
  | true => simp [mapBefore, ownMap, hts]
  | false =>
    by_cases hsame : p.initUrl = q.initUrl
    · simp [hsame, mapBefore]
    · by_cases hnil : p.initUrl = []
      · have hq : q.initUrl ≠ [] := fun h => hsame (hnil.trans h.symm)
        simp [hnil, mapBefore, ownMap, hts, hq]
      · simp [hsame, hnil, ownMap, hts]

theorem discontinuity_eq_iff (q : PlacedSegment) (skipped : Bool) (p : PlacedSegment) :
    (skipped || decide (InitChanges params (initInUse params (some q)) p
        ∧ (initInUse params (some q)).isSome = true)) = (skipped || decide (q.period ≠ p.period)) ↔
      (skipped = false →
        (q.period ≠ p.period ↔ params.remuxToTs = false ∧ p.initUrl ≠ q.initUrl)) := by
  have hboundary : (InitChanges params (initInUse params (some q)) p
      ∧ (initInUse params (some q)).isSome = true) ↔
      params.remuxToTs = false ∧ p.initUrl ≠ q.initUrl := by
    rw [initChanges_iff]
    refine and_iff_left_of_imp fun h => ?_
    rw [initInUse, h.1]
    rfl
  simp only [hboundary]
  cases skipped with
  | true => simp
  | false =>
    rw [Bool.false_or, Bool.false_or, decide_eq_decide]
    exact ⟨fun h _ => h.symm, fun h => (h rfl).symm⟩

/-- A segment is announced as it should be after the one listed before it, or at the beginning. -/
def Follows (before : Option PlacedSegment) (b : Bool × PlacedSegment) : Prop :=
  match before with
  | none => b.1 = false
  | some q => Continues encode proxyBase params q b

/-- **One entry.** -/
theorem entryOf_eq_iff (before : Option PlacedSegment) (skipped : Bool) (p : PlacedSegment) :
    entryOf encode isLive proxyBase params
        (skipped || decide (InitChanges params (initInUse params before) p
          ∧ (initInUse params before).isSome))
        (nextMap encode proxyBase params (initInUse params before)
          (mapBefore encode proxyBase params before) p) p
      = entryOf encode isLive proxyBase params
          (before.any fun q => skipped || q.period ≠ p.period) (ownMap encode proxyBase params p)
          p ↔
    Follows encode proxyBase params before (skipped, p) := by
  rw [entryOf_inj]
  cases before with
  | none =>
    have hnone : (initInUse params none).isSome = false := by
      unfold initInUse
      cases params.remuxToTs <;> rfl
    simp only [nextMap_first, hnone, Bool.false_eq_true, and_false, decide_false, Bool.or_false,
      Option.any_none, and_true]
    rfl
  | some q =>
    rw [nextMap_eq_iff, Option.any_some, discontinuity_eq_iff]
    constructor
    · rintro ⟨hperiod, hmap⟩
      exact ⟨hperiod, fun hts => (hmap hts).1, fun hts => (hmap hts).2⟩
    · rintro ⟨hperiod, hsame, hnew⟩
      exact ⟨hperiod, fun hts => ⟨hsame hts, hnew hts⟩⟩

/-- **Entry by entry.** -/
theorem writtenEntries_eq_iff (before : Option PlacedSegment) (kept : List (Bool × PlacedSegment)) :
    writtenEntries encode isLive proxyBase params (initInUse params before)
        (mapBefore encode proxyBase params before) kept
      = periodEntries encode isLive proxyBase params before kept ↔
    (∀ first ∈ kept.head?, Follows encode proxyBase params before first) ∧
      kept.IsChain fun a b => Continues encode proxyBase params a.2 b := by
  induction kept generalizing before with
  | nil => exact iff_of_true rfl ⟨fun _ h => absurd h (Option.not_mem_none _), List.isChain_nil⟩
  | cons b rest ih =>
    obtain ⟨skipped, p⟩ := b
    rw [writtenEntries, periodEntries, List.cons.injEq, entryOf_eq_iff, nextInit_initInUse,
      List.isChain_cons]
    have hhead : (∀ first ∈ ((skipped, p) :: rest).head?,
        Follows encode proxyBase params before first) ↔
        Follows encode proxyBase params before (skipped, p) := by simp
    rw [hhead]
    refine and_congr_right fun h => ?_
    -- the map in force is now that of the segment
    have hmap := ((entryOf_inj encode isLive proxyBase params).mp
      ((entryOf_eq_iff encode isLive proxyBase params before skipped p).mpr h)).2
    rw [hmap]
    exact ih (some p)

end Entries

/-! ### The playlist -/

section Playlist

variable (encode : Str → Str) (isLive : Bool) (proxyBase : Str) (params : MpdProxyParams)
  (profiles : List MpdProfile) (ranges : List SkipRange) (startOffset : Option ℚ)
  (configuredDepth : ℕ)

def targetTag : Str := "#EXT-X-TARGETDURATION:".toList

/-- The segments that are listed, each with whether others were skipped before it. -/
def listedSegments : List (Bool × PlacedSegment) :=
  keptSegments ranges PlacedSegment.duration
    (trimmedPlaced isLive params startOffset configuredDepth profiles)

/-- What a player is to be told: the segments in order, each with its own map and URL, and with a
discontinuity if another one is listed before it and it begins another period or follows a gap; and
no duration, rounded, is longer than the target duration. -/
structure TellsPeriods : Prop where
  entries : readEntries false none none (buildHlsMediaPlaylist encode isLive proxyBase params
      profiles ranges startOffset configuredDepth) =
    periodEntries encode isLive proxyBase params none
      (listedSegments isLive params profiles ranges startOffset configuredDepth)
  target : ∀ entry ∈ readEntries false none none (buildHlsMediaPlaylist encode isLive proxyBase
      params profiles ranges startOffset configuredDepth),
    ∃ target : ℕ, (buildHlsMediaPlaylist encode isLive proxyBase params profiles ranges startOffset
        configuredDepth).find? (targetTag.isPrefixOf ·) = some (targetTag ++ decimal target) ∧
      round (parseExtinfDuration entry.extinf) ≤ target

variable {profiles}

/-- A line before that of the target duration. -/
def Leading (line : Str) : Prop := PassedOver line ∧ targetTag.isPrefixOf line = false

theorem leading_version (n : ℕ) :
    ∀ line ∈ ["#EXTM3U".toList, "#EXT-X-VERSION:".toList ++ decimal n], Leading line := by
  intro line hline
  obtain rfl | hline := List.mem_cons.mp hline
  · exact ⟨⟨by decide, rfl, rfl⟩, rfl⟩
  · rw [List.mem_singleton.mp hline]
    exact ⟨⟨append_ne_of_not_isPrefixOf (by decide) _, rfl, rfl⟩, rfl⟩

theorem leading_start (offset : ℚ) (precise : Str) :
    Leading ("#EXT-X-START:TIME-OFFSET=".toList ++ formatFixed 1 offset ++ ",PRECISE=".toList
      ++ precise) := by
  rw [List.append_assoc, List.append_assoc]
  exact ⟨⟨append_ne_of_not_isPrefixOf (by decide) _, rfl, rfl⟩, rfl⟩

/-- The lines up to that of the target duration. -/
def leadingLines : List Str :=
  ["#EXTM3U".toList, "#EXT-X-VERSION:".toList ++ decimal (if params.remuxToTs then 3 else 6)]
    ++ match effectiveStartOffset isLive params startOffset with
      | some offset => ["#EXT-X-START:TIME-OFFSET=".toList ++ formatFixed 1 offset
          ++ ",PRECISE=".toList ++ if params.remuxToTs then "NO".toList else "YES".toList]
      | none => []

theorem leading_leadingLines : ∀ line ∈ leadingLines isLive params startOffset, Leading line := by
  intro line hline
  obtain hline | hline := List.mem_append.mp hline
  · exact leading_version _ line hline
  · split at hline
    · rw [List.mem_singleton.mp hline]
      exact leading_start _ _
    · cases hline

/-- The lines of a playlist without segments. -/
theorem buildHlsMediaPlaylist_of_nil
    (h : trimmedSegments isLive params startOffset configuredDepth (mergedSegments profiles) = []) :
    ∀ line ∈ buildHlsMediaPlaylist encode isLive proxyBase params profiles ranges startOffset
      configuredDepth, PassedOver line := by
  intro line hline
  unfold buildHlsMediaPlaylist at hline
  dsimp only at hline
  rw [h] at hline
  split at hline
  · exact (leading_version _ line hline).1
  · exact (leading_leadingLines isLive params startOffset line hline).1

/-- The lines of a playlist with segments. -/
theorem buildHlsMediaPlaylist_of_ne_nil
    (h : trimmedSegments isLive params startOffset configuredDepth (mergedSegments profiles) ≠ []) :
    ∃ counts trailer,
      buildHlsMediaPlaylist encode isLive proxyBase params profiles ranges startOffset
          configuredDepth =
        leadingLines isLive params startOffset
          ++ (targetTag ++ decimal (targetDuration params (trimmedSegments isLive params
            startOffset configuredDepth (mergedSegments profiles))))
          :: (counts ++ (segmentLines encode isLive proxyBase params
            { skipFilter := if ranges = [] then none else some { ranges } }
            (trimmedSegments isLive params startOffset configuredDepth (mergedSegments profiles)) ++
          trailer)) ∧
      (∀ line ∈ counts, PassedOver line) ∧ ∀ line ∈ trailer, PassedOver line := by
  have hmerged : mergedSegments profiles ≠ [] := by
    intro hmerged
    refine h ?_
    rw [hmerged]
    unfold trimmedSegments
    split
    · exact List.drop_nil
    · rfl
  have htype : ∀ line ∈ if isLive then [] else ["#EXT-X-PLAYLIST-TYPE:VOD".toList],
      PassedOver line := by
    split
    · exact List.forall_mem_nil _
    · exact List.forall_mem_singleton.mpr ⟨by decide, rfl, rfl⟩
  have hend : ∀ line ∈ if isLive then [] else ["#EXT-X-ENDLIST".toList], PassedOver line := by
    split
    · exact List.forall_mem_nil _
    · exact List.forall_mem_singleton.mpr ⟨by decide, rfl, rfl⟩
  have hsequence (n : ℕ) : PassedOver ("#EXT-X-MEDIA-SEQUENCE:".toList ++ decimal n) :=
    ⟨append_ne_of_not_isPrefixOf (by decide) _, rfl, rfl⟩
  obtain ⟨first, rest, hfirst⟩ := List.exists_cons_of_ne_nil h
  refine ⟨("#EXT-X-MEDIA-SEQUENCE:".toList ++ decimal (playlistSequence isLive first))
    :: (if isLive then [] else ["#EXT-X-PLAYLIST-TYPE:VOD".toList]),
    if isLive then [] else ["#EXT-X-ENDLIST".toList], ?_,
    List.forall_mem_cons.mpr ⟨hsequence _, htype⟩, hend⟩
  unfold buildHlsMediaPlaylist
  dsimp only
  rw [if_neg hmerged, hfirst]
  unfold leadingLines
  simp only [List.append_assoc, List.cons_append, List.nil_append]
  rfl

theorem readEntries_buildHlsMediaPlaylist :
    readEntries false none none (buildHlsMediaPlaylist encode isLive proxyBase params profiles
        ranges startOffset configuredDepth) =
      writtenEntries encode isLive proxyBase params none none
        (listedSegments isLive params profiles ranges startOffset configuredDepth) := by
  by_cases h : trimmedSegments isLive params startOffset configuredDepth
      (mergedSegments profiles) = []
  · have hquiet := readEntries_passedOver_append false none [] (buildHlsMediaPlaylist_of_nil encode
      isLive proxyBase params ranges startOffset configuredDepth h)
    have hlisted : trimmedPlaced isLive params startOffset configuredDepth profiles = [] := by
      rw [← List.map_eq_nil_iff, map_pair_trimmedPlaced, h]
    rw [List.append_nil] at hquiet
    rw [hquiet, listedSegments, hlisted]
    rfl
  · obtain ⟨counts, trailer, hlines, hcounts, htrailer⟩ := buildHlsMediaPlaylist_of_ne_nil encode
      isLive proxyBase params ranges startOffset configuredDepth h
    have hleading : ∀ line ∈ leadingLines isLive params startOffset, PassedOver line :=
      fun line hline => (leading_leadingLines isLive params startOffset line hline).1
    have htarget : PassedOver (targetTag ++ decimal (targetDuration params (trimmedSegments isLive
        params startOffset configuredDepth (mergedSegments profiles)))) :=
      ⟨append_ne_of_not_isPrefixOf (by decide) _, rfl, rfl⟩
    rw [hlines, readEntries_passedOver_append _ _ _ hleading, readEntries_passedOver _ _ _ htarget,
      readEntries_passedOver_append _ _ _ hcounts, ← map_pair_trimmedPlaced,
      readEntries_segmentLines encode isLive proxyBase params (holds_first ranges) trailer htrailer,
      keptFrom_eq_keptSegments]
    rfl

/-! ### The target duration -/

theorem mem_of_mem_keptSegments {β : Type} {dur : β → ℚ} {segs : List β} {b : Bool × β}
    (h : b ∈ keptSegments ranges dur segs) : b.2 ∈ segs := by
  obtain ⟨p, hp, hkept⟩ := List.mem_filterMap.mp h
  unfold keptAt at hkept
  split at hkept
  · cases hkept
  · cases hkept
    exact List.fst_mem_of_mem_zipIdx hp

theorem le_foldl_max {q : ℚ} (durations : List ℚ) :
    ∀ longest, q ≤ longest ∨ q ∈ durations → q ≤ durations.foldl max longest := by
  induction durations with
  | nil => exact fun longest h => h.resolve_right List.not_mem_nil
  | cons d durations ih =>
    rintro longest (h | h)
    · exact ih _ (.inl (le_max_of_le_left h))
    · obtain rfl | h := List.mem_cons.mp h
      · exact ih _ (.inl (le_max_right _ _))
      · exact ih _ (.inr h)

/-- No segment is longer than the target duration. -/
theorem le_targetDuration {trimmed : List (MpdSegment × MpdProfile)} {p : MpdSegment × MpdProfile}
    (h : p ∈ trimmed) : p.1.extinf ≤ targetDuration params trimmed := by
  have hlongest : p.1.extinf ≤ (positiveExtinfs trimmed).foldl max 0 := by
    refine le_foldl_max _ 0 ?_
    by_cases hpos : p.1.extinf > 0
    · exact .inr (List.mem_filter.mpr ⟨List.mem_map_of_mem h, decide_eq_true hpos⟩)
    · exact .inl (not_lt.mp hpos)
  have hceil : p.1.extinf ≤ (⌈(positiveExtinfs trimmed).foldl max 0⌉₊ : ℚ) :=
    hlongest.trans (Nat.le_ceil _)
  unfold targetDuration
  dsimp only
  split
  · push_cast
    exact hceil.trans (le_add_of_nonneg_right zero_le_one)
  · exact hceil

theorem round_le_natCast {q : ℚ} {n : ℕ} (h : q ≤ n) : round q ≤ n := by
  rw [round_eq, ← Int.lt_add_one_iff, Int.floor_lt]
  push_cast
  linarith

theorem extinf_of_mem_writtenEntries {current map : Option Str}
    {kept : List (Bool × PlacedSegment)} {entry : PlaylistEntry}
    (h : entry ∈ writtenEntries encode isLive proxyBase params current map kept) :
    ∃ b ∈ kept, entry.extinf = extinfTag ++ (formatFixed 3 b.2.duration ++ [',']) := by
  induction kept generalizing current map with
  | nil => cases h
  | cons b kept ih =>
    obtain ⟨skipped, p⟩ := b
    obtain rfl | h := List.mem_cons.mp h
    · exact ⟨(skipped, p), List.mem_cons_self, rfl⟩
    · obtain ⟨b, hb, hextinf⟩ := ih h
      exact ⟨b, List.mem_cons_of_mem _ hb, hextinf⟩

theorem find_target
    (h : trimmedSegments isLive params startOffset configuredDepth (mergedSegments profiles) ≠ []) :
    (buildHlsMediaPlaylist encode isLive proxyBase params profiles ranges startOffset
        configuredDepth).find? (targetTag.isPrefixOf ·) =
      some (targetTag ++ decimal (targetDuration params (trimmedSegments isLive params startOffset
        configuredDepth (mergedSegments profiles)))) := by
  obtain ⟨counts, trailer, hlines, -, -⟩ := buildHlsMediaPlaylist_of_ne_nil encode isLive
    proxyBase params ranges startOffset configuredDepth h
  have hleading : (leadingLines isLive params startOffset).find? (targetTag.isPrefixOf ·) = none :=
    List.find?_eq_none.mpr fun line hline htarget => Bool.false_ne_true
      ((leading_leadingLines isLive params startOffset line hline).2.symm.trans htarget)
  rw [hlines, List.find?_append, hleading, Option.none_or]
  exact List.find?_cons_of_pos (List.isPrefixOf_iff_prefix.mpr (List.prefix_append _ _))

/-- **The target duration.** -/
theorem target_buildHlsMediaPlaylist :
    ∀ entry ∈ readEntries false none none (buildHlsMediaPlaylist encode isLive proxyBase params
      profiles ranges startOffset configuredDepth),
    ∃ target : ℕ, (buildHlsMediaPlaylist encode isLive proxyBase params profiles ranges startOffset
        configuredDepth).find? (targetTag.isPrefixOf ·) = some (targetTag ++ decimal target) ∧
      round (parseExtinfDuration entry.extinf) ≤ target := by
  intro entry hentry
  rw [readEntries_buildHlsMediaPlaylist] at hentry
  obtain ⟨b, hb, hextinf⟩ := extinf_of_mem_writtenEntries encode isLive proxyBase params hentry
  have hmem : b.2.pair ∈ trimmedSegments isLive params startOffset configuredDepth
      (mergedSegments profiles) := by
    rw [← map_pair_trimmedPlaced]
    exact List.mem_map_of_mem (mem_of_mem_keptSegments ranges hb)
  refine ⟨_, find_target encode isLive proxyBase params ranges startOffset configuredDepth
    (List.ne_nil_of_mem hmem), ?_⟩
  rw [hextinf, parseExtinfDuration_formatFixed]
  exact round_le_natCast (fixedValue_le_natCast (le_targetDuration params hmem))

theorem readEntries_eq_iff :
    readEntries false none none (buildHlsMediaPlaylist encode isLive proxyBase params profiles
        ranges startOffset configuredDepth) =
      periodEntries encode isLive proxyBase params none
        (listedSegments isLive params profiles ranges startOffset configuredDepth) ↔
      ContinuesThroughout encode proxyBase params
        (listedSegments isLive params profiles ranges startOffset configuredDepth) := by
  have hentries := writtenEntries_eq_iff encode isLive proxyBase params none
    (listedSegments isLive params profiles ranges startOffset configuredDepth)
  have hinit : initInUse params none = none := by
    unfold initInUse
    cases params.remuxToTs <;> rfl
  have hmap : mapBefore encode proxyBase params none = none := rfl
  rw [hinit, hmap, ← readEntries_buildHlsMediaPlaylist] at hentries
  exact hentries

/-- **When the playlist tells the periods.** Where no gap comes first, and the init URL changes, to
another one, with the period and only with it. -/
theorem tellsPeriods_iff :
    TellsPeriods encode isLive proxyBase params profiles ranges startOffset configuredDepth ↔
      ContinuesThroughout encode proxyBase params
        (listedSegments isLive params profiles ranges startOffset configuredDepth) := by
  rw [← readEntries_eq_iff encode isLive]
  constructor
  · exact fun h => h.entries
  · exact fun h => ⟨h, target_buildHlsMediaPlaylist encode isLive proxyBase params ranges
      startOffset configuredDepth⟩

end Playlist

/-! ### Two periods -/

def periodSegment (media : Str) : MpdSegment where
  media := media
  number := 1
  extinf := 4
  time := none
  durationMpdTimescale := none
  startUnix := none
  programDateTime := none
  mediaRange := none
  initRange := none

def periodProfile (initUrl media : Str) : MpdProfile where
  id := ['v']
  repId := ['v']
  mimeType := "video/mp4".toList
  bandwidth := 0
  initUrl := some initUrl
  initRange := none
  segments := [periodSegment media]
  nominalDurationMpdTimescale := none
  segmentTemplateStartNumberExplicit := true

def tsParams : MpdProxyParams where
  apiPassword := []
  passHeaders := []
  keyId := none
  key := none
  remuxToTs := true

/-- Two periods with init segments of their own, as MPEG-TS. -/
def twoPeriodProfiles : List MpdProfile :=
  [periodProfile "a/init".toList "a/1".toList, periodProfile "b/init".toList "b/1".toList]

/-- There is no discontinuity between them. -/
theorem not_tellsPeriods_twoPeriodProfiles :
    ¬ TellsPeriods id false "http://p".toList tsParams twoPeriodProfiles [] none 0 := by
  intro h
  have hcontinuous :=
    (readEntries_eq_iff id false "http://p".toList tsParams [] none 0).mp h.entries
  have hlisted : listedSegments false tsParams twoPeriodProfiles [] none 0 =
      [(false, ⟨0, periodSegment "a/1".toList, periodProfile "a/init".toList "a/1".toList⟩),
        (false, ⟨1, periodSegment "b/1".toList, periodProfile "b/init".toList "b/1".toList⟩)] :=
    keptSegments_no_ranges _
  have hpair := hcontinuous.2
  rw [hlisted, List.isChain_pair] at hpair
  have hts : tsParams.remuxToTs = false := ((hpair.period rfl).mp (by decide)).1
  cases hts

end MediaFlow
