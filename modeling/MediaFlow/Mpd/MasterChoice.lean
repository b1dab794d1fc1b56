import MediaFlow.Lib.StableSort
import MediaFlow.Mpd.Master

/-!
# The variants of a master playlist

`build_hls_master` sorts and thins out the profiles, in another order for each mode. The entries
that are left should be the best ones, with one audio entry as the default (`ChoosesVariants`).

The best profile of a height can be lost before that: a resolution selects one by its place in the
document, and one representation id is kept once, whatever the height. `choosesVariants_iff`: when
nothing is lost by this.
-/

open Text StableSort

namespace MediaFlow

/-! ### Elements with a new key -/

section RetainNew

variable {α β : Type*} [DecidableEq β] {key : α → β} {seen : List β} {l : List α} {a : α}

/-- They are the first of their keys. -/
theorem mem_retainNew_iff :
    a ∈ retainNew key seen l ↔ key a ∉ seen ∧
      ∃ before after, l = before ++ a :: after ∧ ∀ b ∈ before, key b ≠ key a := by
  induction l generalizing seen with
  | nil =>
    refine iff_of_false List.not_mem_nil ?_
    rintro ⟨-, before, after, hl, -⟩
    exact absurd hl.symm (List.append_ne_nil_of_right_ne_nil _ (List.cons_ne_nil _ _))
  | cons b l ih =>
    rw [retainNew]
    split
    · next hseen =>
      rw [ih]
      constructor
      · rintro ⟨ha, before, after, rfl, hbefore⟩
        refine ⟨ha, b :: before, after, rfl, List.forall_mem_cons.mpr ⟨fun h => ?_, hbefore⟩⟩
        exact ha (h ▸ hseen)
      · rintro ⟨ha, before, after, hl, hbefore⟩
        cases before with
        | nil =>
          cases hl
          exact absurd hseen ha
        | cons c before =>
          cases hl
          exact ⟨ha, before, after, rfl, (List.forall_mem_cons.mp hbefore).2⟩
    · next hseen =>
      rw [List.mem_cons, ih, List.mem_cons, not_or]
      constructor
      · rintro (rfl | ⟨⟨hne, ha⟩, before, after, rfl, hbefore⟩)
        · exact ⟨hseen, [], l, rfl, List.forall_mem_nil _⟩
        · exact ⟨ha, b :: before, after, rfl, List.forall_mem_cons.mpr ⟨Ne.symm hne, hbefore⟩⟩
      · rintro ⟨ha, before, after, hl, hbefore⟩
        cases before with
        | nil =>
          cases hl
          exact .inl rfl
        | cons c before =>
          cases hl
          obtain ⟨hne, hbefore⟩ := List.forall_mem_cons.mp hbefore
          exact .inr ⟨⟨Ne.symm hne, ha⟩, before, after, rfl, hbefore⟩

theorem retainNew_sublist (key : α → β) (seen : List β) (l : List α) :
    (retainNew key seen l).Sublist l := by
  induction l generalizing seen with
  | nil => exact List.Sublist.refl _
  | cons b l ih =>
    rw [retainNew]
    split
    · exact (ih seen).cons b
    · exact (ih _).cons_cons b

theorem nodup_retainNew (key : α → β) (seen : List β) (l : List α) :
    ((retainNew key seen l).map key).Nodup := by
  induction l generalizing seen with
  | nil => exact List.nodup_nil
  | cons b l ih =>
    rw [retainNew]
    split
    · exact ih seen
    · rw [List.map_cons, List.nodup_cons]
      refine ⟨fun hb => ?_, ih _⟩
      obtain ⟨c, hc, hkey⟩ := List.mem_map.mp hb
      exact (mem_retainNew_iff.mp hc).1 (hkey ▸ List.mem_cons_self)

/-- Each key has its element, at the latest where it was found. -/
theorem exists_mem_retainNew (key : α → β) (h : a ∈ l) :
    ∃ b ∈ retainNew key [] l, key b = key a ∧ l.find? (key · = key a) = some b := by
  cases hfind : l.find? (key · = key a) with
  | none => exact absurd (decide_eq_true rfl) (List.find?_eq_none.mp hfind a h)
  | some b =>
    obtain ⟨hkey, before, after, hl, hbefore⟩ := List.find?_eq_some_iff_append.mp hfind
    have hkey : key b = key a := of_decide_eq_true hkey
    refine ⟨b, mem_retainNew_iff.mpr ⟨List.not_mem_nil, before, after, hl, fun c hc h => ?_⟩,
      hkey, rfl⟩
    have hnot := hbefore c hc
    rw [Bool.not_eq_true', decide_eq_false_iff_not] at hnot
    exact hnot (h.trans hkey)

theorem retainNew_ne_nil (key : α → β) (h : l ≠ []) : retainNew key [] l ≠ [] := by
  obtain ⟨a, ha⟩ := List.exists_mem_of_ne_nil l h
  obtain ⟨b, hb, -⟩ := exists_mem_retainNew key ha
  exact List.ne_nil_of_mem hb

/-- The first of a list that falls by a key comes first of all. -/
theorem le_of_mem_take_one {f : α → ℕ} (hl : l.Pairwise fun a b => f b ≤ f a)
    (h : a ∈ (retainNew key [] l).take 1) : a ∈ l ∧ ∀ b ∈ l, f b ≤ f a := by
  cases l with
  | nil => cases h
  | cons c l =>
    have hc : key c ∉ ([] : List β) := List.not_mem_nil
    rw [retainNew, if_neg hc, List.take_succ_cons, List.take_zero, List.mem_singleton] at h
    subst h
    refine ⟨List.mem_cons_self, List.forall_mem_cons.mpr ⟨le_rfl, (List.pairwise_cons.mp hl).1⟩⟩

/-- An element that is kept comes before the others with its key. -/
theorem le_of_mem_retainNew {f : α → ℕ} (hl : l.Pairwise fun a b => f b ≤ f a)
    (h : a ∈ retainNew key seen l) {b : α} (hb : b ∈ l) (hkey : key b = key a) : f b ≤ f a := by
  obtain ⟨-, before, after, rfl, hbefore⟩ := mem_retainNew_iff.mp h
  rw [List.mem_append, List.mem_cons] at hb
  obtain hb | rfl | hb := hb
  · exact absurd hkey (hbefore b hb)
  · exact le_rfl
  · exact (List.pairwise_cons.mp (List.pairwise_append.mp hl).2.1).1 b hb

end RetainNew

/-! ### What is to be shown -/

abbrev Profiles := List RepresentationProfile

def videoProfiles (profiles : Profiles) : Profiles := profiles.filter fun p => isVideo p.mimeType

/-- The height that a resolution asks for. -/
def targetHeight (resolution : Str) : ℕ :=
  (parseU32 (resolution.reverse.dropWhile (· = 'p')).reverse).getD 1080

/-- No profile of its height has more bandwidth. -/
def IsBest (video : Profiles) (p : RepresentationProfile) : Prop :=
  ∀ q ∈ video, q.height = p.height → q.bandwidth ≤ p.bandwidth

/-- The greatest height up to the target, or the smallest if all are greater. A profile of height 0
is one without a height, which is left out if any has one. -/
def AdmitsHeight (video : Profiles) (target height : ℕ) : Prop :=
  (∃ q ∈ video, 0 < q.height) → 0 < height ∧
    ((height ≤ target ∧ ∀ q ∈ video, q.height ≤ target → q.height ≤ height) ∨
      ∀ q ∈ video, 0 < q.height → target < q.height ∧ height ≤ q.height)

section Entries

variable (params : MasterParams) (parsed : ParsedMpd)

/-- The entries of one kind. -/
def entriesOf (kind : EntryKind) : Profiles :=
  ((masterEntries params parsed).filter (·.1 = kind)).map (·.2)

/-- The entry is written with `DEFAULT=YES`. -/
def isDefaultAudio (p : RepresentationProfile) : Bool :=
  some p.id = defaultAudioId (audioProfiles parsed.profiles)

/-- One audio entry is the default, up to four have languages of their own, and the video entries
are the best of their heights, with a resolution at the height that it admits. -/
structure ChoosesVariants : Prop where
  oneDefault : audioProfiles parsed.profiles ≠ [] →
    ∃ p, (entriesOf params parsed .audio).filter (isDefaultAudio parsed) = [p]
  fewAudio : (entriesOf params parsed .audio).length ≤ 4
  languages : ((entriesOf params parsed .audio).map RepresentationProfile.language).Nodup
  someVideo : videoProfiles parsed.profiles ≠ [] → entriesOf params parsed .video ≠ []
  best : ∀ p ∈ entriesOf params parsed .video, IsBest (videoProfiles parsed.profiles) p
  height : ∀ resolution ∈ params.resolution, ∀ p ∈ entriesOf params parsed .video,
    AdmitsHeight (videoProfiles parsed.profiles) (targetHeight resolution) p.height

theorem map_filter_kind (k kind : EntryKind) (l : Profiles) :
    ((l.map fun p => (k, p)).filter (·.1 = kind)).map (·.2) = if k = kind then l else [] := by
  by_cases h : k = kind <;> simp [List.filter_map, h, Function.comp_def]

theorem entriesOf_audio : entriesOf params parsed .audio = masterAudio parsed.profiles := by
  unfold entriesOf masterEntries
  rw [List.filter_append, List.map_append, map_filter_kind, map_filter_kind]
  exact List.append_nil _

theorem entriesOf_video : entriesOf params parsed .video = masterVideo params parsed.profiles := by
  unfold entriesOf masterEntries
  rw [List.filter_append, List.map_append, map_filter_kind, map_filter_kind]
  rfl

end Entries

/-! ### With a resolution -/

/-- The profile that a resolution selects. At one height, the place in the document decides: the
first one, or the last one if all heights are above the target. -/
def Selects (video : Profiles) (target : ℕ) (p : RepresentationProfile) : Prop :=
  0 < p.height ∧
    ((p.height ≤ target ∧ (∀ q ∈ video, q.height ≤ target → q.height ≤ p.height) ∧
        video.find? (·.height = p.height) = some p) ∨
      (∀ q ∈ video, 0 < q.height → target < q.height ∧ p.height ≤ q.height) ∧
        (video.filter (·.height = p.height)).getLast? = some p)

theorem filterByResolution_spec (video : Profiles) (resolution : Str) :
    (∃ p, Selects video (targetHeight resolution) p ∧ filterByResolution video resolution = [p]) ∨
      (∀ q ∈ video, q.height = 0) ∧ filterByResolution video resolution = video := by
  have hknown {q : RepresentationProfile} : q ∈ video.filter (fun p => p.height > 0) ↔
      q ∈ video ∧ 0 < q.height := by
    rw [List.mem_filter, decide_eq_true_iff]
  -- at a known height, those without one make no difference
  have hfilter {height : ℕ} (hpos : 0 < height) :
      (video.filter fun p => p.height > 0).filter (·.height = height)
        = video.filter (·.height = height) := by
    rw [List.filter_filter]
    refine List.filter_congr fun q _ => ?_
    by_cases hq : q.height = height
    · simp [hq, hpos]
    · simp [hq]
  unfold filterByResolution
  dsimp only
  split
  · next selected hselected =>
    refine .inl ⟨selected, ?_, rfl⟩
    obtain hfind | ⟨hnone, hlast⟩ := Option.or_eq_some_iff.mp hselected
    · have hfind : (sortDesc (·.height) (video.filter fun p => p.height > 0)).find?
          (·.height ≤ targetHeight resolution) = some selected := hfind
      obtain ⟨hle, hgreatest, hfirst⟩ := find?_sortDesc hfind
      have hpos : 0 < selected.height := (hknown.mp (List.mem_of_find?_eq_some hfirst)).2
      refine ⟨hpos, .inl ⟨hle, fun q hq hqle => ?_, ?_⟩⟩
      · obtain hzero | hqpos := Nat.eq_zero_or_pos q.height
        · exact hzero ▸ Nat.zero_le _
        · exact hgreatest q (hknown.mpr ⟨hq, hqpos⟩) hqle
      · rwa [← List.head?_filter, hfilter hpos, List.head?_filter] at hfirst
    · have hlast : (sortDesc (·.height) (video.filter fun p => p.height > 0)).getLast?
          = some selected := hlast
      obtain ⟨hleast, hlast'⟩ := getLast?_sortDesc hlast
      have hpos : 0 < selected.height :=
        (hknown.mp (List.mem_of_mem_filter (List.mem_of_getLast? hlast'))).2
      rw [hfilter hpos] at hlast'
      refine ⟨hpos, .inr ⟨fun q hq hqpos => ?_, hlast'⟩⟩
      have hmem := hknown.mpr ⟨hq, hqpos⟩
      have hgreater := List.find?_eq_none.mp hnone q (List.mem_mergeSort.mpr hmem)
      rw [decide_eq_true_iff, not_le] at hgreater
      exact ⟨hgreater, hleast q hmem⟩
  · next hnone =>
    refine .inr ⟨fun q hq => ?_, rfl⟩
    obtain ⟨-, hlast⟩ := Option.or_eq_none_iff.mp hnone
    have hnil := List.getLast?_eq_none_iff.mp hlast
    by_contra hpos
    have hmem := hknown.mpr ⟨hq, Nat.pos_of_ne_zero hpos⟩
    rw [← List.mem_mergeSort, hnil] at hmem
    cases hmem

section Selects

variable {video : Profiles} {target : ℕ} {p q : RepresentationProfile}

theorem Selects.mem (h : Selects video target p) : p ∈ video := by
  obtain ⟨-, ⟨-, -, hfirst⟩ | ⟨-, hlast⟩⟩ := h
  · exact List.mem_of_find?_eq_some hfirst
  · exact List.mem_of_mem_filter (List.mem_of_getLast? hlast)

theorem Selects.admits (h : Selects video target p) : AdmitsHeight video target p.height := by
  intro _
  obtain ⟨hpos, ⟨hle, hgreatest, -⟩ | ⟨hleast, -⟩⟩ := h
  · exact ⟨hpos, .inl ⟨hle, hgreatest⟩⟩
  · exact ⟨hpos, .inr hleast⟩

theorem Selects.unique (hp : Selects video target p) (hq : Selects video target q) : p = q := by
  have hpmem := hp.mem
  have hqmem := hq.mem
  obtain ⟨hppos, ⟨hple, hpgreatest, hpfirst⟩ | ⟨hpleast, hplast⟩⟩ := hp
  · obtain ⟨-, ⟨hqle, hqgreatest, hqfirst⟩ | ⟨hqleast, -⟩⟩ := hq
    · have hheight : p.height = q.height :=
        le_antisymm (hqgreatest p hpmem hple) (hpgreatest q hqmem hqle)
      rw [hheight, hqfirst] at hpfirst
      exact (Option.some.inj hpfirst).symm
    · exact absurd hple (not_le.mpr (hqleast p hpmem hppos).1)
  · obtain ⟨hqpos, ⟨hqle, -, -⟩ | ⟨hqleast, hqlast⟩⟩ := hq
    · exact absurd hqle (not_le.mpr (hpleast q hqmem hqpos).1)
    · have hheight : p.height = q.height :=
        le_antisymm (hpleast q hqmem hqpos).2 (hqleast p hpmem hppos).2
      rw [hheight, hqlast] at hplast
      exact (Option.some.inj hplast).symm

end Selects

/-! ### The steps -/

/-- The profiles of the greatest height. -/
def onlyGreatest (video : Profiles) : Profiles :=
  video.filter fun p => (video.map (·.height)).foldl max 0 ≤ p.height

/-- The profiles by falling bandwidth, the first of each representation id. -/
def ladder (video : Profiles) : Profiles :=
  retainNew (·.repId) [] (sortDesc (·.bandwidth) video)

theorem pairwise_ladder (video : Profiles) :
    (ladder video).Pairwise fun a b => b.bandwidth ≤ a.bandwidth :=
  (pairwise_sortDesc _ video).sublist (retainNew_sublist _ _ _)

theorem ladder_ne_nil {video : Profiles} (h : video ≠ []) : ladder video ≠ [] := by
  refine retainNew_ne_nil _ fun hnil => ?_
  obtain ⟨p, hp⟩ := List.exists_mem_of_ne_nil video h
  rw [← mem_sortDesc (·.bandwidth), hnil] at hp
  cases hp

/-- What the first steps leave: the profiles that the resolution and the mode admit. -/
def admitted (params : MasterParams) (video : Profiles) : Profiles :=
  let video :=
    match params.resolution with
    | some res => filterByResolution video res
    | none => video
  if params.remuxToTs then onlyGreatest video else video

theorem admitted_of_no_resolution {params : MasterParams} (h : params.resolution = none)
    (video : Profiles) :
    admitted params video = if params.remuxToTs then onlyGreatest video else video := by
  rw [admitted, h]

theorem masterVideo_eq (params : MasterParams) (profiles : Profiles) :
    masterVideo params profiles =
      if params.resolution.isSome || params.remuxToTs then
        (ladder (admitted params (videoProfiles profiles))).take 1
      else
        (retainNew (·.height) [] (ladder (admitted params (videoProfiles profiles)))).take 5 := rfl

theorem foldl_max_le {l : List ℕ} {m n : ℕ} (hm : m ≤ n) (h : ∀ k ∈ l, k ≤ n) :
    l.foldl max m ≤ n := by
  induction l generalizing m with
  | nil => exact hm
  | cons k l ih =>
    obtain ⟨hk, hl⟩ := List.forall_mem_cons.mp h
    exact ih (max_le hm hk) hl

theorem onlyGreatest_ne_nil {video : Profiles} (h : video ≠ []) : onlyGreatest video ≠ [] := by
  -- one that is first by its height
  have hsorted : sortDesc (·.height) video ≠ [] := fun hnil => h (by
    rw [List.eq_nil_iff_forall_not_mem] at hnil ⊢
    exact fun p hp => hnil p ((mem_sortDesc _).mpr hp))
  obtain ⟨p, rest, hp⟩ := List.exists_cons_of_ne_nil hsorted
  have hpairwise := pairwise_sortDesc (·.height) video
  rw [hp] at hpairwise
  have hmem {q : RepresentationProfile} (hq : q ∈ video) : q ∈ p :: rest := by
    rw [← hp]
    exact (mem_sortDesc _).mpr hq
  have hpmem : p ∈ video := (mem_sortDesc (·.height)).mp (hp ▸ List.mem_cons_self)
  refine List.ne_nil_of_mem (List.mem_filter.mpr ⟨hpmem, decide_eq_true ?_⟩)
  refine foldl_max_le (Nat.zero_le _) fun k hk => ?_
  obtain ⟨q, hq, rfl⟩ := List.mem_map.mp hk
  obtain rfl | hq := List.mem_cons.mp (hmem hq)
  · exact le_rfl
  · exact (List.pairwise_cons.mp hpairwise).1 q hq

theorem onlyGreatest_singleton (p : RepresentationProfile) : onlyGreatest [p] = [p] := by
  refine List.filter_cons_of_pos (decide_eq_true ?_)
  exact max_le (Nat.zero_le _) le_rfl

/-- In a mode with one entry, it is the best of those admitted. -/
theorem isBest_of_mem_take_one {video : Profiles} {ts : Bool} {p : RepresentationProfile}
    (h : p ∈ (ladder (if ts then onlyGreatest video else video)).take 1) : IsBest video p := by
  obtain ⟨hp, hbest⟩ := le_of_mem_take_one (pairwise_sortDesc _ _) h
  rw [mem_sortDesc] at hp
  intro q hq hheight
  refine hbest q ((mem_sortDesc _).mpr ?_)
  -- a profile of the same height is admitted too
  cases ts with
  | false => exact hq
  | true =>
    have hgreatest := (List.mem_filter.mp hp).2
    exact List.mem_filter.mpr ⟨hq, hheight ▸ hgreatest⟩

/-- With a resolution, the entry is the profile selected, if there is any height to select by. -/
theorem masterVideo_resolution {params : MasterParams} (profiles : Profiles) {resolution : Str}
    (h : params.resolution = some resolution) :
    (∃ p, Selects (videoProfiles profiles) (targetHeight resolution) p ∧
        masterVideo params profiles = [p]) ∨
      (∀ q ∈ videoProfiles profiles, q.height = 0) ∧
        masterVideo params profiles = (ladder (if params.remuxToTs then
          onlyGreatest (videoProfiles profiles) else videoProfiles profiles)).take 1 := by
  have hmode : (params.resolution.isSome || params.remuxToTs) = true := by
    rw [h, Option.isSome_some, Bool.true_or]
  rw [masterVideo_eq, if_pos hmode, admitted, h]
  dsimp only
  obtain ⟨p, hselects, hfilter⟩ | ⟨hzero, hfilter⟩ :=
    filterByResolution_spec (videoProfiles profiles) resolution
  · refine .inl ⟨p, hselects, ?_⟩
    have hone : (if params.remuxToTs then onlyGreatest [p] else [p]) = [p] := by
      split
      · exact onlyGreatest_singleton p
      · rfl
    rw [hfilter, hone, ladder, sortDesc, List.mergeSort_singleton]
    rfl
  · rw [hfilter]
    exact .inr ⟨hzero, rfl⟩

/-- The heights that are listed without a resolution: the first five of the ladder. -/
def listedHeights (video : Profiles) : List ℕ :=
  ((retainNew (·.height) [] (ladder video)).take 5).map (·.height)

/-- No best profile of a height is lost. -/
structure KeepsBest (params : MasterParams) (video : Profiles) : Prop where
  /-- Of those of its height, a resolution selects one of the best. -/
  resolution : ∀ resolution ∈ params.resolution, ∀ p,
    Selects video (targetHeight resolution) p → IsBest video p
  /-- Of each height that is listed, one of the best is the first of its representation id. -/
  ladder : params.resolution = none → params.remuxToTs = false →
    ∀ height ∈ listedHeights video, ∃ p ∈ ladder video, p.height = height ∧ IsBest video p

theorem masterVideo_best_iff {params : MasterParams} {profiles : Profiles} :
    (∀ p ∈ masterVideo params profiles, IsBest (videoProfiles profiles) p) ↔
      KeepsBest params (videoProfiles profiles) := by
  cases hresolution : params.resolution with
  | some resolution =>
    have hladder : ¬ params.resolution = none := by
      rw [hresolution]
      exact Option.some_ne_none _
    obtain ⟨p, hselects, hvideo⟩ | ⟨hzero, hvideo⟩ := masterVideo_resolution profiles hresolution
    · rw [hvideo, List.forall_mem_singleton]
      constructor
      · intro hbest
        refine ⟨fun resolution' hresolution' q hq => ?_, fun hnone => absurd hnone hladder⟩
        obtain rfl : resolution = resolution' := Option.some.inj (hresolution ▸ hresolution')
        exact hselects.unique hq ▸ hbest
      · exact fun h => h.resolution resolution hresolution p hselects
    · rw [hvideo]
      refine iff_of_true (fun p hp => isBest_of_mem_take_one hp)
        ⟨fun _ _ p hp => ?_, fun hnone => absurd hnone hladder⟩
      -- nothing is selected by its height
      exact absurd (hzero p hp.mem) hp.1.ne'
  | none =>
    have hvacuous : ∀ resolution ∈ params.resolution, ∀ p,
        Selects (videoProfiles profiles) (targetHeight resolution) p →
        IsBest (videoProfiles profiles) p := by
      intro resolution hmem
      rw [hresolution] at hmem
      exact absurd hmem (Option.not_mem_none _)
    rw [masterVideo_eq, admitted_of_no_resolution hresolution, hresolution, Option.isSome_none,
      Bool.false_or]
    cases hts : params.remuxToTs with
    | true =>
      refine iff_of_true (fun p hp => ?_) ⟨hvacuous, fun _ hfalse => ?_⟩
      · exact isBest_of_mem_take_one hp
      · rw [hts] at hfalse
        cases hfalse
    | false =>
      rw [if_neg Bool.false_ne_true, if_neg Bool.false_ne_true]
      constructor
      · intro hbest
        refine ⟨hvacuous, fun _ _ height hheight => ?_⟩
        obtain ⟨p, hp, rfl⟩ := List.mem_map.mp hheight
        exact ⟨p, mem_of_mem_retainNew (List.mem_of_mem_take hp), rfl, hbest p hp⟩
      · intro h p hp
        obtain ⟨m, hm, hheight, hbest⟩ :=
          h.ladder hresolution hts p.height (List.mem_map_of_mem hp)
        intro q hq hsame
        -- the entry is the first of its height in the ladder
        calc q.bandwidth ≤ m.bandwidth := hbest q hq (hsame.trans hheight.symm)
          _ ≤ p.bandwidth :=
            le_of_mem_retainNew (pairwise_ladder _) (List.mem_of_mem_take hp) hm hheight

/-! ### The audio entries -/

/-- A fold that takes an element or leaves it ends with one of them, or where it began. -/
theorem foldl_mem {α : Type*} {f : Option α → α → Option α}
    (hf : ∀ best a, f best a = best ∨ f best a = some a) (l : List α) (best : Option α) :
    l.foldl f best ∈ best :: l.map some := by
  induction l generalizing best with
  | nil => exact List.mem_cons_self
  | cons a l ih =>
    rw [List.foldl_cons, List.map_cons]
    obtain h | h := List.mem_cons.mp (ih (f best a))
    · rw [h, List.mem_cons, List.mem_cons]
      exact (hf best a).imp_right .inl
    · exact List.mem_cons_of_mem _ (List.mem_cons_of_mem _ h)

theorem maxByKey_mem {α : Type*} (key : α → ℕ) {l : List α} (h : l ≠ []) :
    ∃ a ∈ l, maxByKey key l = some a := by
  obtain ⟨first, rest, rfl⟩ := List.exists_cons_of_ne_nil h
  have hmem : maxByKey key (first :: rest) ∈ some first :: rest.map some := by
    refine foldl_mem (fun best a => ?_) rest (some first)
    split
    · split
      · exact .inr rfl
      · exact .inl rfl
    · exact .inr rfl
  rw [← List.map_cons, List.mem_map] at hmem
  obtain ⟨a, ha, hmax⟩ := hmem
  exact ⟨a, ha, hmax.symm⟩

/-- There is a default if there is any audio. -/
theorem exists_default {audio : Profiles} (h : audio ≠ []) :
    ∃ p ∈ audio, some p.id = defaultAudioId audio := by
  unfold defaultAudioId
  dsimp only
  by_cases henglish : (audio.filter fun p => p.lang.any ("en".toList.isPrefixOf ·)) = []
  · obtain ⟨p, hp, hmax⟩ := maxByKey_mem (·.bandwidth) h
    rw [henglish, hmax]
    exact ⟨p, hp, rfl⟩
  · obtain ⟨p, hp, hmax⟩ := maxByKey_mem (·.bandwidth) henglish
    rw [hmax]
    exact ⟨p, List.mem_of_mem_filter hp, rfl⟩

section Order

variable (isDefault : RepresentationProfile → Prop) [DecidablePred isDefault]

/-- The defaults first, then by falling bandwidth. -/
def audioOrder (a b : RepresentationProfile) : Bool :=
  if isDefault a = isDefault b then b.bandwidth ≤ a.bandwidth else isDefault a

theorem audioOrder_iff (a b : RepresentationProfile) :
    audioOrder isDefault a b = true ↔
      (isDefault b → isDefault a) ∧ ((isDefault a → isDefault b) → b.bandwidth ≤ a.bandwidth) := by
  unfold audioOrder
  by_cases ha : isDefault a <;> by_cases hb : isDefault b <;> simp [ha, hb]

theorem audioOrder_trans (a b c : RepresentationProfile) (hab : audioOrder isDefault a b = true)
    (hbc : audioOrder isDefault b c = true) : audioOrder isDefault a c = true := by
  rw [audioOrder_iff] at hab hbc ⊢
  refine ⟨fun hc => hab.1 (hbc.1 hc), fun hac => ?_⟩
  -- all three are of one kind
  exact (hbc.2 fun hb => hac (hab.1 hb)).trans (hab.2 fun ha => hbc.1 (hac ha))

theorem audioOrder_total (a b : RepresentationProfile) :
    (audioOrder isDefault a b || audioOrder isDefault b a) = true := by
  rw [Bool.or_eq_true, audioOrder_iff, audioOrder_iff]
  by_cases ha : isDefault a <;> by_cases hb : isDefault b <;>
    simp [ha, hb, Nat.le_total]

end Order

/-- The audio profiles as they are thinned out: the defaults first. -/
theorem masterAudio_sorted (profiles : Profiles) :
    ∃ sorted : Profiles, (∀ p, p ∈ sorted ↔ p ∈ audioProfiles profiles) ∧
      (sorted.Pairwise fun a b => some b.id = defaultAudioId (audioProfiles profiles) →
        some a.id = defaultAudioId (audioProfiles profiles)) ∧
      masterAudio profiles = (retainNew RepresentationProfile.language [] sorted).take 4 := by
  let isDefault := fun p : RepresentationProfile =>
    some p.id = defaultAudioId (audioProfiles profiles)
  refine ⟨(audioProfiles profiles).mergeSort (audioOrder isDefault), fun p => List.mem_mergeSort,
    ?_, rfl⟩
  exact (List.pairwise_mergeSort (audioOrder_trans isDefault) (audioOrder_total isDefault) _).imp
    fun h => ((audioOrder_iff isDefault _ _).mp h).1

/-- The profiles with the id of the default have one language. -/
def OneDefaultLanguage (parsed : ParsedMpd) : Prop :=
  ∀ p ∈ audioProfiles parsed.profiles, ∀ q ∈ audioProfiles parsed.profiles,
    isDefaultAudio parsed p = true → isDefaultAudio parsed q = true → p.language = q.language

section Default

variable {parsed : ParsedMpd} {sorted : Profiles}

theorem isDefaultAudio_iff {p : RepresentationProfile} : isDefaultAudio parsed p = true ↔
    some p.id = defaultAudioId (audioProfiles parsed.profiles) := decide_eq_true_iff

/-- In a list with the defaults first, the first one with the language of a default is a default. -/
theorem exists_default_retained
    (hfirst : sorted.Pairwise fun a b => isDefaultAudio parsed b = true →
      isDefaultAudio parsed a = true) {p : RepresentationProfile} (hp : p ∈ sorted)
    (hpdefault : isDefaultAudio parsed p = true) :
    ∃ q ∈ retainNew RepresentationProfile.language [] sorted,
      q.language = p.language ∧ isDefaultAudio parsed q = true := by
  obtain ⟨q, hq, hlanguage, hfind⟩ := exists_mem_retainNew RepresentationProfile.language hp
  refine ⟨q, hq, hlanguage, ?_⟩
  obtain ⟨-, before, after, rfl, hbefore⟩ := List.find?_eq_some_iff_append.mp hfind
  obtain hp | hp := List.mem_append.mp hp
  · have hnot := hbefore p hp
    rw [decide_eq_true rfl] at hnot
    cases hnot
  · obtain rfl | hp := List.mem_cons.mp hp
    · exact hpdefault
    · exact (List.pairwise_cons.mp (List.pairwise_append.mp hfirst).2.1).1 p hp hpdefault

/-- Of a list with the defaults first, the first elements hold one default just if the list does. -/
theorem filter_take_eq_singleton_iff {first : RepresentationProfile} {rest : Profiles} {n : ℕ}
    (hpairwise : (first :: rest).Pairwise fun a b => isDefaultAudio parsed b = true →
      isDefaultAudio parsed a = true) (hdefault : isDefaultAudio parsed first = true) :
    (∃ p, ((first :: rest).take (n + 2)).filter (isDefaultAudio parsed) = [p]) ↔
      ∀ q ∈ rest, isDefaultAudio parsed q = false := by
  rw [List.take_succ_cons, List.filter_cons_of_pos hdefault]
  constructor
  · rintro ⟨p, hp⟩ q hq
    obtain ⟨-, hnone⟩ := List.cons.inj hp
    -- a second default would come second
    obtain ⟨second, rest, rfl⟩ := List.exists_cons_of_ne_nil (List.ne_nil_of_mem hq)
    rw [List.take_succ_cons, List.filter_eq_nil_iff] at hnone
    have hsecond := Bool.eq_false_of_not_eq_true (hnone second List.mem_cons_self)
    obtain rfl | hq := List.mem_cons.mp hq
    · exact hsecond
    · have hafter := (List.pairwise_cons.mp (List.pairwise_cons.mp hpairwise).2).1 q hq
      exact Bool.eq_false_of_not_eq_true fun h => Bool.false_ne_true (hsecond.symm.trans (hafter h))
  · intro h
    refine ⟨first, congrArg _ (List.filter_eq_nil_iff.mpr fun q hq hqdefault => ?_)⟩
    exact Bool.false_ne_true ((h q (List.mem_of_mem_take hq)).symm.trans hqdefault)

/-- **The default.** The first entry is one, and it is the only one if the defaults have one
language. -/
theorem oneDefault_iff (h : audioProfiles parsed.profiles ≠ []) :
    (∃ p, (masterAudio parsed.profiles).filter (isDefaultAudio parsed) = [p]) ↔
      OneDefaultLanguage parsed := by
  obtain ⟨sorted, hmem, hfirst, haudio⟩ := masterAudio_sorted parsed.profiles
  simp only [← isDefaultAudio_iff] at hfirst
  have hsublist := retainNew_sublist RepresentationProfile.language [] sorted
  have hpairwise := hfirst.sublist hsublist
  have hnodup := nodup_retainNew RepresentationProfile.language [] sorted
  have hretained {p : RepresentationProfile} (hp : p ∈ audioProfiles parsed.profiles)
      (hpdefault : isDefaultAudio parsed p = true) :=
    exists_default_retained hfirst ((hmem p).mpr hp) hpdefault
  obtain ⟨d, hd, hdid⟩ := exists_default h
  obtain ⟨u, hu, -, hudefault⟩ := hretained hd (isDefaultAudio_iff.mpr hdid)
  rw [haudio]
  cases hlist : retainNew RepresentationProfile.language [] sorted with
  | nil =>
    rw [hlist] at hu
    cases hu
  | cons first rest =>
    rw [hlist] at hu hpairwise hnodup hretained hsublist
    have hfirstDefault : isDefaultAudio parsed first = true := by
      obtain rfl | hu := List.mem_cons.mp hu
      · exact hudefault
      · exact (List.pairwise_cons.mp hpairwise).1 u hu hudefault
    rw [filter_take_eq_singleton_iff hpairwise hfirstDefault]
    constructor
    · intro hrest p hp q hq hpdefault hqdefault
      have honly : ∀ q ∈ first :: rest, isDefaultAudio parsed q = true → q = first := by
        intro q hq hqdefault
        obtain rfl | hq := List.mem_cons.mp hq
        · rfl
        · exact absurd ((hrest q hq).symm.trans hqdefault) Bool.false_ne_true
      obtain ⟨p', hp', hplanguage, hp'default⟩ := hretained hp hpdefault
      obtain ⟨q', hq', hqlanguage, hq'default⟩ := hretained hq hqdefault
      rw [← hplanguage, ← hqlanguage, honly p' hp' hp'default, honly q' hq' hq'default]
    · intro hone q hq
      refine Bool.eq_false_of_not_eq_true fun hqdefault => ?_
      have hlanguage : first.language = q.language :=
        hone first ((hmem first).mp (hsublist.subset List.mem_cons_self)) q
          ((hmem q).mp (hsublist.subset (List.mem_cons_of_mem _ hq))) hfirstDefault hqdefault
      exact (List.nodup_cons.mp hnodup).1 (hlanguage ▸ List.mem_map_of_mem hq)

end Default

/-! ### The main result -/

theorem take_succ_ne_nil {α : Type*} {l : List α} (h : l ≠ []) (n : ℕ) : l.take (n + 1) ≠ [] := by
  obtain ⟨a, l, rfl⟩ := List.exists_cons_of_ne_nil h
  exact List.cons_ne_nil a _

theorem masterVideo_ne_nil {params : MasterParams} {profiles : Profiles}
    (h : videoProfiles profiles ≠ []) : masterVideo params profiles ≠ [] := by
  have hladder : ladder (if params.remuxToTs then onlyGreatest (videoProfiles profiles)
      else videoProfiles profiles) ≠ [] := by
    refine ladder_ne_nil ?_
    split
    · exact onlyGreatest_ne_nil h
    · exact h
  cases hresolution : params.resolution with
  | some resolution =>
    obtain ⟨p, -, hvideo⟩ | ⟨-, hvideo⟩ := masterVideo_resolution profiles hresolution
    · exact hvideo ▸ List.cons_ne_nil p []
    · exact hvideo ▸ take_succ_ne_nil hladder 0
  | none =>
    rw [masterVideo_eq, admitted_of_no_resolution hresolution]
    split
    · exact take_succ_ne_nil hladder 0
    · exact take_succ_ne_nil (retainNew_ne_nil _ hladder) 4

theorem masterVideo_admits {params : MasterParams} {profiles : Profiles} {resolution : Str}
    (h : params.resolution = some resolution) :
    ∀ p ∈ masterVideo params profiles,
      AdmitsHeight (videoProfiles profiles) (targetHeight resolution) p.height := by
  obtain ⟨p, hselects, hvideo⟩ | ⟨hzero, -⟩ := masterVideo_resolution profiles h
  · rw [hvideo, List.forall_mem_singleton]
    exact hselects.admits
  · rintro p - ⟨q, hq, hpos⟩
    exact absurd (hzero q hq) hpos.ne'

/-- **The variants.** They are the best where no best profile is lost, and one is the default where
the profiles with its id have one language. -/
theorem choosesVariants_iff (params : MasterParams) (parsed : ParsedMpd) :
    ChoosesVariants params parsed ↔
      OneDefaultLanguage parsed ∧ KeepsBest params (videoProfiles parsed.profiles) := by
  rw [← masterVideo_best_iff]
  constructor
  · intro h
    refine ⟨?_, entriesOf_video params parsed ▸ h.best⟩
    by_cases haudio : audioProfiles parsed.profiles = []
    · intro p hp
      rw [haudio] at hp
      cases hp
    · exact (oneDefault_iff haudio).mp (entriesOf_audio params parsed ▸ h.oneDefault haudio)
  · rintro ⟨hone, hbest⟩
    obtain ⟨sorted, -, -, haudio⟩ := masterAudio_sorted parsed.profiles
    constructor
    · rw [entriesOf_audio]
      exact fun h => (oneDefault_iff h).mpr hone
    · rw [entriesOf_audio, haudio]
      exact List.length_take_le 4 _
    · rw [entriesOf_audio, haudio]
      exact (nodup_retainNew _ [] sorted).sublist ((List.take_sublist 4 _).map _)
    · rw [entriesOf_video]
      exact masterVideo_ne_nil
    · rw [entriesOf_video]
      exact hbest
    · rw [entriesOf_video]
      exact fun resolution h => masterVideo_admits h

/-! ### Two profiles of one height -/

def videoProfile (repId : Str) (bandwidth : ℕ) : RepresentationProfile where
  id := repId
  repId := repId
  mimeType := "video/mp4".toList
  bandwidth := bandwidth
  initUrl := none
  initRange := none
  segments := []
  segmentTemplateStartNumberExplicit := false
  nominalDurationMpdTimescale := none
  codecs := "avc1".toList
  lang := none
  width := 1280
  height := 720
  frameRateStr := "25".toList

/-- As documents list them, by growing bandwidth. -/
def growingBandwidth : ParsedMpd where
  isLive := false
  profiles := [videoProfile ['a'] 1000, videoProfile ['b'] 2000]

def resolution720 : MasterParams where
  apiPassword := []
  passHeaders := []
  keyId := none
  key := none
  remuxToTs := false
  resolution := some "720p".toList
  skip := none

/-- The first one is selected. -/
theorem not_choosesVariants_growingBandwidth :
    ¬ ChoosesVariants resolution720 growingBandwidth := by
  intro h
  have hbest := masterVideo_best_iff.mp (entriesOf_video resolution720 growingBandwidth ▸ h.best)
  have htarget : targetHeight "720p".toList = 720 := by decide +kernel
  have hvideo : videoProfiles growingBandwidth.profiles = growingBandwidth.profiles := rfl
  have hselects : Selects growingBandwidth.profiles 720 (videoProfile ['a'] 1000) := by
    refine ⟨by decide, .inl ⟨le_rfl, ?_, rfl⟩⟩
    exact List.forall_mem_cons.mpr ⟨fun _ => le_rfl, List.forall_mem_singleton.mpr fun _ => le_rfl⟩
  have hfirst := hbest.resolution _ rfl (videoProfile ['a'] 1000) (by rwa [hvideo, htarget])
  have hmore : (videoProfile ['b'] 2000).bandwidth ≤ (videoProfile ['a'] 1000).bandwidth :=
    hfirst _ (List.mem_cons_of_mem _ (List.mem_singleton_self _)) rfl
  exact absurd hmore (by decide)

end MediaFlow
