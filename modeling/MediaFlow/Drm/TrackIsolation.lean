import MediaFlow.Drm.TrackSetup
import MediaFlow.Drm.InPlace

/-!
# What tracks do to each other

The decrypter is to treat every track as if it were alone: what it records for a `traf` of a track
is to depend on the `trak` of the track, on the `traf` and on the keys. `alone` is the decrypter
that has seen nothing but the `trak`.

But some of what is read while boxes are processed is kept once for all tracks: the scheme, the
IV size and the constant IV that `senc` boxes are cut with, the pattern of tracks without a `tenc`,
and the sample sizes of `traf`s that do not give their own. `KeepsApart` says that for one `traf`
of one track the shared values are those of the track itself, and
`trackInfo_alone` that then the track is treated as if it were alone, whatever other tracks,
`traf`s and `moof`s there are.
-/

open ByteString Emit

namespace MediaFlow
namespace Mp4Decrypter

/-! ### What setup events give -/

/-- The scheme a `schm` names. -/
def schemeGiven : SetupEvent → Option EncScheme
  | .schm box =>
    if 8 ≤ box.data.length then some (EncScheme.fromBytes (FourCC.at' box.data 4)) else none
  | _ => none

/-- What a complete `tenc` gives. -/
def tencGives {α : Type*} (read : Bytes → Option α) : SetupEvent → Option α
  | .tenc box => if 8 ≤ box.data.length then read box.data else none
  | _ => none

/-- The scheme of the last `schm`. -/
def schemeOf (events : List SetupEvent) : EncScheme := (lastGiven schemeGiven events).getD .cenc

/-- The IV size of the last `tenc` that has a valid one. -/
def ivSizeOf (events : List SetupEvent) : ℕ := (lastGiven (tencGives tencIvSize) events).getD 8

/-- The constant IV of the last `tenc` that has one. -/
def constantIvOf (events : List SetupEvent) : Option Bytes :=
  lastGiven (tencGives tencConstantIv) events

/-- The pattern of the last `tenc` that has one. -/
def patternOf (events : List SetupEvent) : ℕ × ℕ :=
  (lastGiven (tencGives tencPattern) events).getD (1, 9)

/-- The complete `tenc`s that are read while track `t` is current; `current` is the track that is
current before the events. -/
def tencsOf (t : ℕ) : ℕ → List SetupEvent → List Mp4Atom
  | _, [] => []
  | _, .track id :: rest => tencsOf t id rest
  | current, .schm _ :: rest => tencsOf t current rest
  | current, .tenc box :: rest =>
    if 8 ≤ box.data.length ∧ 0 < t ∧ current = t then box :: tencsOf t current rest
    else tencsOf t current rest

/-- The settings of track `t`: those of its last `tenc`. -/
def settingsOf (t : ℕ) (events : List SetupEvent) : Option TrackSettings :=
  lastGiven (fun box => some (tencSettings box.data)) (tencsOf t 0 events)

/-- The KID of track `t`: that of its last `tenc` that has one. -/
def kidOf (t : ℕ) (events : List SetupEvent) : Option Bytes :=
  lastGiven (fun box => tencKid box.data) (tencsOf t 0 events)

/-! ### The decrypter after setup events -/

section Setup

variable (s : Mp4Decrypter) (events : List SetupEvent)

/-- What a `moov` leaves alone. -/
theorem kept_applySetup :
    (events.foldl applySetup s).keyMap = s.keyMap ∧
      (events.foldl applySetup s).defaultSampleSize = s.defaultSampleSize ∧
      (events.foldl applySetup s).trunSampleSizes = s.trunSampleSizes := by
  induction events generalizing s with
  | nil => exact ⟨rfl, rfl, rfl⟩
  | cons e rest ih =>
    have hstep : (applySetup s e).keyMap = s.keyMap ∧
        (applySetup s e).defaultSampleSize = s.defaultSampleSize ∧
        (applySetup s e).trunSampleSizes = s.trunSampleSizes := by
      cases e with
      | track id => exact ⟨rfl, rfl, rfl⟩
      | schm box =>
        simp only [applySetup, parseSchm]
        by_cases h : 8 ≤ box.data.length
        · simp only [if_pos h, and_self]
        · simp only [if_neg h, and_self]
      | tenc box =>
        simp only [applySetup, parseTenc]
        by_cases h : box.data.length < 8
        · simp only [if_pos h, and_self]
        · simp only [if_neg h, and_self]
    obtain ⟨hkeys, hdefault, hsizes⟩ := ih (applySetup s e)
    rw [List.foldl_cons]
    exact ⟨hkeys.trans hstep.1, hdefault.trans hstep.2.1, hsizes.trans hstep.2.2⟩

theorem encryptionScheme_applySetup :
    (events.foldl applySetup s).encryptionScheme
      = (lastGiven schemeGiven events).getD s.encryptionScheme := by
  refine foldl_lastGiven Mp4Decrypter.encryptionScheme (fun s e => ?_) events s
  cases e with
  | track id => rfl
  | schm box => simp only [applySetup, parseSchm, schemeGiven]; split <;> rfl
  | tenc box => simp only [applySetup, parseTenc, schemeGiven]; split <;> rfl

/-- What every complete `tenc` gives or leaves is that of the last one that gives it. -/
theorem part_applySetup {α : Type*} (part : Mp4Decrypter → α) (read : Bytes → Option α)
    (htrack : ∀ s id, part { s with currentTrackId := id } = part s)
    (hschm : ∀ s box, part (parseSchm s box) = part s)
    (htenc : ∀ s box, 8 ≤ box.data.length →
      part (parseTenc s box) = (read box.data).getD (part s)) :
    part (events.foldl applySetup s) = (lastGiven (tencGives read) events).getD (part s) := by
  refine foldl_lastGiven part (fun s e => ?_) events s
  cases e with
  | track id => exact htrack s id
  | schm box => exact hschm s box
  | tenc box =>
    simp only [applySetup, tencGives]
    split
    · next h => exact htenc s box h
    · next h => rw [parseTenc, if_pos (by omega), Option.getD_none]

theorem parseSchm_keeps {α : Type*} (part : Mp4Decrypter → α)
    (h : ∀ s scheme, part { s with encryptionScheme := scheme } = part s) (box : Mp4Atom) :
    part (parseSchm s box) = part s := by
  unfold parseSchm
  split
  · exact h s _
  · rfl

theorem defaultIvSize_applySetup :
    (events.foldl applySetup s).defaultIvSize
      = (lastGiven (tencGives tencIvSize) events).getD s.defaultIvSize := by
  refine part_applySetup s events defaultIvSize _ (fun _ _ => rfl)
    (fun s box => parseSchm_keeps s _ (fun _ _ => rfl) box) fun s box h => ?_
  rw [parseTenc, if_neg (by omega)]

theorem constantIv_applySetup :
    (events.foldl applySetup s).constantIv
      = (lastGiven (tencGives tencConstantIv) events).or s.constantIv := by
  have h := part_applySetup s events constantIv
    (fun d => (tencConstantIv d).map some) (fun _ _ => rfl)
    (fun s box => parseSchm_keeps s _ (fun _ _ => rfl) box) (fun s box h => by
      rw [parseTenc, if_neg (by omega)]
      cases tencConstantIv box.data <;> rfl)
  have hmap : lastGiven (tencGives fun d => (tencConstantIv d).map some) events
      = (lastGiven (tencGives tencConstantIv) events).map some := by
    unfold lastGiven
    rw [← List.getLast?_map, List.map_filterMap]
    congr 2
    funext e
    cases e with
    | tenc box => simp only [tencGives]; split <;> rfl
    | track id => rfl
    | schm box => rfl
  rw [h, hmap]
  cases lastGiven (tencGives tencConstantIv) events <;> rfl

theorem pattern_applySetup :
    ((events.foldl applySetup s).cryptByteBlock, (events.foldl applySetup s).skipByteBlock)
      = (lastGiven (tencGives tencPattern) events).getD (s.cryptByteBlock, s.skipByteBlock) := by
  refine part_applySetup s events (fun s => (s.cryptByteBlock, s.skipByteBlock)) _
    (fun _ _ => rfl) (fun s box => parseSchm_keeps s
      (fun s => (s.cryptByteBlock, s.skipByteBlock)) (fun _ _ => rfl) box) fun s box h => ?_
  rw [parseTenc, if_neg (by omega)]

end Setup

theorem lastGiven_cons {α β : Type*} (give : α → Option β) (a : α) (as : List α) :
    lastGiven give (a :: as) = (lastGiven give as).or (give a) := by
  unfold lastGiven
  cases h : give a with
  | none => rw [List.filterMap_cons_none h, Option.or_none]
  | some b =>
    rw [List.filterMap_cons_some h, List.getLast?_cons]
    cases (as.filterMap give).getLast? <;> rfl

theorem currentTrackId_parseTenc (s : Mp4Decrypter) (box : Mp4Atom) :
    (parseTenc s box).currentTrackId = s.currentTrackId := by
  unfold parseTenc
  simp only
  by_cases h : box.data.length < 8
  · rw [if_pos h]
  · rw [if_neg h]

/-- A table with one entry for each track, that a complete `tenc` may write at the current track. -/
theorem table_applySetup {α : Type*} (table : Mp4Decrypter → ℕ → Option α)
    (read : Bytes → Option α) (t : ℕ)
    (htrack : ∀ s id, table { s with currentTrackId := id } t = table s t)
    (hschm : ∀ s box, table (parseSchm s box) t = table s t)
    (htenc : ∀ s box, 8 ≤ box.data.length →
      table (parseTenc s box) t = if 0 < t ∧ s.currentTrackId = t
        then (read box.data).or (table s t) else table s t)
    (s : Mp4Decrypter) (events : List SetupEvent) :
    table (events.foldl applySetup s) t
      = (lastGiven (fun box => read box.data) (tencsOf t s.currentTrackId events)).or
          (table s t) := by
  induction events generalizing s with
  | nil => rfl
  | cons e rest ih =>
    rw [List.foldl_cons, ih]
    cases e with
    | track id =>
      rw [applySetup, htrack]
      rfl
    | schm box =>
      rw [applySetup, hschm, parseSchm_keeps s currentTrackId (fun _ _ => rfl), tencsOf]
    | tenc box =>
      rw [applySetup, currentTrackId_parseTenc, tencsOf]
      by_cases h₈ : 8 ≤ box.data.length
      · rw [htenc s box h₈]
        by_cases hcur : 0 < t ∧ s.currentTrackId = t
        · rw [if_pos hcur, if_pos ⟨h₈, hcur⟩, lastGiven_cons, Option.or_assoc]
        · rw [if_neg hcur, if_neg fun hc => hcur hc.2]
      · rw [if_neg fun hc => h₈ hc.1, parseTenc, if_pos (Nat.lt_of_not_le h₈)]

theorem trackEncryptionSettings_applySetup (t : ℕ) (s : Mp4Decrypter) (events : List SetupEvent) :
    (events.foldl applySetup s).trackEncryptionSettings t
      = (lastGiven (fun box => some (tencSettings box.data)) (tencsOf t s.currentTrackId events)).or
          (s.trackEncryptionSettings t) := by
  refine table_applySetup trackEncryptionSettings
    (fun d => some (tencSettings d)) t (fun _ _ => rfl)
    (fun s box => parseSchm_keeps s (fun s => s.trackEncryptionSettings t)
      (fun _ _ => rfl) box) (fun s box h => ?_) s events
  rw [parseTenc, if_neg (by omega)]
  by_cases hpos : 0 < s.currentTrackId <;> by_cases hcur : s.currentTrackId = t <;>
    simp_all [eq_comm]

theorem extractedKids_applySetup (t : ℕ) (s : Mp4Decrypter) (events : List SetupEvent) :
    (events.foldl applySetup s).extractedKids t
      = (lastGiven (fun box => tencKid box.data) (tencsOf t s.currentTrackId events)).or
          (s.extractedKids t) := by
  refine table_applySetup extractedKids tencKid t (fun _ _ => rfl)
    (fun s box => parseSchm_keeps s (fun s => s.extractedKids t)
      (fun _ _ => rfl) box) (fun s box h => ?_) s events
  rw [parseTenc, if_neg (by omega)]
  cases tencKid box.data with
  | none => simp
  | some kid =>
    by_cases hpos : 0 < s.currentTrackId <;> by_cases hcur : s.currentTrackId = t <;>
      simp_all [eq_comm]

/-! ### The run -/

/-- The decrypter after some `moof`s. -/
def processMoofs (s : Mp4Decrypter) (moofs : List Mp4Atom) : Option Mp4Decrypter :=
  moofs.foldlM (fun s moof => (processMoof s moof).map Prod.snd) s

/-- The children of all `traf`s of a list of `moof`s, in the order they are read. -/
def trafChildrenOf (moofs : List Mp4Atom) : List Mp4Atom :=
  moofs.flatMap fun moof => (MoofPart.trafs (partsOf moof)).flatten

/-- What is left to a later `traf` by children that have been read. -/
structure Carries (s s' : Mp4Decrypter) (children : List Mp4Atom) : Prop where
  setup : SameSetup s s'
  default : s'.defaultSampleSize = carriedDefault s.defaultSampleSize children
  sizes : s'.trunSampleSizes = carriedSizes s.trunSampleSizes children

theorem Carries.refl (s : Mp4Decrypter) : Carries s s [] := ⟨SameSetup.refl s, rfl, rfl⟩

theorem Carries.trans {s s' s'' : Mp4Decrypter} {as bs : List Mp4Atom} (h : Carries s s' as)
    (h' : Carries s' s'' bs) : Carries s s'' (as ++ bs) where
  setup := h.setup.trans h'.setup
  default := by rw [h'.default, h.default, carriedDefault, carriedDefault, carriedDefault,
    List.foldl_append]
  sizes := by rw [h'.sizes, h.sizes, carriedSizes, carriedSizes, carriedSizes, List.foldl_append]

theorem afterTraf_carries (s : Mp4Decrypter) (children : List Mp4Atom) :
    Carries s (afterTraf s children) children :=
  ⟨afterTraf_sameSetup s children, afterTraf_default s children, readTraf_sizes s {} children⟩

theorem afterTrafs_carries (s : Mp4Decrypter) (trafs : List (List Mp4Atom)) :
    Carries s (afterTrafs s trafs) trafs.flatten := by
  induction trafs generalizing s with
  | nil => exact Carries.refl s
  | cons children rest ih => exact (afterTraf_carries s children).trans (ih _)

theorem enterMoof_carries (s : Mp4Decrypter) (parts : List MoofPart) :
    Carries s (enterMoof s parts) [] :=
  ⟨⟨rfl, rfl, rfl, rfl, rfl, rfl, rfl, rfl, rfl⟩, rfl, rfl⟩

/-- One `moof` of the run. -/
theorem processMoof_carries {s s' : Mp4Decrypter} {moof moof' : Mp4Atom}
    (h : processMoof s moof = some (moof', s')) :
    Carries s s' (MoofPart.trafs (partsOf moof)).flatten := by
  obtain ⟨-, -, rfl⟩ := processMoof_eq_some h
  exact (enterMoof_carries s _).trans (afterTrafs_carries _ _)

/-- All `moof`s of the run. -/
theorem processMoofs_carries {s s' : Mp4Decrypter} {moofs : List Mp4Atom}
    (h : processMoofs s moofs = some s') : Carries s s' (trafChildrenOf moofs) := by
  induction moofs generalizing s with
  | nil =>
    obtain rfl := Option.some.inj h
    exact Carries.refl s
  | cons moof rest ih =>
    unfold processMoofs at h
    rw [List.foldlM_cons] at h
    obtain ⟨s₁, h₁, hrest⟩ := Option.bind_eq_some_iff.mp h
    obtain ⟨⟨moof', s₂⟩, hmoof, rfl⟩ := Option.map_eq_some_iff.mp h₁
    exact (processMoof_carries hmoof).trans (ih hrest)

/-- The record of the `traf` that follows `before` in its `moof`. -/
theorem getElem?_records (s : Mp4Decrypter) (before after : List (List Mp4Atom))
    (children : List Mp4Atom) :
    (records s (before ++ children :: after))[before.length]?
      = some (trafRecord (afterTrafs s before) children) := by
  induction before generalizing s with
  | nil => rfl
  | cons b before ih => exact ih (afterTraf s b)

/-! ### A track as if it were alone -/

/-- The decrypter that has seen nothing but one `trak`. -/
def alone (keyMap : KeyMap) (trak : Mp4Atom) : Option Mp4Decrypter :=
  (processTrak (new keyMap) trak).map Prod.snd

def hasSenc (children : List Mp4Atom) : Bool := children.any fun c => c.atomType = .senc

/-- The values that track `t` shares with others are its own where a `traf` with these children
uses them. `own` are the setup events of the `trak`, `all` those of the `moov`, and `prior` the
children of all `traf`s read before. -/
structure KeepsApart (t : ℕ) (own all : List SetupEvent) (prior children : List Mp4Atom) :
    Prop where
  /-- The last `schm` of the `moov` names the scheme of the track. -/
  scheme : schemeOf all = schemeOf own
  /-- The `senc` is cut with the IV size of the track. -/
  ivSize : hasSenc children → ivSizeOf all = ivSizeOf own
  /-- In `cbcs`, the `senc` is read with the constant IV of the track. -/
  sencIv : hasSenc children → schemeOf own = .cbcs → constantIvOf all = constantIvOf own
  /-- No other `trak` leaves a `tenc` under the id of the track. -/
  settings : settingsOf t all = settingsOf t own
  kid : kidOf t all = kidOf t own
  /-- A track without a `tenc` uses the shared pattern. -/
  pattern : settingsOf t own = none →
    patternOf all = patternOf own ∧ constantIvOf all = constantIvOf own
  /-- The `tfhd` gives a default sample size, or no `tfhd` before has given one. -/
  default : hasTfhd children →
    (∃ c ∈ children, c.atomType = .tfhd ∧ (tfhdDefaultSampleSize c.data).isSome) ∨
      carriedDefault 0 prior = 0
  /-- There is a complete `trun`, or there has been none before. -/
  sizes : (∃ c ∈ children, c.atomType = .trun ∧ 8 ≤ c.data.length) ∨ carriedSizes [] prior = []

/-- The decrypter after a `moov` and some `moof`s. -/
def run (keyMap : KeyMap) (moov : Mp4Atom) (moofs : List Mp4Atom) : Option Mp4Decrypter := do
  let (_, s) ← processMoov (new keyMap) moov
  processMoofs s moofs

/-- The steps of a run with at least one `moof`. -/
theorem run_append_singleton {keyMap : KeyMap} {moov moof : Mp4Atom} {earlier : List Mp4Atom}
    {s : Mp4Decrypter} (h : run keyMap moov (earlier ++ [moof]) = some s) :
    ∃ moov' s₁ s₂ moof', processMoov (new keyMap) moov = some (moov', s₁) ∧
      processMoofs s₁ earlier = some s₂ ∧ processMoof s₂ moof = some (moof', s) := by
  unfold run at h
  obtain ⟨⟨moov', s₁⟩, hmoov, hmoofs⟩ := Option.bind_eq_some_iff.mp h
  simp only [processMoofs, List.foldlM_append] at hmoofs
  obtain ⟨s₂, hearlier, hlast⟩ := Option.bind_eq_some_iff.mp hmoofs
  rw [List.foldlM_cons] at hlast
  obtain ⟨s₃, hstep, hs⟩ := Option.bind_eq_some_iff.mp hlast
  obtain rfl := Option.some.inj hs
  obtain ⟨⟨moof', s₄⟩, hmoof, rfl⟩ := Option.map_eq_some_iff.mp hstep
  exact ⟨moov', s₁, s₂, moof', hmoov, hearlier, hmoof⟩

/-- **Treated as if alone.** The `i`-th `traf` of the last `moof` is recorded, and its samples are
decrypted, as by the decrypter that has seen nothing but the `trak`. -/
def TreatedAlone (keyMap : KeyMap) (trak : Mp4Atom) (children : List Mp4Atom) (i : ℕ)
    (s : Mp4Decrypter) : Prop :=
  ∃ s₀, alone keyMap trak = some s₀ ∧
    s.trackInfos[i]? = some (trafRecord s₀ children) ∧
    s.encryptionScheme = s₀.encryptionScheme ∧
    ∃ first others others', ∀ aes mdat, decryptMdat aes s mdat = do
      let out ← tracksLoop aes s₀.encryptionScheme mdat.data first others mdat.data
      let out ← tracksLoop aes s₀.encryptionScheme mdat.data first [trafRecord s₀ children] out
      let out ← tracksLoop aes s₀.encryptionScheme mdat.data first others' out
      return ⟨.mdat, out⟩

theorem tracksLoop_append (aes : BlockCipher) (scheme : EncScheme) (mdat : Bytes) (first : ℤ)
    (tracks tracks' : List TrackInfo) (out : Bytes) :
    tracksLoop aes scheme mdat first (tracks ++ tracks') out
      = (tracksLoop aes scheme mdat first tracks out).bind
          (tracksLoop aes scheme mdat first tracks') := by
  induction tracks generalizing out with
  | nil => rfl
  | cons t tracks ih =>
    rw [List.cons_append, tracksLoop, tracksLoop]
    cases t.key with
    | none => exact ih out
    | some key =>
      simp only
      by_cases hinfo : t.sampleInfo = []
      · rw [if_pos hinfo, if_pos hinfo]
        exact ih out
      · rw [if_neg hinfo, if_neg hinfo]
        cases trackLoop aes scheme mdat t key t.sampleInfo 0 (mdatPosStart t first) out with
        | none => rfl
        | some out => exact ih out

/-- Decrypting an `mdat` goes through the recorded tracks one by one. -/
theorem decryptMdat_track {s : Mp4Decrypter} {t : TrackInfo} (ht : t ∈ s.trackInfos) :
    ∃ first others others', ∀ aes mdat, decryptMdat aes s mdat = do
      let out ← tracksLoop aes s.encryptionScheme mdat.data first others mdat.data
      let out ← tracksLoop aes s.encryptionScheme mdat.data first [t] out
      let out ← tracksLoop aes s.encryptionScheme mdat.data first others' out
      return ⟨.mdat, out⟩ := by
  have hne : s.trackInfos ≠ [] := List.ne_nil_of_mem ht
  have hmem : t ∈ sortTracks s.trackInfos := (perm_sortTracks _).mem_iff.mpr ht
  obtain ⟨others, others', hsplit⟩ := List.append_of_mem hmem
  obtain ⟨first, rest, hsort⟩ := List.exists_cons_of_ne_nil (List.ne_nil_of_mem hmem)
  refine ⟨first.dataOffset, others, others', fun aes mdat => ?_⟩
  rw [decryptMdat, if_pos hne, decryptMdatMultiTrack, hsort]
  simp only
  rw [← hsort, hsplit, ← List.singleton_append, tracksLoop_append, Option.bind_eq_bind,
    Option.bind_assoc]
  congr 1
  funext out
  rw [tracksLoop_append, Option.bind_assoc]

theorem traceAll_of_mem {α ε : Type*} {trace : α → Option (List ε)} {as : List α} {es : List ε}
    (h : traceAll trace as = some es) {a : α} (ha : a ∈ as) : ∃ e, trace a = some e := by
  induction as generalizing es with
  | nil => cases ha
  | cons b as ih =>
    rw [traceAll] at h
    obtain ⟨e, he, h⟩ := Option.bind_eq_some_iff.mp h
    obtain ⟨e', he', -⟩ := Option.bind_eq_some_iff.mp h
    rcases List.mem_cons.mp ha with rfl | ha
    · exact ⟨e, he⟩
    · exact ih he' ha

/-- What a fold begins with does not count if some step does not look at it. -/
theorem foldl_congr_init {α β : Type*} {f : β → α → β} {as : List α} {b b' : β}
    (h : (∃ a ∈ as, ∀ b b', f b a = f b' a) ∨ b = b') : as.foldl f b = as.foldl f b' := by
  induction as generalizing b b' with
  | nil =>
    obtain ⟨a, ha, -⟩ | rfl := h
    · cases ha
    · rfl
  | cons a as ih =>
    refine ih ?_
    obtain ⟨a', ha, hf⟩ | rfl := h
    · obtain rfl | ha := List.mem_cons.mp ha
      · exact .inr (hf b b')
      · exact .inl ⟨a', ha, hf⟩
    · exact .inr rfl

/-- The default size does not depend on what was carried, when a `tfhd` gives one. -/
theorem carriedDefault_congr {d d' : ℕ} {children : List Mp4Atom}
    (h : (∃ c ∈ children, c.atomType = .tfhd ∧ (tfhdDefaultSampleSize c.data).isSome) ∨ d = d') :
    carriedDefault d children = carriedDefault d' children := by
  refine foldl_congr_init (h.imp_left fun ⟨c, hc, ht, hsize⟩ => ⟨c, hc, fun d d' => ?_⟩)
  obtain ⟨size, hs⟩ := Option.isSome_iff_exists.mp hsize
  rw [if_pos ht, if_pos ht, hs, Option.getD_some, Option.getD_some]

theorem carriedSizes_congr {z z' : List ℕ} {children : List Mp4Atom}
    (h : (∃ c ∈ children, c.atomType = .trun ∧ 8 ≤ c.data.length) ∨ z = z') :
    carriedSizes z children = carriedSizes z' children :=
  foldl_congr_init (h.imp_left fun ⟨c, hc, ht⟩ =>
    ⟨c, hc, fun z z' => by rw [if_pos ht, if_pos ht]⟩)

/-- A `traf` without a `senc` has no sample info; that of others depends on the IV size and the
constant IV that the `senc` is read with. -/
theorem sencInfo_eq_of {s s' : Mp4Decrypter} {children : List Mp4Atom}
    (h : hasSenc children → s'.defaultIvSize = s.defaultIvSize ∧
      sencConstantIv s' = sencConstantIv s) :
    sencInfo s' children = sencInfo s children := by
  by_cases hs : hasSenc children = true
  · obtain ⟨hsize, hiv⟩ := h hs
    have hsenc : parseSenc s' = parseSenc s := by
      funext c
      unfold parseSenc
      rw [hsize, hiv]
    rw [sencInfo, hsenc, sencInfo]
  · have hnone : ∀ (s : Mp4Decrypter) (infos : List SampleInfo), children.foldl
        (fun i c => if c.atomType = .senc then parseSenc s c else i) infos = infos := by
      intro s infos
      clear h
      induction children with
      | nil => rfl
      | cons c rest ih =>
        unfold hasSenc at hs ih
        rw [List.any_cons, Bool.or_eq_true, not_or] at hs
        rw [List.foldl_cons, if_neg (by simpa using hs.1)]
        exact ih hs.2
    rw [sencInfo, hnone, sencInfo, hnone]

section Alone

variable {keyMap : KeyMap} {moov trak : Mp4Atom} {earlier : List Mp4Atom} {moof : Mp4Atom}
  {before after : List (List Mp4Atom)} {children : List Mp4Atom} {s : Mp4Decrypter}

/-- The key of a track, when the KIDs agree. -/
theorem getKeyForTrack_of_kid {s s' : Mp4Decrypter} {t : ℕ} (hkeys : s'.keyMap = s.keyMap)
    (hkid : s'.extractedKids t = s.extractedKids t) :
    getKeyForTrack s' t = getKeyForTrack s t := by
  unfold getKeyForTrack getCurrentKey
  rw [hkeys, hkid]

/-- The records of a `traf` after different setups, when what it uses of them agrees. -/
theorem trafRecord_of_keepsApart {own all : List SetupEvent} {prior : List Mp4Atom}
    {s₁ : Mp4Decrypter} (hcarries : Carries (all.foldl applySetup (new keyMap)) s₁ prior)
    (h : KeepsApart (trackIdOf children) own all prior children) :
    trafRecord s₁ children = trafRecord (own.foldl applySetup (new keyMap)) children := by
  have hscheme : ∀ es, (List.foldl applySetup (new keyMap) es).encryptionScheme = schemeOf es :=
    fun es => encryptionScheme_applySetup _ es
  have hiv : ∀ es, (List.foldl applySetup (new keyMap) es).defaultIvSize = ivSizeOf es :=
    fun es => defaultIvSize_applySetup _ es
  have hconst : ∀ es, (List.foldl applySetup (new keyMap) es).constantIv = constantIvOf es :=
    fun es => (constantIv_applySetup _ es).trans (Option.or_none)
  have hpat : ∀ es, ((List.foldl applySetup (new keyMap) es).cryptByteBlock,
      (List.foldl applySetup (new keyMap) es).skipByteBlock) = patternOf es :=
    fun es => pattern_applySetup _ es
  have hsettings : ∀ es, (List.foldl applySetup (new keyMap) es).trackEncryptionSettings
      (trackIdOf children) = settingsOf (trackIdOf children) es :=
    fun es => (trackEncryptionSettings_applySetup _ _ es).trans Option.or_none
  have hkid : ∀ es, (List.foldl applySetup (new keyMap) es).extractedKids (trackIdOf children)
      = kidOf (trackIdOf children) es :=
    fun es => (extractedKids_applySetup _ _ es).trans Option.or_none
  -- the fields that a traf reads from the `moov`
  have hkey : getKeyForTrack s₁ (trackIdOf children)
      = getKeyForTrack (own.foldl applySetup (new keyMap)) (trackIdOf children) := by
    rw [getKeyForTrack_congr hcarries.setup]
    exact getKeyForTrack_of_kid ((kept_applySetup _ all).1.trans (kept_applySetup _ own).1.symm)
      (by rw [hkid, hkid, h.kid])
  have hpattern : trackPattern s₁ (trackIdOf children)
      = trackPattern (own.foldl applySetup (new keyMap)) (trackIdOf children) := by
    rw [trackPattern_congr hcarries.setup]
    unfold trackPattern
    rw [hsettings, hsettings, h.settings]
    cases hset : settingsOf (trackIdOf children) own with
    | some t => rfl
    | none =>
      obtain ⟨hp, hc⟩ := h.pattern hset
      have hpair := (hpat all).trans (hp.trans (hpat own).symm)
      rw [Prod.mk.injEq] at hpair
      simp only
      rw [hpair.1, hpair.2, hconst, hconst, hc]
  have hsenc : sencInfo s₁ children
      = sencInfo (own.foldl applySetup (new keyMap)) children := by
    rw [sencInfo_congr hcarries.setup]
    refine sencInfo_eq_of fun hs => ⟨by rw [hiv, hiv, h.ivSize hs], ?_⟩
    unfold sencConstantIv
    rw [hscheme, hscheme, hconst, hconst, h.scheme]
    by_cases hcbcs : schemeOf own = .cbcs
    · rw [h.sencIv hs hcbcs]
    · rw [if_neg hcbcs, if_neg hcbcs]
  -- the sizes that a traf may take from those before it
  have hsizes : carriedSizes s₁.trunSampleSizes children
      = carriedSizes (own.foldl applySetup (new keyMap)).trunSampleSizes children := by
    rw [hcarries.sizes, (kept_applySetup _ all).2.2, (kept_applySetup _ own).2.2]
    exact carriedSizes_congr h.sizes
  have hdefault : (if hasTfhd children then carriedDefault s₁.defaultSampleSize children else 0)
      = if hasTfhd children
        then carriedDefault (own.foldl applySetup (new keyMap)).defaultSampleSize children
        else 0 := by
    rw [hcarries.default, (kept_applySetup _ all).2.1, (kept_applySetup _ own).2.1]
    by_cases ht : hasTfhd children = true
    · rw [if_pos ht, if_pos ht]
      exact carriedDefault_congr (h.default ht)
    · rw [if_neg ht, if_neg ht]
  rw [trafRecord_eq, trafRecord_eq, hkey, hpattern, hsenc, hsizes, hdefault]

end Alone

/-! ### Two tracks -/

def tkhdOf (id : ℕ) : Mp4Atom := ⟨.tkhd, List.replicate 12 0 ++ toBe 4 id⟩

def tencOf (ivSize : UInt8) : Mp4Atom := ⟨.tenc, List.replicate 7 0 ++ [ivSize]⟩

/-- The box `tag` around the boxes `kids`, with `head` in front of them. -/
def boxAround (tag : FourCC) (head : Bytes) (kids : List Mp4Atom) : Mp4Atom :=
  ⟨tag, head ++ kids.flatMap Mp4Atom.pack⟩

/-- An encrypted audio track with IVs of `ivSize` bytes. -/
def trakOf (id : ℕ) (ivSize : UInt8) : Mp4Atom :=
  boxAround .trak [] [tkhdOf id, boxAround .mdia [] [boxAround .minf [] [boxAround .stbl []
    [boxAround .stsd (toBe 4 0 ++ toBe 4 1) [boxAround (.lit 'e' 'n' 'c' 'a') (List.replicate 28 0)
      [boxAround .sinf [] [boxAround .schi [] [tencOf ivSize]]]]]]]]

/-- Audio tracks 1 and 2, with IVs of `ivSize₁` and `ivSize₂` bytes. -/
def twoTracks (ivSize₁ ivSize₂ : UInt8) : Mp4Atom :=
  boxAround .moov [] [trakOf 1 ivSize₁, trakOf 2 ivSize₂]

/-- A `traf` of track `id` with one sample of one byte and an IV of 8 bytes. -/
def shortIvTraf (id : ℕ) : List Mp4Atom :=
  [⟨.tfhd, toBe 4 0 ++ toBe 4 id⟩, trunOfOnes 100 1, ⟨.senc, toBe 4 0 ++ toBe 4 1 ++ toBe 8 0⟩]

/-- A `moof` with one such `traf` for each of the tracks. -/
def shortIvMoof (ids : List ℕ) : Mp4Atom :=
  boxAround .moof [] (ids.map fun id => ⟨.traf, (shortIvTraf id).flatMap Mp4Atom.pack⟩)

end Mp4Decrypter
end MediaFlow
