import MediaFlow.Drm.TrafRecord
import MediaFlow.Lib.Patches

/-!
# Samples in their places

A fragment says where its samples are: `protectedSamples` reads from a `moof`, `trun` by `trun`,
the byte range of every sample that has a key and encryption data. `DecryptedInPlace` is what
decryption is for: every such range holds its decrypted sample, and every other byte is as it was.

`decrypt_mdat` finds the ranges in another way: it keeps the sizes of the last `trun` of a `traf`
only, replaces a size of 0 by a default size that may come from an earlier `traf`, and takes the
`traf` with the smallest data offset for the beginning of the `mdat`. `ReadsAsLaidOut` says when
this gives the ranges of the fragment.

* `trackLoop_eq`, `tracksLoop_eq`: the loops over tracks and samples patch the ranges that the
  records give;
* `trackSamples_trafRecord`: the ranges of a record are those of its `traf`.
-/

open ByteString Emit

namespace MediaFlow

/-- A protected sample: its range in the `mdat`, and what it is decrypted with. -/
structure PlacedSample where
  start : ℕ
  size : ℕ
  info : SampleInfo
  key : Bytes
  cryptByteBlock : ℕ
  skipByteBlock : ℕ
  constantIv : Option Bytes
deriving DecidableEq

namespace PlacedSample

def Covers (x : PlacedSample) (i : ℕ) : Prop := x.start ≤ i ∧ i < x.start + x.size

instance (x : PlacedSample) (i : ℕ) : Decidable (x.Covers i) := inferInstanceAs (Decidable (_ ∧ _))

variable (aes : BlockCipher) (scheme : EncScheme) (mdat : Bytes)

/-- The decrypted sample. -/
def decrypted (x : PlacedSample) : Option Bytes :=
  decryptSample aes ((mdat.drop x.start).take x.size) x.info x.key scheme x.cryptByteBlock
    x.skipByteBlock x.constantIv

/-- The sample lies in the `mdat`, and decrypting it does not abort. -/
def Fits (x : PlacedSample) : Prop :=
  x.start + x.size ≤ mdat.length ∧ (x.size ≠ 0 → (x.decrypted aes scheme mdat).isSome)

instance (x : PlacedSample) : Decidable (x.Fits aes scheme mdat) :=
  inferInstanceAs (Decidable (_ ∧ _))

end PlacedSample

/-- **Decrypted in place.** A byte that exactly one protected sample covers is the byte of that
sample decrypted, a byte that none covers is the input byte. -/
def DecryptedInPlace (aes : BlockCipher) (scheme : EncScheme) (samples : List PlacedSample)
    (mdat out : Bytes) : Prop :=
  out.length = mdat.length ∧ ∀ i,
    (∀ x ∈ samples, x.Covers i → samples.countP (fun y => y.Covers i) = 1 →
      ∃ dec, x.decrypted aes scheme mdat = some dec ∧ out[i]? = dec[i - x.start]?) ∧
    ((∀ x ∈ samples, ¬ x.Covers i) → out[i]? = mdat[i]?)

namespace Mp4Decrypter

/-! ### Where the samples of a fragment are -/

/-- The sample sizes of a `trun`: those it gives, or the default. -/
def runSampleSizes (default : ℕ) (trun : Bytes) : List ℕ :=
  if (beAt trun 0 4).testBit 9 then trunSizes trun else List.replicate (beAt trun 4 4) default

/-- Samples of the given sizes, one after the other from `start` on. -/
def runSamples (start : ℤ) : List ℕ → List (ℤ × ℕ)
  | [] => []
  | z :: zs => (start, z) :: runSamples (start + z) zs

def trunsOfTraf (children : List Mp4Atom) : List Mp4Atom :=
  children.filter fun c => c.atomType = .trun

/-- The default sample size of a `traf`: that of its `tfhd`, or else that of the `trex` of its
track. -/
def defaultSize (trex : ℕ → ℕ) (children : List Mp4Atom) : ℕ :=
  (((children.filter fun c => c.atomType = .tfhd).getLast?.bind fun c =>
    tfhdDefaultSampleSize c.data)).getD (trex (trackIdOf children))

/-- Offset from the first byte of the `moof`, and size, of every sample of a `traf`. -/
def trafSamples (trex : ℕ → ℕ) (children : List Mp4Atom) : List (ℤ × ℕ) :=
  (trunsOfTraf children).flatMap fun t =>
    runSamples (trunDataOffset t.data) (runSampleSizes (defaultSize trex children) t.data)

/-- The samples at `(offset, size)`, in an `mdat` whose payload starts at `mdatStart`. -/
def place (mdatStart : ℕ) (pattern : ℕ × ℕ × Option Bytes) (key : Bytes)
    (samples : List (ℤ × ℕ)) (infos : List SampleInfo) : List PlacedSample :=
  (samples.zip infos).map fun p =>
    { start := (p.1.1 - (mdatStart : ℤ)).toNat
      size := p.1.2
      info := p.2
      key := key
      cryptByteBlock := pattern.1
      skipByteBlock := pattern.2.1
      constantIv := pattern.2.2 }

/-- The samples of a `traf` that have a key and encryption data. -/
def protectedSamples (s : Mp4Decrypter) (trex : ℕ → ℕ) (mdatStart : ℕ) (children : List Mp4Atom) :
    List PlacedSample :=
  match getKeyForTrack s (trackIdOf children) with
  | none => []
  | some key => place mdatStart (trackPattern s (trackIdOf children)) key
      (trafSamples trex children) (sencInfo s children)

/-- A `traf` whose samples are to be decrypted. -/
def Protected (s : Mp4Decrypter) (children : List Mp4Atom) : Prop :=
  (getKeyForTrack s (trackIdOf children)).isSome ∧ sencInfo s children ≠ []

instance (s : Mp4Decrypter) (children : List Mp4Atom) : Decidable (Protected s children) :=
  inferInstanceAs (Decidable (_ ∧ _))

/-- What the fragment itself has to give: encryption data for all samples of a protected `traf`,
and ranges inside the `mdat` that can be decrypted. -/
structure WellPlaced (aes : BlockCipher) (s : Mp4Decrypter) (trex : ℕ → ℕ) (mdatStart : ℕ)
    (mdat : Bytes) (children : List Mp4Atom) : Prop where
  covered : Protected s children → (sencInfo s children).length = (trafSamples trex children).length
  after : Protected s children → ∀ p ∈ trafSamples trex children, (mdatStart : ℤ) ≤ p.1
  fits : ∀ x ∈ protectedSamples s trex mdatStart children, x.Fits aes s.encryptionScheme mdat

/-! ### How the decrypter finds them -/

/-- The size that stands for `given` in the sample loop. -/
def usedSize (default given : ℕ) : ℕ := if given = 0 then default else given

/-- The samples of a `traf` are all in its last `trun`, and their sizes are those the sample loop
uses with default `default`. -/
def TrafReads (trex : ℕ → ℕ) (default : ℕ) (children : List Mp4Atom) : Prop :=
  ∃ earlier last, trunsOfTraf children = earlier ++ [last] ∧
    (∀ t ∈ earlier, beAt t.data 4 4 = 0) ∧ 8 ≤ last.data.length ∧
    runSampleSizes (defaultSize trex children) last.data
      = (trunSizes last.data).map (usedSize default)

/-- The default size the sample loop uses for a `traf`; `d` is that of the last `tfhd` before it
that had one. -/
def usedDefault (d : ℕ) (children : List Mp4Atom) : ℕ :=
  if hasTfhd children then carriedDefault d children else 0

/-- Every protected `traf` is read as it is laid out; `d` is the default size of the last `tfhd`
before these `traf`s that had one. -/
def ReadsAsLaidOut (s : Mp4Decrypter) (trex : ℕ → ℕ) : ℕ → List (List Mp4Atom) → Prop
  | _, [] => True
  | d, children :: rest =>
    (Protected s children →
      TrafReads trex (usedDefault d children) children) ∧
    ReadsAsLaidOut s trex (carriedDefault d children) rest

/-- The smallest data offset of the `traf`s is the beginning of the `mdat`. -/
def StartsAtLeast (mdatStart : ℕ) (trafs : List (List Mp4Atom)) : Prop :=
  (∀ children ∈ trafs, (mdatStart : ℤ) ≤ runOffset children) ∧
    ∃ children ∈ trafs, runOffset children = mdatStart

/-! ### The sample loop -/

section SampleLoop

variable (aes : BlockCipher) (scheme : EncScheme) (mdat : Bytes)

/-- What decrypting a sample writes. -/
def patchOf (x : PlacedSample) : Patch := ⟨x.start, (x.decrypted aes scheme mdat).getD []⟩

theorem place_cons (mdatStart : ℕ) (pattern : ℕ × ℕ × Option Bytes) (key : Bytes) (p : ℤ × ℕ)
    (ps : List (ℤ × ℕ)) (info : SampleInfo) (infos : List SampleInfo) :
    place mdatStart pattern key (p :: ps) (info :: infos)
      = { start := (p.1 - (mdatStart : ℤ)).toNat, size := p.2, info := info, key := key
          cryptByteBlock := pattern.1, skipByteBlock := pattern.2.1, constantIv := pattern.2.2 }
        :: place mdatStart pattern key ps infos := rfl

/-- Decrypting an empty sample writes nothing. -/
theorem patchOf_of_size_eq_zero {x : PlacedSample} (h : x.size = 0) :
    (patchOf aes scheme mdat x).bytes = [] := by
  unfold patchOf
  cases hd : x.decrypted aes scheme mdat with
  | none => rfl
  | some dec =>
    have hlen := length_decryptSample aes hd
    rw [h, List.take_zero, List.length_nil] at hlen
    exact List.length_eq_zero_iff.mp hlen

/-- A sample that fits is written over its own range. -/
theorem length_patchOf {x : PlacedSample} (h : x.Fits aes scheme mdat) :
    (patchOf aes scheme mdat x).bytes.length = x.size := by
  by_cases hz : x.size = 0
  · rw [patchOf_of_size_eq_zero aes scheme mdat hz, hz]
    rfl
  · obtain ⟨dec, hd⟩ := Option.isSome_iff_exists.mp (h.2 hz)
    have hlen := length_decryptSample aes hd
    rw [List.length_take, List.length_drop] at hlen
    unfold patchOf
    rw [hd, Option.getD_some, hlen]
    have := h.1
    omega

/-- **The loop over the samples of a track** patches the ranges of its samples, one after the other
from `pos` on, when they fit into the `mdat`. -/
theorem trackLoop_eq (track : TrackInfo) (key : Bytes) (mdatStart : ℕ) (infos : List SampleInfo)
    (i pos : ℕ) (decrypted : Bytes)
    (hlen : infos.length = (track.sampleSizes.drop i).length)
    (hfits : ∀ x ∈ place mdatStart
      (track.cryptByteBlock, track.skipByteBlock, track.constantIv) key
      (runSamples (mdatStart + pos)
        ((track.sampleSizes.drop i).map (usedSize track.defaultSampleSize))) infos,
      x.Fits aes scheme mdat) :
    trackLoop aes scheme mdat track key infos i pos decrypted
      = some (Patch.applyAll decrypted ((place mdatStart
          (track.cryptByteBlock, track.skipByteBlock, track.constantIv) key
          (runSamples (mdatStart + pos)
            ((track.sampleSizes.drop i).map (usedSize track.defaultSampleSize))) infos).map
          (patchOf aes scheme mdat))) := by
  induction infos generalizing i pos decrypted with
  | nil =>
    have hnil : track.sampleSizes.drop i = [] := List.length_eq_zero_iff.mp hlen.symm
    rw [hnil]
    rfl
  | cons info infos ih =>
    obtain ⟨g, gs, hdrop⟩ := List.exists_cons_of_length_pos
      (by rw [← hlen]; exact Nat.succ_pos _ : 0 < (track.sampleSizes.drop i).length)
    have hget : track.sampleSizes.getD i 0 = g := by
      rw [List.getD_eq_getElem?_getD, ← Nat.add_zero i, ← List.getElem?_drop, hdrop]
      rfl
    have hgs : track.sampleSizes.drop (i + 1) = gs := by
      rw [← List.drop_drop, hdrop]
      rfl
    rw [hdrop, List.map_cons, runSamples, place_cons] at hfits
    rw [hdrop, List.length_cons, List.length_cons] at hlen
    rw [hdrop, List.map_cons, runSamples, place_cons, List.map_cons, Patch.applyAll_cons, trackLoop,
      hget]
    simp only
    have hx := hfits _ List.mem_cons_self
    have hrest : ∀ pos' : ℕ, (pos' : ℤ) = pos + usedSize track.defaultSampleSize g →
        ∀ d, trackLoop aes scheme mdat track key infos (i + 1) pos' d = some (Patch.applyAll d
          ((place mdatStart (track.cryptByteBlock, track.skipByteBlock, track.constantIv) key
            (runSamples (mdatStart + pos + usedSize track.defaultSampleSize g)
              (gs.map (usedSize track.defaultSampleSize))) infos).map
            (patchOf aes scheme mdat))) := by
      intro pos' hpos' d
      have h := ih (i + 1) pos' d (by rw [hgs]; omega)
      rw [hgs, hpos', ← add_assoc] at h
      exact h fun x hx => hfits x (List.mem_cons_of_mem _ hx)
    have hstart : ((mdatStart + pos : ℤ) - mdatStart).toNat = pos := by omega
    by_cases hskip : g = 0 ∧ track.defaultSampleSize = 0
    · -- a sample without a size is skipped
      have hz : usedSize track.defaultSampleSize g = 0 := by
        rw [usedSize, if_pos hskip.1, hskip.2]
      rw [if_pos hskip, patchOf_of_size_eq_zero aes scheme mdat hz, Patch.patch_nil]
      exact hrest pos (by rw [hz]; rfl) decrypted
    · have hnz : usedSize track.defaultSampleSize g ≠ 0 := by
        unfold usedSize
        split
        · next hg => exact fun hd => hskip ⟨hg, hd⟩
        · next hg => exact hg
      obtain ⟨dec, hdec⟩ := Option.isSome_iff_exists.mp (hx.2 hnz)
      have hroom := hx.1
      have hdlen := length_patchOf aes scheme mdat hx
      rw [patchOf, hdec, Option.getD_some] at hdlen
      rw [patchOf, hdec, Option.getD_some]
      unfold PlacedSample.decrypted at hdec
      simp only [hstart] at hroom hdec hdlen ⊢
      have hsize : (if g = 0 then track.defaultSampleSize else g)
          = usedSize track.defaultSampleSize g := rfl
      rw [if_neg hskip, hsize, if_neg (by omega), hdec]
      simp only [Option.bind_eq_bind, Option.bind_some]
      rw [List.take_of_length_le (le_of_eq hdlen)]
      exact hrest (pos + usedSize track.defaultSampleSize g) (by push_cast; rfl) _

/-- The samples that the decrypter makes of a record. -/
def trackSamples (mdatStart : ℕ) (t : TrackInfo) : List PlacedSample :=
  match t.key with
  | none => []
  | some key => place mdatStart (t.cryptByteBlock, t.skipByteBlock, t.constantIv) key
      (runSamples t.dataOffset (t.sampleSizes.map (usedSize t.defaultSampleSize))) t.sampleInfo

/-- The sample loop over this record finds its samples, when it has any. -/
structure TrackReady (mdatStart : ℕ) (first : ℤ) (t : TrackInfo) : Prop where
  start : (mdatStart + mdatPosStart t first : ℤ) = t.dataOffset
  covered : t.sampleInfo.length = t.sampleSizes.length
  fits : ∀ x ∈ trackSamples mdatStart t, x.Fits aes scheme mdat

theorem tracksLoop_eq (mdatStart : ℕ) (first : ℤ) (tracks : List TrackInfo) (decrypted : Bytes)
    (h : ∀ t ∈ tracks, t.key.isSome → t.sampleInfo ≠ [] →
      TrackReady aes scheme mdat mdatStart first t) :
    tracksLoop aes scheme mdat first tracks decrypted
      = some (Patch.applyAll decrypted
          ((tracks.flatMap (trackSamples mdatStart)).map (patchOf aes scheme mdat))) := by
  induction tracks generalizing decrypted with
  | nil => rfl
  | cons t tracks ih =>
    have hrest := fun d => ih d fun u hu => h u (List.mem_cons_of_mem t hu)
    have ht := h t List.mem_cons_self
    rw [tracksLoop, List.flatMap_cons, List.map_append, Patch.applyAll_append]
    cases hkey : t.key with
    | none =>
      have hnone : trackSamples mdatStart t = [] := by rw [trackSamples, hkey]
      rw [hnone]
      exact hrest decrypted
    | some key =>
      simp only
      by_cases hinfo : t.sampleInfo = []
      · have hnone : trackSamples mdatStart t = [] := by
          rw [trackSamples, hkey, hinfo]
          simp only [place, List.zip_nil_right, List.map_nil]
        rw [if_pos hinfo, hnone]
        exact hrest decrypted
      · obtain ⟨hstart, hcov, hfits⟩ := ht (by rw [hkey]; rfl) hinfo
        rw [trackSamples, hkey, ← hstart] at hfits
        have hloop := trackLoop_eq aes scheme mdat t key mdatStart t.sampleInfo 0
          (mdatPosStart t first) decrypted (by rw [List.drop_zero, hcov])
          (by rw [List.drop_zero]; exact hfits)
        rw [List.drop_zero, hstart] at hloop
        rw [if_neg hinfo, hloop, trackSamples, hkey]
        exact hrest _

end SampleLoop

/-! ### Records and layout -/

theorem getKeyForTrack_congr {s s' : Mp4Decrypter} (h : SameSetup s s') (id : ℕ) :
    getKeyForTrack s' id = getKeyForTrack s id := by
  unfold getKeyForTrack getCurrentKey
  rw [h.keyMap, h.extractedKids]

theorem trackPattern_congr {s s' : Mp4Decrypter} (h : SameSetup s s') (id : ℕ) :
    trackPattern s' id = trackPattern s id := by
  unfold trackPattern
  rw [h.trackEncryptionSettings, h.cryptByteBlock, h.skipByteBlock, h.constantIv]

theorem sencInfo_congr {s s' : Mp4Decrypter} (h : SameSetup s s') (children : List Mp4Atom) :
    sencInfo s' children = sencInfo s children := by
  have hsenc : parseSenc s' = parseSenc s := by
    funext c
    unfold parseSenc sencConstantIv
    rw [h.defaultIvSize, h.encryptionScheme, h.constantIv]
  rw [sencInfo, hsenc, sencInfo]

/-- A loop that looks at the `trun`s only. -/
theorem foldl_trunsOfTraf {β : Type*} (f : β → Mp4Atom → β) (b : β) (children : List Mp4Atom) :
    children.foldl (fun b c => if c.atomType = .trun then f b c else b) b
      = (trunsOfTraf children).foldl f b := by
  unfold trunsOfTraf
  rw [List.foldl_filter]
  simp only [decide_eq_true_eq]

section LastTrun

variable {children earlier : List Mp4Atom} {last : Mp4Atom}
  (h : trunsOfTraf children = earlier ++ [last])
include h

theorem runOffset_of_last (hlen : 8 ≤ last.data.length) :
    runOffset children = trunDataOffset last.data := by
  rw [runOffset, foldl_trunsOfTraf (fun _ c =>
    if c.data.length < 8 then 0 else trunDataOffset c.data), h, List.foldl_append,
    List.foldl_cons, List.foldl_nil, if_neg (by omega)]

theorem carriedSizes_of_last (hlen : 8 ≤ last.data.length) (z : List ℕ) :
    carriedSizes z children = trunSizes last.data := by
  have hloop : carriedSizes z children = children.foldl (fun z c =>
      if c.atomType = .trun then if 8 ≤ c.data.length then trunSizes c.data else z else z) z := by
    unfold carriedSizes
    congr 1
    funext z c
    by_cases ht : c.atomType = .trun <;> by_cases h8 : 8 ≤ c.data.length <;> simp [ht, h8]
  rw [hloop, foldl_trunsOfTraf (fun z c => if 8 ≤ c.data.length then trunSizes c.data else z), h,
    List.foldl_append, List.foldl_cons, List.foldl_nil, if_pos hlen]

end LastTrun

theorem trunSizesFrom_length (data : Bytes) (flags n off : ℕ) :
    (trunSizesFrom data flags n off).length = n := by
  induction n generalizing off with
  | zero => rfl
  | succ n ih => rw [trunSizesFrom, List.length_cons, ih]

/-- A `trun` without samples places none. -/
theorem runSampleSizes_of_count_eq_zero {trun : Bytes} (h : beAt trun 4 4 = 0) (d : ℕ) :
    runSampleSizes d trun = [] := by
  unfold runSampleSizes
  split
  · refine List.length_eq_zero_iff.mp ?_
    rw [trunSizes, trunSizesFrom_length, h]
  · rw [h]
    rfl

theorem length_runSamples (start : ℤ) (sizes : List ℕ) :
    (runSamples start sizes).length = sizes.length := by
  induction sizes generalizing start with
  | nil => rfl
  | cons z zs ih => rw [runSamples, List.length_cons, ih, List.length_cons]

/-- A `traf` that is read as it is laid out: its samples are those of its last `trun`, with the
sizes that are used. -/
theorem trafSamples_of_reads {trex : ℕ → ℕ} {d : ℕ} {children : List Mp4Atom}
    (h : TrafReads trex d children) (z : List ℕ) :
    trafSamples trex children
      = runSamples (runOffset children) ((carriedSizes z children).map (usedSize d)) := by
  obtain ⟨earlier, last, htruns, hempty, hlen, hsizes⟩ := h
  have hnone : earlier.flatMap (fun t => runSamples (trunDataOffset t.data)
      (runSampleSizes (defaultSize trex children) t.data)) = [] := by
    rw [List.flatMap_eq_nil_iff]
    intro t ht
    rw [runSampleSizes_of_count_eq_zero (hempty t ht)]
    rfl
  rw [trafSamples, htruns, List.flatMap_append, hnone, List.nil_append, List.flatMap_cons,
    List.flatMap_nil, List.append_nil, hsizes, runOffset_of_last htruns hlen,
    carriedSizes_of_last htruns hlen]

theorem not_protected_iff {s : Mp4Decrypter} {children : List Mp4Atom} :
    ¬ Protected s children ↔
      getKeyForTrack s (trackIdOf children) = none ∨ sencInfo s children = [] := by
  unfold Protected
  rw [not_and_or, not_not, Bool.not_eq_true, Option.isSome_eq_false_iff, Option.isNone_iff_eq_none]

theorem protectedSamples_of_not_protected {s : Mp4Decrypter} {trex : ℕ → ℕ} {mdatStart : ℕ}
    {children : List Mp4Atom} (h : ¬ Protected s children) :
    protectedSamples s trex mdatStart children = [] := by
  unfold protectedSamples
  rcases not_protected_iff.mp h with hkey | hinfo
  · rw [hkey]
  · cases getKeyForTrack s (trackIdOf children) with
    | none => rfl
    | some key => simp only [place, hinfo, List.zip_nil_right, List.map_nil]

/-- **What is recorded is what is laid out.** -/
theorem trackSamples_trafRecord {s₀ s : Mp4Decrypter} (hs : SameSetup s₀ s) {trex : ℕ → ℕ}
    {mdatStart : ℕ} {children : List Mp4Atom}
    (h : Protected s₀ children →
      TrafReads trex (usedDefault s.defaultSampleSize children) children) :
    trackSamples mdatStart (trafRecord s children)
      = protectedSamples s₀ trex mdatStart children := by
  rw [trafRecord_eq, getKeyForTrack_congr hs, trackPattern_congr hs, sencInfo_congr hs]
  by_cases hp : Protected s₀ children
  · unfold trackSamples protectedSamples
    rw [trafSamples_of_reads (h hp) s.trunSampleSizes]
    rfl
  · rw [protectedSamples_of_not_protected hp]
    unfold trackSamples
    rcases not_protected_iff.mp hp with hkey | hinfo
    · rw [hkey]
    · cases getKeyForTrack s₀ (trackIdOf children) with
      | none => rfl
      | some key => simp only [place, hinfo, List.zip_nil_right, List.map_nil]

end Mp4Decrypter
end MediaFlow
