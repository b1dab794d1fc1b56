import MediaFlow.Drm.InPlace
import MediaFlow.Drm.SampleEncryption
import MediaFlow.Drm.SegmentPaths

/-!
# Encrypted media

A media file is encrypted sample by sample (`EncryptedMedia`): the `mdat` of each fragment holds the
encrypted samples in their ranges, and its `moof` says where they are and how they are encrypted.
`decryptsMedia` says what the stream makes of it: the media before encryption.

The decryption of a fragment is that of its samples in place (`inPlace_of_processMoof`), and each of
them is taken back by `decryptSample_of_encrypted`.
-/

open ByteString Text

namespace MediaFlow

/-! ### One fragment -/

/-- The samples of an `mdat` are encrypted in their ranges, which do not overlap, and all else stays. -/
structure EncryptedInPlace (aes : BlockCipher) (scheme : EncScheme) (samples : List PlacedSample)
    (plain enc : Bytes) : Prop where
  length : enc.length = plain.length
  inside : ∀ x ∈ samples, x.start + x.size ≤ plain.length
  apart : ∀ i, samples.countP (fun x => x.Covers i) ≤ 1
  encrypted : ∀ x ∈ samples, SampleEncrypted aes x.info x.key x.cryptByteBlock x.skipByteBlock
    x.constantIv scheme ((plain.drop x.start).take x.size) ((enc.drop x.start).take x.size)
  kept : ∀ i, (∀ x ∈ samples, ¬ x.Covers i) → enc[i]? = plain[i]?

/-- The sample is one that the decrypter reads as its scheme has it. -/
def PlacedSample.Reads (scheme : EncScheme) (x : PlacedSample) : Prop :=
  SampleReads x.info x.key x.cryptByteBlock x.skipByteBlock scheme x.size

section InPlace

variable {aes : BlockCipher} {scheme : EncScheme} {samples : List PlacedSample} {plain enc : Bytes}
  (hinv : ∀ key b, aes.decryptBlock key (aes.encryptBlock key b) = b)
  (h : EncryptedInPlace aes scheme samples plain enc)
  (hreads : ∀ x ∈ samples, x.Reads scheme)

include hinv h hreads

/-- A sample in its range. -/
theorem EncryptedInPlace.decrypted_eq {x : PlacedSample} (hx : x ∈ samples) :
    x.decrypted aes scheme enc = some ((plain.drop x.start).take x.size) := by
  have hsize : ((plain.drop x.start).take x.size).length = x.size := by
    have hinside := h.inside x hx
    rw [List.length_take, List.length_drop]
    omega
  have hsample := hreads x hx
  unfold PlacedSample.Reads at hsample
  rw [← hsize] at hsample
  exact decryptSample_of_encrypted (hinv x.key) hsample (h.encrypted x hx)

theorem EncryptedInPlace.fits {x : PlacedSample} (hx : x ∈ samples) : x.Fits aes scheme enc := by
  refine ⟨h.length ▸ h.inside x hx, fun _ => ?_⟩
  rw [h.decrypted_eq hinv hreads hx]
  rfl

/-- **What is encrypted in place** and decrypted in place is as it was. -/
theorem EncryptedInPlace.eq_of_decrypted {out : Bytes}
    (hout : DecryptedInPlace aes scheme samples enc out) : out = plain := by
  refine List.ext_getElem? fun i => ?_
  by_cases hcover : ∃ x ∈ samples, x.Covers i
  · obtain ⟨x, hx, hi⟩ := hcover
    have hone : samples.countP (fun y => y.Covers i) = 1 := by
      have hpos : 0 < samples.countP fun y => y.Covers i :=
        List.countP_pos_iff.mpr ⟨x, hx, decide_eq_true hi⟩
      have hle := h.apart i
      omega
    obtain ⟨dec, hdec, hbyte⟩ := (hout.2 i).1 x hx hi hone
    rw [h.decrypted_eq hinv hreads hx, Option.some.injEq] at hdec
    obtain ⟨hlo, hhi⟩ := hi
    rw [hbyte, ← hdec, List.getElem?_take_of_lt (by omega), List.getElem?_drop,
      Nat.add_sub_cancel' hlo]
  · have hnone : ∀ x ∈ samples, ¬ x.Covers i := fun x hx hi => hcover ⟨x, hx, hi⟩
    rw [(hout.2 i).2 hnone, h.kept i hnone]

end InPlace

namespace Mp4Decrypter

/-- The `mdat` after a `moof` is decrypted in place, where the fragment is read as it is laid out. -/
theorem inPlace_of_processMoof {aes : BlockCipher} {s s' : Mp4Decrypter} {moof moof' : Mp4Atom}
    {trex : ℕ → ℕ} {mdatStart : ℕ} {data : Bytes} (h : processMoof s moof = some (moof', s'))
    (hplaced : ∀ children ∈ MoofPart.trafs (partsOf moof),
      WellPlaced aes s trex mdatStart data children)
    (hread : ReadInPlace s trex mdatStart (MoofPart.trafs (partsOf moof))) :
    ∃ out, decryptMdat aes s' ⟨.mdat, data⟩ = some ⟨.mdat, out⟩ ∧
      DecryptedInPlace aes s.encryptionScheme
        ((MoofPart.trafs (partsOf moof)).flatMap (protectedSamples s trex mdatStart)) data out := by
  by_cases hnil : MoofPart.trafs (partsOf moof) = []
  · refine ⟨data, decryptMdat_of_noTraf h hnil (hread.nonempty hnil), rfl, fun i => ⟨?_, fun _ => rfl⟩⟩
    rw [hnil]
    exact fun x hx => absurd hx List.not_mem_nil
  have hinfos := trackInfos_processMoof h
  set trafs := MoofPart.trafs (partsOf moof)
  set entered := enterMoof s (partsOf moof)
  have hsame : SameSetup s entered := ⟨rfl, rfl, rfl, rfl, rfl, rfl, rfl, rfl, rfl⟩
  have hperm := @perm_sortedSamples s entered hsame trex mdatStart trafs hread.sizes
  have hfits : ∀ x ∈ (sortTracks (records entered trafs)).flatMap (trackSamples mdatStart),
      x.Fits aes s.encryptionScheme data := by
    intro x hx
    obtain ⟨children, hchildren, hsample⟩ := List.mem_flatMap.mp (hperm.mem_iff.mp hx)
    exact (hplaced children hchildren).fits x hsample
  cases hsort : sortTracks (records entered trafs) with
  | nil =>
    have hnone := (perm_sortTracks (records entered trafs)).symm.trans (.of_eq hsort)
    exact absurd (records_eq_nil_iff.mp hnone.eq_nil) hnil
  | cons first rest =>
    have hne : s'.trackInfos ≠ [] := by
      rw [hinfos]
      exact fun hrecords => hnil (records_eq_nil_iff.mp hrecords)
    have hloop := tracksLoop_eq aes s.encryptionScheme data mdatStart first.dataOffset
      (first :: rest) data (trackReady_records hsame hplaced hread.sizes hread.start hsort)
    rw [hsort] at hperm hfits
    refine ⟨_, ?_, (applyAll_inPlace hfits).perm hperm⟩
    rw [decryptMdat, if_pos hne, decryptMdatMultiTrack, hinfos, hsort]
    simp only
    rw [(processMoof_sameSetup h).encryptionScheme, hloop]
    rfl

end Mp4Decrypter

open Mp4Decrypter

/-- **A fragment is encrypted** as its `traf`s say, and they are read as they are laid out, with the
payload of its `mdat` at `mdatStart` from the `moof` on. -/
structure EncryptedFragment (aes : BlockCipher) (s : Mp4Decrypter) (trex : ℕ → ℕ) (mdatStart : ℕ)
    (trafs : List (List Mp4Atom)) (plain enc : Bytes) : Prop where
  covered : ∀ children ∈ trafs, Protected s children →
    (sencInfo s children).length = (trafSamples trex children).length
  after : ∀ children ∈ trafs, Protected s children →
    ∀ p ∈ trafSamples trex children, (mdatStart : ℤ) ≤ p.1
  laidOut : ReadInPlace s trex mdatStart trafs
  reads : ∀ x ∈ trafs.flatMap (protectedSamples s trex mdatStart), x.Reads s.encryptionScheme
  encrypted : EncryptedInPlace aes s.encryptionScheme
    (trafs.flatMap (protectedSamples s trex mdatStart)) plain enc

/-- **The `mdat` of an encrypted fragment** is decrypted. -/
theorem decryptMdat_of_encrypted {aes : BlockCipher}
    (hinv : ∀ key b, aes.decryptBlock key (aes.encryptBlock key b) = b) {s s' : Mp4Decrypter}
    {moof moof' : Mp4Atom} {trex : ℕ → ℕ} {mdatStart : ℕ} {plain enc : Bytes}
    (hmoof : processMoof s moof = some (moof', s'))
    (h : EncryptedFragment aes s trex mdatStart (MoofPart.trafs (partsOf moof)) plain enc) :
    decryptMdat aes s' ⟨.mdat, enc⟩ = some ⟨.mdat, plain⟩ := by
  have hplaced : ∀ children ∈ MoofPart.trafs (partsOf moof),
      WellPlaced aes s trex mdatStart enc children := fun children hchildren =>
    ⟨h.covered children hchildren, h.after children hchildren, fun x hx =>
      h.encrypted.fits hinv h.reads (List.mem_flatMap.mpr ⟨children, hchildren, hx⟩)⟩
  obtain ⟨out, hout, hdecrypted⟩ := inPlace_of_processMoof hmoof hplaced h.laidOut
  rw [hout, h.encrypted.eq_of_decrypted hinv h.reads hdecrypted]

/-! ### A media file -/

/-- Boxes that are forwarded as they are. -/
def Forwarded (a : Mp4Atom) : Prop :=
  a.atomType ≠ .moof ∧ a.atomType ≠ .mdat ∧ a.atomType ≠ .sidx

instance (a : Mp4Atom) : Decidable (Forwarded a) := inferInstanceAs (Decidable (_ ∧ _))

/-- **An encrypted media file**, and what is to be delivered for it: each `moof` without its
encryption boxes, each `mdat` as it was before encryption, no `sidx`, and all other boxes. -/
inductive EncryptedMedia (aes : BlockCipher) : Mp4Decrypter → List Mp4Atom → List Mp4Atom → Prop
  | nil (s : Mp4Decrypter) : EncryptedMedia aes s [] []
  | sidx {s : Mp4Decrypter} {index : Bytes} {boxes out : List Mp4Atom} :
    EncryptedMedia aes s boxes out → EncryptedMedia aes s (⟨.sidx, index⟩ :: boxes) out
  | forwarded {s : Mp4Decrypter} {a : Mp4Atom} {boxes out : List Mp4Atom} : Forwarded a →
    EncryptedMedia aes s boxes out → EncryptedMedia aes s (a :: boxes) (a :: out)
  | fragment {s s' : Mp4Decrypter} {moof moof' : Mp4Atom} {between boxes out : List Mp4Atom}
    {trex : ℕ → ℕ} {mdatStart : ℕ} {plain enc : Bytes} : moof.atomType = .moof →
    processMoof s moof = some (moof', s') → (∀ a ∈ between, Forwarded a) →
    EncryptedFragment aes s trex mdatStart (MoofPart.trafs (partsOf moof)) plain enc →
    EncryptedMedia aes s' boxes out →
    EncryptedMedia aes s (moof :: between ++ ⟨.mdat, enc⟩ :: boxes)
      (moof' :: between ++ ⟨.mdat, plain⟩ :: out)

section Handler

variable {aes : BlockCipher}

theorem handleBox_forwarded (s : Mp4Decrypter) {a : Mp4Atom} (h : Forwarded a) :
    handleBox aes s a = some (a.pack, s) := by
  obtain ⟨hmoof, hmdat, hsidx⟩ := h
  unfold handleBox emitBox
  rw [if_neg hsidx, if_neg hmoof, if_neg hmdat, Option.map_some, List.flatten_singleton]

theorem handleBox_moof {s s' : Mp4Decrypter} {moof moof' : Mp4Atom} (h : moof.atomType = .moof)
    (hmoof : processMoof s moof = some (moof', s')) :
    handleBox aes s moof = some (moof'.pack, s') := by
  unfold handleBox emitBox
  rw [if_neg (by rw [h]; decide), if_pos h, hmoof]
  exact congrArg some (congrArg (·, s') (List.flatten_singleton ..))

theorem handleBox_mdat {s : Mp4Decrypter} {enc plain : Bytes}
    (h : decryptMdat aes s ⟨.mdat, enc⟩ = some ⟨.mdat, plain⟩) :
    handleBox aes s ⟨.mdat, enc⟩ = some ((Mp4Atom.mk .mdat plain).pack, s) := by
  unfold handleBox emitBox
  rw [if_neg (show FourCC.mdat ≠ .sidx by decide), if_neg (show FourCC.mdat ≠ .moof by decide),
    if_pos rfl, h]
  exact congrArg some (congrArg (·, s) (List.flatten_singleton ..))

theorem handleAll_forwarded (s : Mp4Decrypter) {between boxes : List Mp4Atom}
    (h : ∀ a ∈ between, Forwarded a) :
    handleAll (handleBox aes) s (between ++ boxes) =
      (between.flatMap Mp4Atom.pack ++ (handleAll (handleBox aes) s boxes).1,
        (handleAll (handleBox aes) s boxes).2) := by
  induction between with
  | nil => rfl
  | cons a between ih =>
    obtain ⟨ha, hbetween⟩ := List.forall_mem_cons.mp h
    rw [List.cons_append, handleAll, handleBox_forwarded s ha]
    simp only [ih hbetween, List.flatMap_cons, List.append_assoc]

/-- **The stream takes box after box** of an encrypted file back. -/
theorem handleAll_of_encrypted
    (hinv : ∀ key b, aes.decryptBlock key (aes.encryptBlock key b) = b) {s : Mp4Decrypter}
    {boxes out : List Mp4Atom} (h : EncryptedMedia aes s boxes out) :
    handleAll (handleBox aes) s boxes = (out.flatMap Mp4Atom.pack, false) := by
  induction h with
  | nil s => rfl
  | sidx _ ih => exact ih
  | forwarded ha _ ih =>
    rw [handleAll, handleBox_forwarded _ ha]
    simp only [ih, List.flatMap_cons]
  | fragment htype hmoof hbetween hfragment _ ih =>
    rw [List.cons_append, handleAll, handleBox_moof htype hmoof]
    simp only [handleAll_forwarded _ hbetween]
    rw [handleAll, handleBox_mdat (decryptMdat_of_encrypted hinv hmoof hfragment)]
    simp only [ih, List.cons_append, List.flatMap_cons, List.flatMap_append]

end Handler

/-- The decrypter that a stream starts with, after what is yielded of the init segment. -/
def initPrimed (s : Mp4Decrypter) (initBytes : Bytes) (includeInit : Bool) :
    Option (Bytes × Mp4Decrypter) :=
  if includeInit then s.processInitOnly initBytes
  else (s.initFromSegment initBytes).map fun s => ([], s)

section Stream

variable {aes : BlockCipher} {initBytes cleaned : Bytes} {keyId key : Str} {includeInit : Bool}
  {s : Mp4Decrypter} {boxes out : List Mp4Atom} {chunks : List Bytes}

/-- The stream behind its init segment. -/
theorem streamOutcome_primed (hkeys : (buildKeyMapFromHex keyId key).entries ≠ [])
    (hprimed : initPrimed (.new (buildKeyMapFromHex keyId key)) initBytes includeInit =
      some (cleaned, s)) {media : Bytes}
    (hstream : streamOutcome (streamChunks aes (.running (.start s)) (chunks.map .ok)) =
      .bytes media) :
    streamOutcome (decryptSegmentStreaming aes initBytes (chunks.map .ok) keyId key includeInit) =
      .bytes (cleaned ++ media) := by
  unfold decryptSegmentStreaming
  simp only [if_neg hkeys]
  unfold initPrimed at hprimed
  cases includeInit with
  | false =>
    simp only [Bool.false_eq_true, if_false, Option.map_eq_some_iff, Prod.mk.injEq] at hprimed ⊢
    obtain ⟨s', hs', rfl, rfl⟩ := hprimed
    rw [hs', List.nil_append]
    exact hstream
  | true =>
    simp only [if_true] at hprimed ⊢
    rw [hprimed]
    unfold streamOutcome at hstream ⊢
    -- the init segment is one more item
    split at hstream
    · cases hstream
    · next hgoes =>
      split at hstream
      · next hok =>
        have hbytes := Outcome.bytes.inj hstream
        rw [if_neg hgoes, if_pos (by rw [List.all_cons, hok]; rfl), ← hbytes]
        rfl
      · cases hstream

variable (hinv : ∀ key b, aes.decryptBlock key (aes.encryptBlock key b) = b)
  (hmedia : EncryptedMedia aes s boxes out) (hfits : ∀ a ∈ boxes, a.Fits)
  (hchunks : chunks.flatten = boxes.flatMap Mp4Atom.pack)

include hinv hmedia hfits hchunks

theorem streamOutcome_of_encrypted :
    streamOutcome (streamChunks aes (.running (.start s)) (chunks.map .ok)) =
      .bytes (out.flatMap Mp4Atom.pack) := by
  have hstream := streamChunks_boxes aes s hfits hchunks
  rw [handleAll_of_encrypted hinv hmedia] at hstream
  simpa only [Bool.false_eq_true, if_false] using hstream

/-- **Encrypted media are decrypted**: the stream yields the init segment, if it is asked for, and the
media before encryption, however the file is cut into chunks. -/
theorem decryptsMedia (hkeys : (buildKeyMapFromHex keyId key).entries ≠ [])
    (hprimed : initPrimed (.new (buildKeyMapFromHex keyId key)) initBytes includeInit =
      some (cleaned, s)) :
    streamOutcome (decryptSegmentStreaming aes initBytes (chunks.map .ok) keyId key includeInit) =
      .bytes (cleaned ++ out.flatMap Mp4Atom.pack) :=
  streamOutcome_primed hkeys hprimed (streamOutcome_of_encrypted hinv hmedia hfits hchunks)

end Stream

/-! ### A file of two samples -/

/-- A cipher that adds 1 to each byte. -/
def addingOne : BlockCipher := ⟨fun _ b i => b i + 1, fun _ b i => b i - 1⟩

theorem addingOne_decryptBlock (key : Bytes) (b : Block) :
    addingOne.decryptBlock key (addingOne.encryptBlock key b) = b :=
  funext fun i => UInt8.add_sub_cancel (b i) 1

/-- The samples of `oneTrun`. -/
def sampleOfOne (start : ℕ) : PlacedSample :=
  ⟨start, 1, ⟨true, toBe 8 0, []⟩, List.replicate 16 0, 1, 9, none⟩

theorem sampleOfOne_encrypted {start : ℕ} {plain enc : Bytes} (hlen : enc.length = plain.length)
    (h : enc = addingOne.ctr (List.replicate 16 0) 0 plain) :
    SampleEncrypted addingOne (sampleOfOne start).info (sampleOfOne start).key 1 9 none .cenc plain
      enc :=
  ⟨hlen, rfl, fun _ => h, nofun⟩

theorem encryptedFragment_oneTrun :
    EncryptedFragment addingOne zeroKeyed (fun _ => 0) 100
      (MoofPart.trafs (partsOf (moofOf oneTrun))) [10, 20] [11, 21] := by
  have htrafs : MoofPart.trafs (partsOf (moofOf oneTrun)) = [oneTrun] := by decide +kernel
  have hsamples : [oneTrun].flatMap (protectedSamples zeroKeyed (fun _ => 0) 100) =
      [sampleOfOne 0, sampleOfOne 1] := by decide +kernel
  have hcovers : ∀ start i, (sampleOfOne start).Covers i ↔ i = start := fun start i =>
    (show start ≤ i ∧ i < start + 1 ↔ i = start by omega)
  rw [htrafs]
  exact {
    covered := by decide +kernel
    after := by decide +kernel
    laidOut := ⟨⟨fun _ => ⟨[], trunOfOnes 100 2, by decide +kernel⟩, trivial⟩,
      fun _ => ⟨by decide +kernel, by decide +kernel⟩, nofun⟩
    reads := by
      rw [hsamples]
      have hreads : ∀ start, (sampleOfOne start).Reads .cenc := fun start =>
        ⟨.inl rfl, .inl rfl, show 1 < 2 ^ 63 by decide, keystreamContinues_iff.mpr
          (show ContinuesFrom (beAt (iv16 (toBe 8 0)) 8 8) 0 0 [1] by decide +kernel)⟩
      simpa using ⟨hreads 0, hreads 1⟩
    encrypted := by
      rw [hsamples]
      refine ⟨rfl, by decide, fun i => ?_, ?_, fun i hi => ?_⟩
      · simp only [List.countP_cons, List.countP_nil, hcovers, decide_eq_true_eq]
        split <;> split <;> omega
      · simp only [List.forall_mem_cons, List.not_mem_nil, false_implies, implies_true, and_true]
        exact ⟨sampleOfOne_encrypted rfl (by decide +kernel),
          sampleOfOne_encrypted rfl (by decide +kernel)⟩
      · simp only [List.forall_mem_cons, List.not_mem_nil, false_implies, implies_true, and_true,
          hcovers] at hi
        rw [List.getElem?_eq_none (by simp only [List.length_cons, List.length_nil]; omega),
          List.getElem?_eq_none (by simp only [List.length_cons, List.length_nil]; omega)] }

/-- The file arrives byte by byte. -/
theorem decryptsMedia_oneTrun :
    ∃ moof', streamOutcome (decryptSegmentStreaming addingOne []
        ((((moofOf oneTrun).pack ++ (Mp4Atom.mk .mdat [11, 21]).pack).map fun b => [b]).map .ok)
        (List.replicate 16 "01".toList).flatten (List.replicate 32 '0') false) =
      .bytes ([] ++ [moof', ⟨.mdat, [10, 20]⟩].flatMap Mp4Atom.pack) := by
  have hkeys : buildKeyMapFromHex (List.replicate 16 "01".toList).flatten (List.replicate 32 '0') =
      (∅ : KeyMap).insert (List.replicate 16 1) (List.replicate 16 0) :=
    AList.ext (by decide +kernel)
  have hsome : (processMoof zeroKeyed (moofOf oneTrun)).isSome := by decide +kernel
  obtain ⟨⟨moof', s'⟩, hmoof⟩ := Option.isSome_iff_exists.mp hsome
  have hmedia : EncryptedMedia addingOne zeroKeyed
      (moofOf oneTrun :: ([] ++ Mp4Atom.mk .mdat [11, 21] :: []))
      (moof' :: ([] ++ Mp4Atom.mk .mdat [10, 20] :: [])) :=
    .fragment rfl hmoof nofun encryptedFragment_oneTrun (.nil s')
  have hbytes : ∀ b : Bytes, (b.map fun x => [x]).flatten = b := fun b => by
    induction b with
    | nil => rfl
    | cons x b ih => rw [List.map_cons, List.flatten_cons, ih, List.singleton_append]
  refine ⟨moof', decryptsMedia addingOne_decryptBlock hmedia ?_ ?_ (by rw [hkeys]; decide)
    (by rw [hkeys]; rfl)⟩
  · decide +kernel
  · rw [hbytes]
    rfl

end MediaFlow
