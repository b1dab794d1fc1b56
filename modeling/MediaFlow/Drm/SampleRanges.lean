import MediaFlow.Drm.Sample
import MediaFlow.Lib.Emit

/-!
# The ranges of a sample

The subsamples of a `senc` box may run past the sample. `decryptSample` clamps the end of each of
its slices to the sample, not the start: `decryptSample_total_iff` says for which subsamples every
slice is in order.

The slices with which a pattern gathers and scatters its blocks are always in order
(`decryptCbcsPattern?_eq`).
-/

open ByteString Emit

namespace MediaFlow

/-- From position `pos` on, the protected part of each subsample begins in a sample of `len` bytes. -/
def PartsBeginInside (len : ℕ) : ℕ → List (ℕ × ℕ) → Prop
  | _, [] => True
  | pos, (clear, enc) :: rest => pos + clear ≤ len ∧ PartsBeginInside len (pos + clear + enc) rest

instance decidablePartsBeginInside (len : ℕ) :
    ∀ (pos : ℕ) (subs : List (ℕ × ℕ)), Decidable (PartsBeginInside len pos subs)
  | _, [] => instDecidableTrue
  | pos, (clear, enc) :: rest =>
    have := decidablePartsBeginInside len (pos + clear + enc) rest
    inferInstanceAs (Decidable (_ ∧ _))

/-! ### Slices -/

theorem isSome_slice?_iff {l : Bytes} {a b : ℕ} : (slice? l a b).isSome ↔ a ≤ b ∧ b ≤ l.length := by
  unfold slice?
  split
  · next h => exact iff_of_true rfl h
  · next h => exact iff_of_false nofun h

/-- With its end clamped, a slice is in order if it begins inside. -/
theorem isSome_slice?_min_iff {l : Bytes} {a n : ℕ} :
    (slice? l a (min (a + n) l.length)).isSome ↔ a ≤ l.length := by
  rw [isSome_slice?_iff, le_min_iff]
  exact ⟨fun h => h.1.2, fun h => ⟨⟨Nat.le_add_right a n, h⟩, Nat.min_le_right _ _⟩⟩

/-- **The loop over the subsamples** runs to its end if each protected part begins inside. -/
theorem isSome_subSampleLoop_iff {dec : ℕ → Bytes → Bytes} {sample : Bytes} {subs : List (ℕ × ℕ)}
    {pos off : ℕ} :
    (subSampleLoop dec sample subs pos off).isSome ↔ PartsBeginInside sample.length pos subs := by
  induction subs generalizing pos off with
  | nil => exact iff_of_true rfl trivial
  | cons p rest ih =>
    obtain ⟨clear, enc⟩ := p
    rw [subSampleLoop]
    have hloop : ((slice? sample pos (min (pos + clear) sample.length)).bind fun clearData =>
        (slice? sample (pos + clear) (min (pos + clear + enc) sample.length)).bind fun encData =>
          (subSampleLoop dec sample rest (pos + clear + enc) (off + (enc + 15) / 16)).bind
            fun out => some (clearData ++ dec off encData ++ out.1, out.2)).isSome ↔
        pos ≤ sample.length ∧ pos + clear ≤ sample.length ∧
          PartsBeginInside sample.length (pos + clear + enc) rest := by
      rw [← @isSome_slice?_min_iff sample pos clear, ← @isSome_slice?_min_iff sample (pos + clear) enc,
        ← ih]
      refine isSome_bind_iff fun _ _ => isSome_bind_iff fun _ _ => ?_
      exact isSome_bind_of_total fun _ => rfl
    exact hloop.trans (and_iff_right_of_imp fun h => (Nat.le_add_right pos clear).trans h.1)

section Modes

variable {aes : BlockCipher} {sample key : Bytes} {info : SampleInfo}

/-- Without subsamples there is nothing to slice. -/
theorem partsBeginInside_of_nil {len : ℕ} (h : info.subSamples = []) :
    PartsBeginInside len 0 info.subSamples := by
  rw [h]
  trivial

theorem isSome_decryptSampleCenc_iff :
    (decryptSampleCenc aes sample info key).isSome ↔
      PartsBeginInside sample.length 0 info.subSamples := by
  unfold decryptSampleCenc
  by_cases hsubs : info.subSamples = []
  · rw [if_pos hsubs]
    exact iff_of_true rfl (partsBeginInside_of_nil hsubs)
  · rw [if_neg hsubs, ← isSome_subSampleLoop_iff]
    exact isSome_bind_of_total fun _ => rfl

theorem isSome_decryptSampleCbc_iff {dec : Bytes → Bytes} :
    (decryptSampleCbc dec sample info).isSome ↔
      PartsBeginInside sample.length 0 info.subSamples := by
  unfold decryptSampleCbc
  by_cases hsubs : info.subSamples = []
  · rw [if_pos hsubs]
    exact iff_of_true rfl (partsBeginInside_of_nil hsubs)
  · rw [if_neg hsubs, ← isSome_subSampleLoop_iff]
    exact isSome_bind_of_total fun _ => rfl

/-- The scheme makes no difference. -/
theorem isSome_decryptSample_iff {scheme : EncScheme} {crypt skip : ℕ} {civ : Option Bytes} :
    (decryptSample aes sample info key scheme crypt skip civ).isSome ↔
      (info.isEncrypted = true → PartsBeginInside sample.length 0 info.subSamples) := by
  unfold decryptSample
  by_cases henc : info.isEncrypted = true
  · rw [if_neg (not_not.mpr henc)]
    refine Iff.trans ?_ (forall_prop_of_true henc).symm
    cases scheme with
    | cbcs => exact isSome_decryptSampleCbc_iff
    | cbc1 => exact isSome_decryptSampleCbc_iff
    | cenc => exact isSome_decryptSampleCenc_iff
    | cens => exact isSome_decryptSampleCenc_iff
  · rw [if_pos henc]
    exact iff_of_true rfl fun h => absurd h henc

end Modes

/-! ### The slices of a pattern -/

/-- The pieces at the spans, one after the other. -/
def readSpans? (data : Bytes) : List (ℕ × ℕ) → Option Bytes
  | [] => some []
  | (pos, len) :: spans => do
    let piece ← slice? data pos (pos + len)
    return piece ++ (← readSpans? data spans)

/-- `writeSpans`, with both slices of `copy_from_slice`. -/
def writeSpans? (dec : Bytes) : List (ℕ × ℕ) → ℕ → Bytes → Option Bytes
  | [], _, result => some result
  | (pos, len) :: spans, decPos, result => do
    let _ ← slice? result pos (pos + len)
    let piece ← slice? dec decPos (decPos + len)
    writeSpans? dec spans (decPos + len) (patch result pos piece)

/-- `decryptCbcsPattern`, with its slices. -/
def decryptCbcsPattern? (aes : BlockCipher) (key iv : Bytes) (cryptBlocks skipBlocks : ℕ)
    (data : Bytes) : Option Bytes :=
  if data = [] ∨ cryptBlocks = 0 then some data
  else if skipBlocks * 16 = 0 then some (aesCbcDecryptFullBlocks aes key iv data)
  else do
    let spans := cbcsSpans data.length (cryptBlocks * 16) (skipBlocks * 16) data.length 0
    let encryptedBlocks ← readSpans? data spans
    if encryptedBlocks = [] then some data
    else writeSpans? (aesCbcDecryptFullBlocks aes key iv encryptedBlocks) spans 0 data

section Pattern

theorem readSpans?_eq {data : Bytes} {spans : List (ℕ × ℕ)}
    (h : ∀ p ∈ spans, p.1 + p.2 ≤ data.length) :
    readSpans? data spans = some (spans.flatMap fun p => (data.drop p.1).take p.2) := by
  induction spans with
  | nil => rfl
  | cons p spans ih =>
    obtain ⟨hp, hspans⟩ := List.forall_mem_cons.mp h
    rw [readSpans?, slice?_of_le (Nat.le_add_right _ _) hp, ih hspans, Nat.add_sub_cancel_left]
    rfl

/-- The pieces are as long as their spans. -/
theorem length_readSpans {data : Bytes} {spans : List (ℕ × ℕ)}
    (h : ∀ p ∈ spans, p.1 + p.2 ≤ data.length) :
    (spans.flatMap fun p => (data.drop p.1).take p.2).length = (spans.map Prod.snd).sum := by
  induction spans with
  | nil => rfl
  | cons p spans ih =>
    obtain ⟨hp, hspans⟩ := List.forall_mem_cons.mp h
    have hpiece : ((data.drop p.1).take p.2).length = p.2 := by
      rw [List.length_take, List.length_drop]
      omega
    rw [List.flatMap_cons, List.length_append, hpiece, ih hspans, List.map_cons, List.sum_cons]

theorem writeSpans?_eq {dec : Bytes} {spans : List (ℕ × ℕ)} {decPos : ℕ} {result : Bytes}
    (h : ∀ p ∈ spans, p.1 + p.2 ≤ result.length)
    (hdec : decPos + (spans.map Prod.snd).sum ≤ dec.length) :
    writeSpans? dec spans decPos result = some (writeSpans spans (dec.drop decPos) result) := by
  induction spans generalizing decPos result with
  | nil => rfl
  | cons p spans ih =>
    obtain ⟨pos, len⟩ := p
    obtain ⟨hp, hspans⟩ := List.forall_mem_cons.mp h
    rw [List.map_cons, List.sum_cons, ← Nat.add_assoc] at hdec
    have hpiece : decPos + len ≤ dec.length := (Nat.le_add_right _ _).trans hdec
    have hpatch : (patch result pos ((dec.drop decPos).take len)).length = result.length := by
      refine length_patch (le_trans ?_ hp)
      exact Nat.add_le_add_left (List.length_take_le _ _) pos
    rw [writeSpans?, slice?_of_le (Nat.le_add_right _ _) hp,
      slice?_of_le (Nat.le_add_right _ _) hpiece, Nat.add_sub_cancel_left]
    refine (ih ?_ hdec).trans ?_
    · intro q hq
      rw [Nat.add_sub_cancel_left, hpatch]
      exact hspans q hq
    · rw [Nat.add_sub_cancel_left, writeSpans, List.drop_drop]

/-- **The slices of a pattern are in order**, for any data and any pattern. -/
theorem decryptCbcsPattern?_eq (aes : BlockCipher) (key iv : Bytes) (crypt skip : ℕ) (data : Bytes) :
    decryptCbcsPattern? aes key iv crypt skip data =
      some (decryptCbcsPattern aes key iv crypt skip data) := by
  unfold decryptCbcsPattern? decryptCbcsPattern
  by_cases hnone : data = [] ∨ crypt = 0
  · rw [if_pos hnone, if_pos hnone]
  rw [if_neg hnone, if_neg hnone]
  by_cases hskip : skip * 16 = 0
  · rw [if_pos hskip, if_pos hskip]
  rw [if_neg hskip, if_neg hskip]
  dsimp only
  have hinside := @cbcsSpans_le data.length (crypt * 16) (skip * 16) data.length 0
  rw [readSpans?_eq hinside]
  dsimp only [Option.bind_eq_bind, Option.bind_some]
  have hlen := length_readSpans hinside
  split
  · rfl
  · refine writeSpans?_eq hinside (le_of_eq ?_)
    rw [length_aesCbcDecryptFullBlocks, hlen, Nat.zero_add]

end Pattern

/-! ### All of a sample -/

/-- Every slice is in order, and the result is as long as the sample. -/
structure DecryptsTotally (aes : BlockCipher) (sample : Bytes) (info : SampleInfo) (key : Bytes)
    (scheme : EncScheme) (crypt skip : ℕ) (civ : Option Bytes) : Prop where
  returns : ∃ out, decryptSample aes sample info key scheme crypt skip civ = some out ∧
    out.length = sample.length
  -- `decryptSample` has the pattern without its slices
  pattern : ∀ iv data : Bytes, decryptCbcsPattern? aes key iv crypt skip data =
    some (decryptCbcsPattern aes key iv crypt skip data)

/-- An encrypted sample is decrypted, to a sample of its length, exactly if the protected
part of each of its subsamples begins inside it. -/
theorem decryptSample_total_iff (aes : BlockCipher) (sample : Bytes) (info : SampleInfo)
    (key : Bytes) (scheme : EncScheme) (crypt skip : ℕ) (civ : Option Bytes) :
    DecryptsTotally aes sample info key scheme crypt skip civ ↔
      (info.isEncrypted = true → PartsBeginInside sample.length 0 info.subSamples) := by
  rw [← @isSome_decryptSample_iff aes sample key info scheme crypt skip civ, Option.isSome_iff_exists]
  constructor
  · rintro ⟨⟨out, hout, -⟩, -⟩
    exact ⟨out, hout⟩
  · rintro ⟨out, hout⟩
    exact ⟨⟨out, hout, length_decryptSample aes hout⟩, fun iv => decryptCbcsPattern?_eq aes key iv crypt skip⟩

/-- Two clear bytes of a sample of one byte. -/
theorem clearPastEnd_not_total :
    ¬ ∀ (aes : BlockCipher) (sample : Bytes) (info : SampleInfo) (key : Bytes) (scheme : EncScheme)
      (crypt skip : ℕ) (civ : Option Bytes), key.length = 16 ∨ key.length = 32 →
        DecryptsTotally aes sample info key scheme crypt skip civ := by
  intro h
  obtain ⟨out, hout, -⟩ := (h (.constant 0) [0] ⟨true, [], [(2, 0)]⟩ (List.replicate 16 0) .cenc 1 9
    none (.inl rfl)).returns
  have hbegin := isSome_decryptSample_iff.mp (Option.isSome_iff_exists.mpr ⟨out, hout⟩) rfl
  exact absurd hbegin (by decide)

end MediaFlow
