import MediaFlow.Lib.BlockModes

/-!
# Sample decryption

The free functions of `drm/cenc.rs` that decrypt one sample: AES-CTR (`cenc`, `cens`), full-block
AES-CBC (`cbc1`) and AES-CBC with a pattern (`cbcs`). The `aes` crate's block permutations are a
parameter; the counter and chaining modes are those of `Lib.BlockModes`.

A subsample list that runs past the sample makes a later slice start after its end, which aborts
the process: the functions return `Option`, with `none` for the abort.

* `length_decryptSample`: a decrypted sample is as long as the sample.
-/

open ByteString

namespace MediaFlow

/-- Per-sample encryption info parsed from a `senc` box. -/
structure SampleInfo where
  isEncrypted : Bool
  /-- Initialization vector. -/
  iv : Bytes
  /-- Sub-sample list: `(clear bytes, encrypted bytes)`. -/
  subSamples : List (ℕ × ℕ)
deriving DecidableEq, Repr

inductive EncScheme where
  | cenc -- AES-CTR, full sample
  | cens -- AES-CTR, pattern
  | cbc1 -- AES-CBC, full sample
  | cbcs -- AES-CBC, pattern
deriving DecidableEq, Repr

/-- `let mut iv = [0u8; 16]`, overwritten by the first bytes of `src`. -/
def iv16 (src : Bytes) : Bytes :=
  src.take 16 ++ List.replicate (16 - min src.length 16) 0

section Modes

variable (aes : BlockCipher)

/-- `iv` with `blockOffset` added to its last 8 bytes, as a wrapping `u64`. -/
def ivWithOffset (iv : Bytes) (blockOffset : ℕ) : Bytes :=
  if blockOffset > 0 then
    iv.take 8 ++ toBe 8 ((beAt iv 8 8 + blockOffset % 2 ^ 64) % 2 ^ 64)
  else iv

def aesCtrDecryptWithOffset (key iv data : Bytes) (blockOffset : ℕ) : Bytes :=
  if key.length = 16 ∨ key.length = 32 then
    aes.ctr key (ofBe (ivWithOffset iv blockOffset)) data
  else data

def aesCtrDecrypt (key iv data : Bytes) : Bytes :=
  aesCtrDecryptWithOffset aes key iv data 0

/-- Decrypt complete 16-byte blocks with AES-CBC (leave a trailing partial block unchanged). -/
def aesCbcDecryptFullBlocks (key iv data : Bytes) : Bytes :=
  let complete := data.length / 16
  if complete = 0 then data
  else if key.length = 16 ∨ key.length = 32 then
    aes.cbcDecrypt key complete (Block.ofBytes iv) data
  else data

/-- The loop over the subsamples of a sample. `dec` decrypts one protected range, given the
number of cipher blocks before it; returned are the output, the position reached and the number
of blocks passed. -/
def subSampleLoop (dec : ℕ → Bytes → Bytes) (sample : Bytes) :
    List (ℕ × ℕ) → ℕ → ℕ → Option (Bytes × ℕ × ℕ)
  | [], pos, offsetBlocks => some ([], pos, offsetBlocks)
  | (clear, enc) :: rest, pos, offsetBlocks => do
    let clearData ← slice? sample pos (min (pos + clear) sample.length)
    let encData ← slice? sample (pos + clear) (min (pos + clear + enc) sample.length)
    let (out, last) ← subSampleLoop dec sample rest (pos + clear + enc)
      (offsetBlocks + (enc + 15) / 16)
    return (clearData ++ dec offsetBlocks encData ++ out, last)

/-- AES-CTR (cenc / cens). -/
def decryptSampleCenc (sample : Bytes) (info : SampleInfo) (key : Bytes) : Option Bytes :=
  let iv := iv16 info.iv
  if info.subSamples = [] then some (aesCtrDecrypt aes key iv sample)
  else do
    let dec := fun off data => aesCtrDecryptWithOffset aes key iv data off
    let (result, pos, offsetBlocks) ← subSampleLoop dec sample info.subSamples 0 0
    -- the remaining data is decrypted as well
    return if pos < sample.length then result ++ dec offsetBlocks (sample.drop pos) else result

/-- The two CBC schemes: the protected ranges are decrypted by `dec`, the rest is copied. -/
def decryptSampleCbc (dec : Bytes → Bytes) (sample : Bytes) (info : SampleInfo) : Option Bytes :=
  if info.subSamples = [] then some (dec sample)
  else do
    let (result, pos, _) ← subSampleLoop (fun _ => dec) sample info.subSamples 0 0
    return if pos < sample.length then result ++ sample.drop pos else result

/-- AES-CBC (cbc1): per-sample, full blocks only. -/
def decryptSampleCbc1 (sample : Bytes) (info : SampleInfo) (key : Bytes) : Option Bytes :=
  decryptSampleCbc (aesCbcDecryptFullBlocks aes key (iv16 info.iv)) sample info

/-- The encrypted spans `(offset, length)` of `crypt` bytes encrypted, `skip` bytes clear. -/
def cbcsSpans (len crypt skip : ℕ) : ℕ → ℕ → List (ℕ × ℕ)
  | 0, _ => []
  | fuel + 1, pos =>
    if pos < len then
      if pos + crypt ≤ len then
        (pos, crypt) ::
          (if pos + crypt + skip ≤ len then cbcsSpans len crypt skip fuel (pos + crypt + skip)
           else [])
      else
        let complete := (len - pos) / 16 * 16
        if complete > 0 then [(pos, complete)] else []
    else []

/-- Put the pieces of `dec` back at the spans they were taken from. -/
def writeSpans : List (ℕ × ℕ) → Bytes → Bytes → Bytes
  | [], _, result => result
  | (pos, len) :: spans, dec, result =>
    writeSpans spans (dec.drop len) (patch result pos (dec.take len))

/-- CBCS pattern decryption: crypt N blocks, skip M blocks, repeat. -/
def decryptCbcsPattern (key iv : Bytes) (cryptBlocks skipBlocks : ℕ) (data : Bytes) : Bytes :=
  if data = [] ∨ cryptBlocks = 0 then data
  else if skipBlocks * 16 = 0 then aesCbcDecryptFullBlocks aes key iv data
  else
    let spans := cbcsSpans data.length (cryptBlocks * 16) (skipBlocks * 16) data.length 0
    let encryptedBlocks := spans.flatMap fun (pos, len) => (data.drop pos).take len
    if encryptedBlocks = [] then data
    -- all encrypted blocks are one continuous CBC stream
    else writeSpans spans (aesCbcDecryptFullBlocks aes key iv encryptedBlocks) data

/-- AES-CBC with pattern encryption (cbcs). -/
def decryptSampleCbcs (sample : Bytes) (info : SampleInfo) (key : Bytes)
    (cryptByteBlock skipByteBlock : ℕ) (constantIv : Option Bytes) : Option Bytes :=
  let iv := iv16 (constantIv.getD info.iv)
  decryptSampleCbc (decryptCbcsPattern aes key iv cryptByteBlock skipByteBlock) sample info

def decryptSample (sample : Bytes) (info : SampleInfo) (key : Bytes) (scheme : EncScheme)
    (cryptByteBlock skipByteBlock : ℕ) (constantIv : Option Bytes) : Option Bytes :=
  if ¬ info.isEncrypted then some sample
  else
    match scheme with
    | .cbcs => decryptSampleCbcs aes sample info key cryptByteBlock skipByteBlock constantIv
    | .cbc1 => decryptSampleCbc1 aes sample info key
    | _ => decryptSampleCenc aes sample info key

/-! ### Lengths -/

@[simp] theorem length_aesCtrDecryptWithOffset (key iv data : Bytes) (off : ℕ) :
    (aesCtrDecryptWithOffset aes key iv data off).length = data.length := by
  unfold aesCtrDecryptWithOffset
  split <;> simp

@[simp] theorem length_aesCbcDecryptFullBlocks (key iv data : Bytes) :
    (aesCbcDecryptFullBlocks aes key iv data).length = data.length := by
  unfold aesCbcDecryptFullBlocks
  simp only
  split
  · rfl
  · split
    · exact aes.length_cbcDecrypt key _ (Nat.mul_div_le data.length 16)
    · rfl

/-- Every span lies inside the data. -/
theorem cbcsSpans_le {len crypt skip fuel pos : ℕ} :
    ∀ p ∈ cbcsSpans len crypt skip fuel pos, p.1 + p.2 ≤ len := by
  induction fuel generalizing pos with
  | zero => simp [cbcsSpans]
  | succ fuel ih =>
    intro p hp
    rw [cbcsSpans] at hp
    split at hp
    · split at hp
      · next hfull =>
        rcases List.mem_cons.mp hp with rfl | hp
        · exact hfull
        · split at hp
          · exact ih p hp
          · simp at hp
      · have hdiv := Nat.div_mul_le_self (len - pos) 16
        simp only at hp
        split at hp
        · rw [List.mem_singleton] at hp
          subst hp
          simp only
          omega
        · simp at hp
    · simp at hp

theorem length_writeSpans {spans : List (ℕ × ℕ)} {dec result : Bytes}
    (h : ∀ p ∈ spans, p.1 + p.2 ≤ result.length) :
    (writeSpans spans dec result).length = result.length := by
  induction spans generalizing dec result with
  | nil => rfl
  | cons p spans ih =>
    obtain ⟨pos, len⟩ := p
    have hp := h (pos, len) List.mem_cons_self
    have hpatch : (patch result pos (dec.take len)).length = result.length := by
      refine length_patch (le_trans ?_ hp)
      rw [List.length_take]
      exact Nat.add_le_add_left (Nat.min_le_left _ _) pos
    rw [writeSpans, ih (fun q hq => by rw [hpatch]; exact h q (List.mem_cons_of_mem _ hq)), hpatch]

@[simp] theorem length_decryptCbcsPattern (key iv : Bytes) (crypt skip : ℕ) (data : Bytes) :
    (decryptCbcsPattern aes key iv crypt skip data).length = data.length := by
  unfold decryptCbcsPattern
  simp only
  split
  · rfl
  split
  · exact length_aesCbcDecryptFullBlocks aes key iv data
  split
  · rfl
  · exact length_writeSpans cbcsSpans_le

/-- The subsample loop consumes the sample from `pos` up to where it stops. -/
theorem subSampleLoop_length {dec : ℕ → Bytes → Bytes} (hdec : ∀ off d, (dec off d).length = d.length)
    {sample : Bytes} {subs : List (ℕ × ℕ)} {pos off pos' off' : ℕ} {out : Bytes}
    (h : subSampleLoop dec sample subs pos off = some (out, pos', off')) :
    pos ≤ pos' ∧ out.length = min pos' sample.length - min pos sample.length := by
  induction subs generalizing pos off out with
  | nil =>
    simp only [subSampleLoop, Option.some.injEq, Prod.mk.injEq] at h
    obtain ⟨rfl, rfl, rfl⟩ := h
    simp
  | cons p rest ih =>
    obtain ⟨clear, enc⟩ := p
    simp only [subSampleLoop, Option.bind_eq_bind, Option.bind_eq_some_iff, Option.pure_def,
      Option.some.injEq, Prod.mk.injEq, Prod.exists] at h
    obtain ⟨clearData, hclear, encData, henc, out', a, b, hrest, rfl, rfl, rfl⟩ := h
    have hc := length_of_slice? hclear
    have he := length_of_slice? henc
    have hc' := (slice?_eq_some_iff.mp hclear).1
    have he' := (slice?_eq_some_iff.mp henc).1
    obtain ⟨hle, hlen⟩ := ih hrest
    refine ⟨by omega, ?_⟩
    rw [List.length_append, List.length_append, hdec, hlen, hc, he]
    omega

theorem length_decryptSampleCbc {dec : Bytes → Bytes} (hdec : ∀ d, (dec d).length = d.length)
    {sample out : Bytes} {info : SampleInfo} (h : decryptSampleCbc dec sample info = some out) :
    out.length = sample.length := by
  unfold decryptSampleCbc at h
  split at h
  · simp only [Option.some.injEq] at h
    rw [← h, hdec]
  · simp only [Option.bind_eq_bind, Option.bind_eq_some_iff, Option.pure_def, Option.some.injEq,
      Prod.exists] at h
    obtain ⟨result, pos, off, hloop, rfl⟩ := h
    obtain ⟨-, hlen⟩ := subSampleLoop_length (fun _ d => hdec d) hloop
    split
    · rw [List.length_append, List.length_drop]
      omega
    · omega

theorem length_decryptSampleCenc {sample out key : Bytes} {info : SampleInfo}
    (h : decryptSampleCenc aes sample info key = some out) : out.length = sample.length := by
  unfold decryptSampleCenc at h
  simp only at h
  split at h
  · simp only [Option.some.injEq] at h
    rw [← h]
    exact length_aesCtrDecryptWithOffset aes key _ sample 0
  · simp only [Option.bind_eq_bind, Option.bind_eq_some_iff, Option.pure_def, Option.some.injEq,
      Prod.exists] at h
    obtain ⟨result, pos, off, hloop, rfl⟩ := h
    obtain ⟨-, hlen⟩ := subSampleLoop_length
      (fun off d => length_aesCtrDecryptWithOffset aes key _ d off) hloop
    split
    · rw [List.length_append, length_aesCtrDecryptWithOffset, List.length_drop]
      omega
    · omega

/-- **A decrypted sample is as long as the sample**, in every scheme. -/
theorem length_decryptSample {sample out key : Bytes} {info : SampleInfo} {scheme : EncScheme}
    {crypt skip : ℕ} {civ : Option Bytes}
    (h : decryptSample aes sample info key scheme crypt skip civ = some out) :
    out.length = sample.length := by
  unfold decryptSample at h
  split at h
  · simp only [Option.some.injEq] at h
    rw [h]
  · cases scheme with
    | cbcs =>
      exact length_decryptSampleCbc
        (length_decryptCbcsPattern aes key (iv16 (civ.getD info.iv)) crypt skip) h
    | cbc1 =>
      exact length_decryptSampleCbc (length_aesCbcDecryptFullBlocks aes key (iv16 info.iv)) h
    | cenc => exact length_decryptSampleCenc aes h
    | cens => exact length_decryptSampleCenc aes h

end Modes

end MediaFlow
