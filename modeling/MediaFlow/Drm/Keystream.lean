import MediaFlow.Drm.SampleRanges

/-!
# The keystream of a sample

In counter mode the protected parts of a sample are decrypted as one text, with one keystream.
`decryptSampleCenc` starts the cipher anew for each part, at a block of the keystream that it counts
itself: `oneKeystream_iff` says for which parts this is the same.
-/

open ByteString

namespace MediaFlow

/-! ### Parts of a sample -/

/-- The bytes that the subsamples take. -/
def subSampleTotal (subs : List (ℕ × ℕ)) : ℕ := (subs.map fun p => p.1 + p.2).sum

/-- The clear parts of a sample, one after the other. -/
def clearParts : List (ℕ × ℕ) → Bytes → Bytes
  | [], _ => []
  | (clear, enc) :: rest, s => s.take clear ++ clearParts rest (s.drop (clear + enc))

/-- The protected parts, with what follows the last subsample. -/
def protectedParts : List (ℕ × ℕ) → Bytes → Bytes
  | [], s => s
  | (clear, enc) :: rest, s => (s.drop clear).take enc ++ protectedParts rest (s.drop (clear + enc))

/-- Their lengths, in a sample of `len` bytes. -/
def partLengths : List (ℕ × ℕ) → ℕ → List ℕ
  | [], len => [len]
  | (clear, enc) :: rest, len => enc :: partLengths rest (len - (clear + enc))

section Decode

variable (dec : ℕ → Bytes → Bytes) (count : ℕ → ℕ)

/-- A sample with its protected parts decrypted. `dec` is given the number of cipher blocks before a
part; a part of `n` bytes takes `count n` of them. -/
def decodeParts : List (ℕ × ℕ) → ℕ → Bytes → Bytes
  | [], off, s => dec off s
  | (clear, enc) :: rest, off, s =>
    s.take clear ++ dec off ((s.drop clear).take enc) ++
      decodeParts rest (off + count enc) (s.drop (clear + enc))

/-- Only the protected parts. -/
def decodedParts : List (ℕ × ℕ) → ℕ → Bytes → Bytes
  | [], off, s => dec off s
  | (clear, enc) :: rest, off, s =>
    dec off ((s.drop clear).take enc) ++ decodedParts rest (off + count enc) (s.drop (clear + enc))

variable {dec count} (hdec : ∀ off d, (dec off d).length = d.length)

/-- The first subsample lies in the sample, the others in what follows it. -/
theorem subSampleTotal_cons_le {clear enc len : ℕ} {rest : List (ℕ × ℕ)}
    (h : subSampleTotal ((clear, enc) :: rest) ≤ len) :
    clear + enc ≤ len ∧ subSampleTotal rest ≤ len - (clear + enc) := by
  unfold subSampleTotal at h ⊢
  rw [List.map_cons, List.sum_cons] at h
  omega

theorem length_part {clear enc : ℕ} {s : Bytes} (h : clear + enc ≤ s.length) :
    ((s.drop clear).take enc).length = enc := by
  rw [List.length_take, List.length_drop]
  omega

include hdec

theorem length_decodeParts {subs : List (ℕ × ℕ)} {off : ℕ} {s : Bytes}
    (h : subSampleTotal subs ≤ s.length) : (decodeParts dec count subs off s).length = s.length := by
  induction subs generalizing off s with
  | nil => exact hdec off s
  | cons p rest ih =>
    obtain ⟨clear, enc⟩ := p
    obtain ⟨hfirst, hrest⟩ := subSampleTotal_cons_le h
    rw [decodeParts, List.length_append, List.length_append, hdec, length_part hfirst,
      ih (by rwa [List.length_drop]), List.length_take, List.length_drop]
    omega

/-- What `decodeParts` makes of the first subsample, and of the others. -/
theorem decodeParts_split {clear enc off : ℕ} {rest : List (ℕ × ℕ)} {s : Bytes}
    (h : clear + enc ≤ s.length) :
    let out := decodeParts dec count ((clear, enc) :: rest) off s
    out.take clear = s.take clear ∧
      (out.drop clear).take enc = dec off ((s.drop clear).take enc) ∧
      out.drop (clear + enc) = decodeParts dec count rest (off + count enc) (s.drop (clear + enc)) := by
  have hclear : (s.take clear).length = clear := by
    rw [List.length_take]
    omega
  have hpart : (dec off ((s.drop clear).take enc)).length = enc := by
    rw [hdec, length_part h]
  dsimp only
  rw [decodeParts]
  refine ⟨?_, ?_, ?_⟩
  · rw [List.append_assoc, List.take_left' hclear]
  · rw [List.append_assoc, List.drop_left' hclear, List.take_left' hpart]
  · rw [List.drop_left' (by rw [List.length_append, hclear, hpart])]

theorem clearParts_decodeParts {subs : List (ℕ × ℕ)} {off : ℕ} {s : Bytes}
    (h : subSampleTotal subs ≤ s.length) :
    clearParts subs (decodeParts dec count subs off s) = clearParts subs s := by
  induction subs generalizing off s with
  | nil => rfl
  | cons p rest ih =>
    obtain ⟨clear, enc⟩ := p
    obtain ⟨hfirst, hrest⟩ := subSampleTotal_cons_le h
    obtain ⟨hclear, -, hlater⟩ := @decodeParts_split dec count hdec clear enc off rest s hfirst
    rw [clearParts, hclear, hlater, ih (by rwa [List.length_drop]), clearParts]

theorem protectedParts_decodeParts {subs : List (ℕ × ℕ)} {off : ℕ} {s : Bytes}
    (h : subSampleTotal subs ≤ s.length) :
    protectedParts subs (decodeParts dec count subs off s) = decodedParts dec count subs off s := by
  induction subs generalizing off s with
  | nil => rfl
  | cons p rest ih =>
    obtain ⟨clear, enc⟩ := p
    obtain ⟨hfirst, hrest⟩ := subSampleTotal_cons_le h
    obtain ⟨-, hpart, hlater⟩ := @decodeParts_split dec count hdec clear enc off rest s hfirst
    rw [protectedParts, hpart, hlater, ih (by rwa [List.length_drop]), decodedParts]

end Decode

/-! ### What the code decrypts -/

/-- The blocks that the code counts for a part of `n` bytes. -/
def ceilBlocks (n : ℕ) : ℕ := (n + 15) / 16

/-- The loop of the code and the decryption of the remaining data after it. -/
theorem subSampleLoop_eq {dec : ℕ → Bytes → Bytes} {sample : Bytes} {subs : List (ℕ × ℕ)}
    {pos off : ℕ} (h : pos + subSampleTotal subs ≤ sample.length) :
    ∃ out last, subSampleLoop dec sample subs pos off = some (out, pos + subSampleTotal subs, last) ∧
      out ++ dec last (sample.drop (pos + subSampleTotal subs)) =
        decodeParts dec ceilBlocks subs off (sample.drop pos) := by
  induction subs generalizing pos off with
  | nil => exact ⟨[], off, rfl, rfl⟩
  | cons p rest ih =>
    obtain ⟨clear, enc⟩ := p
    have htotal : pos + subSampleTotal ((clear, enc) :: rest) =
        pos + clear + enc + subSampleTotal rest := by
      unfold subSampleTotal
      rw [List.map_cons, List.sum_cons]
      omega
    rw [htotal] at h ⊢
    obtain ⟨out, last, hloop, hout⟩ := @ih (pos + clear + enc) (off + (enc + 15) / 16) h
    -- nothing is clamped
    have hclear : min (pos + clear) sample.length = pos + clear := by omega
    have henc : min (pos + clear + enc) sample.length = pos + clear + enc := by omega
    refine ⟨(sample.drop pos).take clear ++ dec off ((sample.drop (pos + clear)).take enc) ++ out,
      last, ?_, ?_⟩
    · rw [subSampleLoop, hclear, henc, slice?_of_le (by omega) (by omega),
        slice?_of_le (by omega) (by omega), hloop, Nat.add_sub_cancel_left, Nat.add_sub_cancel_left]
      rfl
    · rw [List.append_assoc, hout, decodeParts, List.drop_drop, List.drop_drop, Nat.add_assoc pos]
      rfl

section Cenc

variable (aes : BlockCipher) (key : Bytes)

/-- How the code decrypts the parts of a sample. -/
def cencPart (iv : Bytes) (off : ℕ) (data : Bytes) : Bytes :=
  aesCtrDecryptWithOffset aes key iv data off

/-- **The code decrypts the parts** one by one, each from a block of its own. -/
theorem decryptSampleCenc_eq {sample : Bytes} {info : SampleInfo}
    (h : subSampleTotal info.subSamples ≤ sample.length) :
    decryptSampleCenc aes sample info key =
      some (decodeParts (cencPart aes key (iv16 info.iv)) ceilBlocks info.subSamples 0 sample) := by
  unfold decryptSampleCenc
  by_cases hsubs : info.subSamples = []
  · rw [if_pos hsubs, hsubs]
    rfl
  obtain ⟨out, last, hloop, hout⟩ := @subSampleLoop_eq (cencPart aes key (iv16 info.iv)) sample
    info.subSamples 0 0 (by rwa [Nat.zero_add])
  rw [Nat.zero_add] at hloop hout
  rw [List.drop_zero] at hout
  rw [if_neg hsubs, ← hout]
  refine (congrArg (Option.bind · _) hloop).trans ?_
  by_cases hremaining : subSampleTotal info.subSamples < sample.length
  · exact congrArg some (if_pos hremaining)
  · refine congrArg some ((if_neg hremaining).trans ?_)
    rw [List.drop_of_length_le (Nat.not_lt.mp hremaining)]
    have hnil : cencPart aes key (iv16 info.iv) last [] = [] := by
      rw [← List.length_eq_zero_iff]
      exact length_aesCtrDecryptWithOffset aes key _ [] last
    rw [hnil, List.append_nil]

end Cenc

/-! ### Counters -/

theorem ofBe_append (a b : Bytes) : ofBe (a ++ b) = ofBe a * 256 ^ b.length + ofBe b := by
  induction b using List.reverseRecOn with
  | nil => simp
  | append_singleton b c ih =>
    rw [← List.append_assoc, ofBe_append_singleton, ih, ofBe_append_singleton, List.length_append,
      List.length_singleton, pow_succ]
    ring

theorem length_iv16 (src : Bytes) : (iv16 src).length = 16 := by
  unfold iv16
  rw [List.length_append, List.length_take, List.length_replicate]
  omega

section Counter

variable {iv : Bytes} (hiv : iv.length = 16)

include hiv

theorem ofBe_iv : ofBe iv = ofBe (iv.take 8) * 2 ^ 64 + beAt iv 8 8 := by
  have hlow : beAt iv 8 8 = ofBe (iv.drop 8) := by
    unfold beAt
    rw [List.take_of_length_le (by rw [List.length_drop, hiv])]
  have happend := ofBe_append (iv.take 8) (iv.drop 8)
  rw [List.take_append_drop, List.length_drop, hiv] at happend
  rw [happend, hlow]
  norm_num

/-- The offset is added to the low half of the counter, which wraps. -/
theorem ofBe_ivWithOffset {off : ℕ} (hoff : off < 2 ^ 64) :
    ofBe (ivWithOffset iv off) = ofBe (iv.take 8) * 2 ^ 64 + (beAt iv 8 8 + off) % 2 ^ 64 := by
  have hlow := beAt_lt iv 8 8
  unfold ivWithOffset
  by_cases hzero : off > 0
  · have hmod := Nat.mod_lt (beAt iv 8 8 + off) (show 0 < 2 ^ 64 by norm_num)
    rw [if_pos hzero, ofBe_append, length_toBe, Nat.mod_eq_of_lt hoff,
      ofBe_toBe (hmod.trans_le (by norm_num))]
    norm_num
  · have hoff : off = 0 := by omega
    rw [if_neg hzero, ofBe_iv hiv, hoff, Nat.add_zero, Nat.mod_eq_of_lt (hlow.trans_le (by norm_num))]

/-- **The counter of a part** is the one that a keystream from the IV on has there. -/
theorem counter_iff {off start : ℕ} (hoff : off < 2 ^ 64) (hstart : start / 16 ≤ off) :
    ofBe (ivWithOffset iv off) % 2 ^ 128 = (ofBe iv + start / 16) % 2 ^ 128 ↔
      start / 16 = off ∧ beAt iv 8 8 + off < 2 ^ 64 := by
  have hlow := beAt_lt iv 8 8
  have hhigh : ofBe (iv.take 8) < 2 ^ 64 := by
    have h := ofBe_lt (iv.take 8)
    rwa [List.length_take, hiv] at h
  rw [ofBe_ivWithOffset hiv hoff, ofBe_iv hiv]
  omega

end Counter

/-! ### One keystream -/

/-- The clear parts of a sample stay, and the protected ones are decrypted as one text. -/
structure OneKeystream (aes : BlockCipher) (sample : Bytes) (info : SampleInfo) (key : Bytes) :
    Prop where
  decrypted : ∃ out, decryptSampleCenc aes sample info key = some out ∧
    out.length = sample.length ∧
    clearParts info.subSamples out = clearParts info.subSamples sample ∧
    protectedParts info.subSamples out =
      aes.ctr key (ofBe (iv16 info.iv)) (protectedParts info.subSamples sample)

/-- **The condition**, for parts of these lengths and a counter whose low half starts at `low`: a
part that is not empty stands after whole blocks, and the counter does not wrap before it. -/
def KeystreamContinues (low : ℕ) (parts : List ℕ) : Prop :=
  ∀ before n after, parts = before ++ n :: after → n ≠ 0 →
    (∀ m ∈ before, 16 ∣ m) ∧ low + before.sum / 16 < 2 ^ 64

/-- The same, with the bytes and the blocks before the parts. -/
def ContinuesFrom (low : ℕ) : ℕ → ℕ → List ℕ → Prop
  | _, _, [] => True
  | start, off, n :: rest =>
    (n ≠ 0 → start = 16 * off ∧ low + off < 2 ^ 64) ∧
      ContinuesFrom low (start + n) (off + ceilBlocks n) rest

instance decidableContinuesFrom (low : ℕ) :
    ∀ (start off : ℕ) (parts : List ℕ), Decidable (ContinuesFrom low start off parts)
  | _, _, [] => instDecidableTrue
  | start, off, n :: rest =>
    have := decidableContinuesFrom low (start + n) (off + ceilBlocks n) rest
    inferInstanceAs (Decidable (_ ∧ _))

theorem le_ceilBlocks (n : ℕ) : n ≤ 16 * ceilBlocks n := by
  unfold ceilBlocks
  omega

theorem ceilBlocks_le (n : ℕ) : ceilBlocks n ≤ n := by
  unfold ceilBlocks
  omega

/-- The places of a list, the first one apart. -/
theorem forall_split_cons {α : Type*} {m : α} {rest : List α} {P : List α → α → Prop} :
    (∀ before n after, m :: rest = before ++ n :: after → P before n) ↔
      P [] m ∧ ∀ before n after, rest = before ++ n :: after → P (m :: before) n := by
  constructor
  · intro h
    exact ⟨h [] m rest rfl, fun before n after hrest =>
      h (m :: before) n after (congrArg (m :: ·) hrest)⟩
  · rintro ⟨hfirst, hlater⟩ before n after hsplit
    cases before with
    | nil =>
      obtain ⟨rfl, -⟩ := List.cons.inj hsplit
      exact hfirst
    | cons m' before =>
      obtain ⟨rfl, hrest⟩ := List.cons.inj hsplit
      exact hlater before n after hrest

theorem continuesFrom_iff {low start off : ℕ} {parts : List ℕ} :
    ContinuesFrom low start off parts ↔
      ∀ before n after, parts = before ++ n :: after → n ≠ 0 →
        start + before.sum = 16 * (off + (before.map ceilBlocks).sum) ∧
          low + (off + (before.map ceilBlocks).sum) < 2 ^ 64 := by
  induction parts generalizing start off with
  | nil => exact iff_of_true trivial fun before n after h => by simp at h
  | cons m rest ih =>
    rw [ContinuesFrom, ih, forall_split_cons]
    simp only [List.map_cons, List.sum_cons, List.map_nil, List.sum_nil, Nat.add_zero, Nat.add_assoc]

/-- Parts are as long as their blocks if they are whole blocks. -/
theorem sum_eq_ceilBlocks_iff {parts : List ℕ} :
    parts.sum = 16 * (parts.map ceilBlocks).sum ↔ ∀ m ∈ parts, 16 ∣ m := by
  induction parts with
  | nil => exact iff_of_true rfl nofun
  | cons m rest ih =>
    have hrest : rest.sum ≤ 16 * (rest.map ceilBlocks).sum := by
      clear ih
      induction rest with
      | nil => exact le_rfl
      | cons n rest ih =>
        have hn := le_ceilBlocks n
        rw [List.map_cons, List.sum_cons, List.sum_cons]
        omega
    have hm : m = 16 * ceilBlocks m ↔ 16 ∣ m := by
      unfold ceilBlocks
      omega
    have hle := le_ceilBlocks m
    rw [List.forall_mem_cons, ← ih, ← hm, List.map_cons, List.sum_cons, List.sum_cons]
    omega

theorem keystreamContinues_iff {low : ℕ} {parts : List ℕ} :
    KeystreamContinues low parts ↔ ContinuesFrom low 0 0 parts := by
  rw [continuesFrom_iff]
  unfold KeystreamContinues
  refine forall₃_congr fun before n after => forall₂_congr fun _ _ => ?_
  rw [Nat.zero_add, Nat.zero_add, sum_eq_ceilBlocks_iff]
  refine and_congr_right fun hwhole => ?_
  rw [sum_eq_ceilBlocks_iff.mpr hwhole, Nat.mul_div_cancel_left _ (by norm_num)]

section Keystream

variable {key iv : Bytes} (hkey : key.length = 16 ∨ key.length = 32) (hiv : iv.length = 16)

include hkey

theorem cencPart_eq (aes : BlockCipher) (off : ℕ) (data : Bytes) :
    cencPart aes key iv off data = aes.ctr key (ofBe (ivWithOffset iv off)) data :=
  if_pos hkey

include hiv

/-- A part, decrypted from the block that the code counts or from byte `start` of the keystream. -/
theorem cencPart_eq_iff {off start : ℕ} (hoff : off < 2 ^ 64) (hstart : start ≤ 16 * off)
    {data : Bytes} :
    (∀ aes : BlockCipher, cencPart aes key iv off data = aes.ctrFrom key (ofBe iv) start data) ↔
      (data.length ≠ 0 → start = 16 * off ∧ beAt iv 8 8 + off < 2 ^ 64) := by
  simp only [cencPart_eq hkey]
  rw [BlockCipher.ctr_eq_ctrFrom_iff, ne_eq data.length, List.length_eq_zero_iff]
  refine forall_congr' fun _ => ?_
  rw [counter_iff hiv hoff (by omega)]
  omega

/-- **The parts** are decrypted as one text under every cipher, exactly if the keystream continues. -/
theorem decodedParts_eq_iff {subs : List (ℕ × ℕ)} {s : Bytes} {off start : ℕ}
    (hfit : subSampleTotal subs ≤ s.length) (hstart : start ≤ 16 * off)
    (hoff : off + s.length < 2 ^ 64) :
    (∀ aes : BlockCipher, decodedParts (cencPart aes key iv) ceilBlocks subs off s =
        aes.ctrFrom key (ofBe iv) start (protectedParts subs s)) ↔
      ContinuesFrom (beAt iv 8 8) start off (partLengths subs s.length) := by
  induction subs generalizing s off start with
  | nil =>
    rw [partLengths, ContinuesFrom, ContinuesFrom, and_true,
      ← cencPart_eq_iff hkey hiv (by omega) hstart]
    rfl
  | cons p rest ih =>
    obtain ⟨clear, enc⟩ := p
    obtain ⟨hfirst, hrest⟩ := subSampleTotal_cons_le hfit
    have hlen := length_part hfirst
    have hceil := ceilBlocks_le enc
    have hblocks := le_ceilBlocks enc
    have hlater := @ih (s.drop (clear + enc)) (off + ceilBlocks enc) (start + enc)
      (by rwa [List.length_drop]) (by omega) (by rw [List.length_drop]; omega)
    rw [List.length_drop] at hlater
    rw [partLengths, ContinuesFrom, ← hlater]
    have hone := @cencPart_eq_iff key iv hkey hiv off start (by omega) hstart
      ((s.drop clear).take enc)
    rw [hlen] at hone
    rw [← hone, ← forall_and]
    refine forall_congr' fun aes => ?_
    rw [decodedParts, protectedParts, BlockCipher.ctrFrom_append, hlen]
    refine ⟨fun h => List.append_inj h ?_, fun h => congrArg₂ _ h.1 h.2⟩
    rw [BlockCipher.length_ctrFrom]
    exact length_aesCtrDecryptWithOffset aes key iv _ off

end Keystream

/-- **A sample** is decrypted with one keystream, under every cipher, if each of its parts is. -/
theorem oneKeystream_iff_continuesFrom {sample : Bytes} {info : SampleInfo} {key : Bytes}
    (hkey : key.length = 16 ∨ key.length = 32)
    (hfit : subSampleTotal info.subSamples ≤ sample.length) (hlen : sample.length < 2 ^ 63) :
    (∀ aes : BlockCipher, OneKeystream aes sample info key) ↔
      ContinuesFrom (beAt (iv16 info.iv) 8 8) 0 0 (partLengths info.subSamples sample.length) := by
  have hiv := length_iv16 info.iv
  rw [← decodedParts_eq_iff hkey hiv hfit (Nat.zero_le (16 * 0)) (by omega)]
  refine forall_congr' fun aes => ?_
  have hdec : ∀ off d, (cencPart aes key (iv16 info.iv) off d).length = d.length :=
    fun off d => length_aesCtrDecryptWithOffset aes key (iv16 info.iv) d off
  have hout := decryptSampleCenc_eq aes key hfit
  rw [BlockCipher.ctrFrom_zero, ← protectedParts_decodeParts hdec hfit]
  constructor
  · rintro ⟨out, hsome, -, -, hprotected⟩
    rw [hout] at hsome
    obtain rfl := Option.some.inj hsome
    exact hprotected
  · intro hprotected
    exact ⟨_, hout, length_decodeParts hdec hfit, clearParts_decodeParts hdec hfit, hprotected⟩

/-- A sample is decrypted with one keystream, under every cipher, exactly if the keystream
continues. -/
theorem oneKeystream_iff (sample : Bytes) (info : SampleInfo) (key : Bytes)
    (hkey : key.length = 16 ∨ key.length = 32)
    (hfit : subSampleTotal info.subSamples ≤ sample.length) (hlen : sample.length < 2 ^ 63) :
    (∀ aes : BlockCipher, OneKeystream aes sample info key) ↔
      KeystreamContinues (beAt (iv16 info.iv) 8 8) (partLengths info.subSamples sample.length) := by
  rw [keystreamContinues_iff]
  exact oneKeystream_iff_continuesFrom hkey hfit hlen

/-- One block, and a remainder of four bytes. -/
theorem oneKeystream_block :
    OneKeystream (.constant 7) (List.replicate 24 0) ⟨true, [], [(4, 16)]⟩ (List.replicate 16 0) :=
  (oneKeystream_iff _ _ _ (.inl rfl) (by decide) (by decide)).mpr
    (keystreamContinues_iff.mpr (by decide +kernel)) _

/-- The second half of a block is decrypted with the next block of the keystream. -/
theorem halfBlocks_not_oneKeystream :
    ¬ ∀ (aes : BlockCipher) (sample : Bytes) (info : SampleInfo) (key : Bytes),
      key.length = 16 ∨ key.length = 32 → subSampleTotal info.subSamples ≤ sample.length →
        OneKeystream aes sample info key := by
  intro h
  have hcontinues := (oneKeystream_iff_continuesFrom (.inl rfl) (by decide) (by decide)).mp
    fun aes => h aes (List.replicate 16 0) ⟨true, [], [(0, 8), (0, 8)]⟩ (List.replicate 16 0)
      (.inl rfl) (by decide)
  exact absurd hcontinues (by decide +kernel)

end MediaFlow
