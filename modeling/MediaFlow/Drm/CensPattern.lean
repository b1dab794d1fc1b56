import MediaFlow.Drm.CbcsPattern
import MediaFlow.Drm.Keystream

/-!
# The pattern of `cens`

With the scheme `cens`, only some blocks of each protected part are encrypted, and the counter
advances over these. `decryptSample` decrypts it as `cenc`: `decryptsPattern_iff` says for which
samples this is the same.
-/

open ByteString

namespace MediaFlow

/-- The encrypted ones of the first `n` blocks of a part. -/
def cryptBlocks (crypt skip n : ℕ) : ℕ := (List.range n).countP fun j => InCrypt crypt skip j

section Cens

variable (aes : BlockCipher) (key : Bytes) (counter crypt skip : ℕ)

/-- A part of a `cens` sample, decrypted from block `off` of the keystream on. -/
def censPart (off : ℕ) (data : Bytes) : Bytes :=
  data.mapIdx fun i b =>
    if ToDecrypt crypt skip data.length i then
      b ^^^ aes.keystream key counter (16 * (off + cryptBlocks crypt skip (i / 16)) + i % 16)
    else b

/-- A sample, with the pattern in each of its parts. -/
def censSample (subs : List (ℕ × ℕ)) (sample : Bytes) : Bytes :=
  decodeParts (censPart aes key counter crypt skip) (fun n => cryptBlocks crypt skip (n / 16)) subs 0
    sample

end Cens

/-- The blocks of the pattern are decrypted, and all other bytes stay. -/
def DecryptsPattern (aes : BlockCipher) (sample : Bytes) (info : SampleInfo) (key : Bytes)
    (crypt skip : ℕ) (civ : Option Bytes) : Prop :=
  decryptSample aes sample info key .cens crypt skip civ =
    some (censSample aes key (ofBe (iv16 info.iv)) crypt skip info.subSamples sample)

/-- **The condition**, for parts of these lengths and a counter whose low half starts at `low`: a
part that is not empty is whole blocks, no more than one run of encrypted ones, and the counter does
not wrap before it. -/
def OneRunEach (low crypt : ℕ) (parts : List ℕ) : Prop :=
  ∀ before n after, parts = before ++ n :: after → n ≠ 0 →
    16 ∣ n ∧ n ≤ 16 * crypt ∧ low + before.sum / 16 < 2 ^ 64

/-- The same, with the blocks before the parts. -/
def OneRunEachFrom (low crypt : ℕ) : ℕ → List ℕ → Prop
  | _, [] => True
  | off, n :: rest =>
    (n ≠ 0 → 16 ∣ n ∧ n ≤ 16 * crypt ∧ low + off < 2 ^ 64) ∧
      OneRunEachFrom low crypt (off + n / 16) rest

instance decidableOneRunEachFrom (low crypt : ℕ) :
    ∀ (off : ℕ) (parts : List ℕ), Decidable (OneRunEachFrom low crypt off parts)
  | _, [] => instDecidableTrue
  | off, n :: rest =>
    have := decidableOneRunEachFrom low crypt (off + n / 16) rest
    inferInstanceAs (Decidable (_ ∧ _))

/-! ### One part -/

section Part

variable {key : Bytes} {counter crypt skip : ℕ}

theorem inCrypt_of_lt {j : ℕ} (h : j < crypt) : InCrypt crypt skip j := by
  unfold InCrypt
  rwa [Nat.mod_eq_of_lt (h.trans_le (Nat.le_add_right _ _))]

/-- The first run has no gap. -/
theorem cryptBlocks_of_le {n : ℕ} (h : n ≤ crypt) : cryptBlocks crypt skip n = n := by
  have hall : ∀ j ∈ List.range n, decide (InCrypt crypt skip j) = true := fun j hj =>
    decide_eq_true (inCrypt_of_lt ((List.mem_range.mp hj).trans_le h))
  unfold cryptBlocks
  rw [List.countP_eq_length.mpr hall, List.length_range]

@[simp] theorem length_censPart (aes : BlockCipher) (off : ℕ) (data : Bytes) :
    (censPart aes key counter crypt skip off data).length = data.length := List.length_mapIdx

/-- One run of whole blocks is decrypted in counter mode. -/
theorem censPart_of_le (aes : BlockCipher) {off : ℕ} {data : Bytes} (hwhole : 16 ∣ data.length)
    (hrun : data.length ≤ 16 * crypt) :
    censPart aes key counter crypt skip off data = aes.ctrFrom key counter (16 * off) data := by
  unfold censPart BlockCipher.ctrFrom xorWith
  refine List.ext_getElem (by simp) fun i hi _ => ?_
  rw [List.length_mapIdx] at hi
  have hblock : i / 16 < crypt := by omega
  have hdecrypt : ToDecrypt crypt skip data.length i := ⟨by omega, inCrypt_of_lt hblock⟩
  have hbyte : 16 * (off + i / 16) + i % 16 = 16 * off + i := by omega
  rw [List.getElem_mapIdx, List.getElem_mapIdx, if_pos hdecrypt, cryptBlocks_of_le hblock.le, hbyte]

/-- Under every cipher, only what is to be decrypted changes. -/
theorem toDecrypt_of_forall {counter' off i : ℕ} {data : Bytes}
    (h : ∀ aes : BlockCipher, aes.ctr key counter' data = censPart aes key counter crypt skip off data)
    (hi : i < data.length) : ToDecrypt crypt skip data.length i := by
  by_contra hkeep
  -- a keystream of ones
  have hones := h (.constant 1)
  unfold censPart BlockCipher.ctr at hones
  have hbyte := congrArg (·[i]?) hones
  simp only [List.getElem?_mapIdx, List.getElem?_eq_getElem hi, Option.map_some, if_neg hkeep,
    Option.some.injEq] at hbyte
  have hzero : data[i] ^^^ (1 : UInt8) = data[i] ^^^ 0 := hbyte.trans UInt8.xor_zero.symm
  exact absurd (xor_right_cancel hzero) (by decide)

/-- **A part** is decrypted alike under every cipher if it is one run of whole blocks. -/
theorem ctr_eq_censPart_iff {counter' off : ℕ} (hskip : 1 ≤ skip) {data : Bytes} :
    (∀ aes : BlockCipher,
        aes.ctr key counter' data = censPart aes key counter crypt skip off data) ↔
      (data.length ≠ 0 → 16 ∣ data.length ∧ data.length ≤ 16 * crypt ∧
        counter' % 2 ^ 128 = (counter + off) % 2 ^ 128) := by
  constructor
  · intro h hdata
    -- the last block is complete, and the first one that is skipped is not there
    have hlast := toDecrypt_of_forall h (show data.length - 1 < data.length by omega)
    have hwhole : 16 ∣ data.length := by
      have hcomplete := hlast.1
      omega
    have hrun : data.length ≤ 16 * crypt := by
      by_contra hlong
      have hskipped := (toDecrypt_of_forall h (show 16 * crypt < data.length by omega)).2
      unfold InCrypt at hskipped
      rw [Nat.mul_div_cancel_left _ (by norm_num), Nat.mod_eq_of_lt (by omega)] at hskipped
      exact lt_irrefl _ hskipped
    refine ⟨hwhole, hrun, ?_⟩
    have hsame : ∀ aes : BlockCipher,
        aes.ctr key counter' data = aes.ctrFrom key counter (16 * off) data :=
      fun aes => (h aes).trans (censPart_of_le aes hwhole hrun)
    have hplace := (BlockCipher.ctr_eq_ctrFrom_iff key).mp hsame
      (fun hnil => hdata (List.length_eq_zero_iff.mpr hnil))
    rw [Nat.mul_div_cancel_left _ (by norm_num)] at hplace
    exact hplace.2
  · intro h aes
    by_cases hdata : data.length = 0
    · rw [List.length_eq_zero_iff.mp hdata]
      exact (BlockCipher.ctr_eq_xorWith ..).trans (xorWith_nil _)
    · obtain ⟨hwhole, hrun, hcounter⟩ := h hdata
      rw [censPart_of_le aes hwhole hrun]
      exact aes.ctrFrom_blocks key off hcounter data

end Part

/-! ### All parts -/

section Parts

variable {key iv : Bytes} (hkey : key.length = 16 ∨ key.length = 32) (hiv : iv.length = 16)

include hkey hiv

theorem cencPart_eq_censPart_iff {crypt skip off : ℕ} (hskip : 1 ≤ skip) (hoff : off < 2 ^ 64)
    {data : Bytes} :
    (∀ aes : BlockCipher,
        cencPart aes key iv off data = censPart aes key (ofBe iv) crypt skip off data) ↔
      (data.length ≠ 0 → 16 ∣ data.length ∧ data.length ≤ 16 * crypt ∧
        beAt iv 8 8 + off < 2 ^ 64) := by
  simp only [cencPart_eq hkey]
  rw [ctr_eq_censPart_iff hskip]
  refine forall_congr' fun _ => and_congr_right fun _ => and_congr_right fun _ => ?_
  have hcounter := @counter_iff iv hiv off (16 * off) hoff
    (Nat.mul_div_cancel_left off (by norm_num)).le
  rw [Nat.mul_div_cancel_left off (by norm_num)] at hcounter
  rw [hcounter]
  exact and_iff_right rfl

/-- **The parts** are decrypted alike under every cipher, exactly if each is one run. -/
theorem decodeParts_eq_iff {crypt skip : ℕ} (hskip : 1 ≤ skip) {subs : List (ℕ × ℕ)} {s : Bytes}
    {off : ℕ} (hfit : subSampleTotal subs ≤ s.length) (hoff : off + s.length < 2 ^ 64) :
    (∀ aes : BlockCipher, decodeParts (cencPart aes key iv) ceilBlocks subs off s =
        decodeParts (censPart aes key (ofBe iv) crypt skip)
          (fun n => cryptBlocks crypt skip (n / 16)) subs off s) ↔
      OneRunEachFrom (beAt iv 8 8) crypt off (partLengths subs s.length) := by
  induction subs generalizing s off with
  | nil =>
    rw [partLengths, OneRunEachFrom, OneRunEachFrom, and_true,
      ← cencPart_eq_censPart_iff hkey hiv hskip (by omega)]
    rfl
  | cons p rest ih =>
    obtain ⟨clear, enc⟩ := p
    obtain ⟨hfirst, hrest⟩ := subSampleTotal_cons_le hfit
    have hlen := length_part hfirst
    have hlater := @ih (s.drop (clear + enc)) (off + enc / 16) (by rwa [List.length_drop])
      (by rw [List.length_drop]; omega)
    rw [List.length_drop] at hlater
    have hone := @cencPart_eq_censPart_iff key iv hkey hiv crypt skip off hskip (by omega)
      ((s.drop clear).take enc)
    rw [hlen] at hone
    rw [partLengths, OneRunEachFrom, ← hlater, ← hone]
    -- once the first part is one run, both count its blocks alike
    have hcount : (enc ≠ 0 → 16 ∣ enc ∧ enc ≤ 16 * crypt ∧ beAt iv 8 8 + off < 2 ^ 64) →
        ceilBlocks enc = enc / 16 ∧ cryptBlocks crypt skip (enc / 16) = enc / 16 := by
      intro h
      unfold ceilBlocks
      by_cases henc : enc = 0
      · rw [henc]
        exact ⟨rfl, rfl⟩
      · obtain ⟨hwhole, hrun, -⟩ := h henc
        exact ⟨by omega, cryptBlocks_of_le (by omega)⟩
    have hsplit : ∀ aes : BlockCipher,
        decodeParts (cencPart aes key iv) ceilBlocks ((clear, enc) :: rest) off s =
            decodeParts (censPart aes key (ofBe iv) crypt skip)
              (fun n => cryptBlocks crypt skip (n / 16)) ((clear, enc) :: rest) off s ↔
          cencPart aes key iv off ((s.drop clear).take enc) =
              censPart aes key (ofBe iv) crypt skip off ((s.drop clear).take enc) ∧
            decodeParts (cencPart aes key iv) ceilBlocks rest (off + ceilBlocks enc)
                (s.drop (clear + enc)) =
              decodeParts (censPart aes key (ofBe iv) crypt skip)
                (fun n => cryptBlocks crypt skip (n / 16)) rest
                (off + cryptBlocks crypt skip (enc / 16)) (s.drop (clear + enc)) := by
      intro aes
      rw [decodeParts, decodeParts, List.append_assoc, List.append_assoc, List.append_cancel_left_eq]
      refine ⟨fun h => List.append_inj h ?_, fun h => congrArg₂ _ h.1 h.2⟩
      rw [length_censPart]
      exact length_aesCtrDecryptWithOffset aes key iv _ off
    constructor
    · intro h
      have hparts : ∀ aes : BlockCipher, cencPart aes key iv off ((s.drop clear).take enc) =
          censPart aes key (ofBe iv) crypt skip off ((s.drop clear).take enc) :=
        fun aes => ((hsplit aes).mp (h aes)).1
      obtain ⟨hceil, hcrypt⟩ := hcount (hone.mp hparts)
      refine ⟨hparts, fun aes => ?_⟩
      have hothers := ((hsplit aes).mp (h aes)).2
      rwa [hceil, hcrypt] at hothers
    · rintro ⟨hparts, hothers⟩ aes
      obtain ⟨hceil, hcrypt⟩ := hcount (hone.mp hparts)
      refine (hsplit aes).mpr ⟨hparts aes, ?_⟩
      rw [hceil, hcrypt]
      exact hothers aes

end Parts

theorem oneRunEachFrom_iff {low crypt off : ℕ} {parts : List ℕ} :
    OneRunEachFrom low crypt off parts ↔
      ∀ before n after, parts = before ++ n :: after → n ≠ 0 →
        16 ∣ n ∧ n ≤ 16 * crypt ∧ low + (off + (before.map (· / 16)).sum) < 2 ^ 64 := by
  induction parts generalizing off with
  | nil => exact iff_of_true trivial fun before n after h => by simp at h
  | cons m rest ih =>
    rw [OneRunEachFrom, ih, forall_split_cons]
    simp only [List.map_cons, List.sum_cons, List.map_nil, List.sum_nil, Nat.add_zero, Nat.add_assoc]

/-- Whole parts have as many blocks together as one by one. -/
theorem sum_div_of_dvd {parts : List ℕ} (h : ∀ m ∈ parts, 16 ∣ m) :
    (parts.map (· / 16)).sum = parts.sum / 16 := by
  induction parts with
  | nil => rfl
  | cons m rest ih =>
    obtain ⟨hm, hrest⟩ := List.forall_mem_cons.mp h
    rw [List.map_cons, List.sum_cons, List.sum_cons, ih hrest, Nat.add_div_of_dvd_right hm]

theorem oneRunEach_iff {low crypt : ℕ} {parts : List ℕ} :
    OneRunEach low crypt parts ↔ OneRunEachFrom low crypt 0 parts := by
  rw [oneRunEachFrom_iff]
  unfold OneRunEach
  have hwhole : ∀ before n after, parts = before ++ n :: after →
      (∀ before n after, parts = before ++ n :: after → n ≠ 0 → 16 ∣ n) → ∀ m ∈ before, 16 ∣ m := by
    intro before n after hparts h m hm
    by_cases hzero : m = 0
    · rw [hzero]
      exact dvd_zero 16
    · obtain ⟨l, r, rfl⟩ := List.append_of_mem hm
      refine h l m (r ++ n :: after) ?_ hzero
      rw [hparts, List.append_assoc, List.cons_append]
  constructor
  · intro h before n after hparts hn
    obtain ⟨hn16, hrun, hlow⟩ := h before n after hparts hn
    refine ⟨hn16, hrun, ?_⟩
    rwa [Nat.zero_add, sum_div_of_dvd
      (hwhole before n after hparts fun b m a hsplit hm => (h b m a hsplit hm).1)]
  · intro h before n after hparts hn
    obtain ⟨hn16, hrun, hlow⟩ := h before n after hparts hn
    refine ⟨hn16, hrun, ?_⟩
    rwa [Nat.zero_add, sum_div_of_dvd
      (hwhole before n after hparts fun b m a hsplit hm => (h b m a hsplit hm).1)] at hlow

/-- **A sample** is decrypted with its pattern, under every cipher, if each of its parts is. -/
theorem decryptsPattern_iff_oneRunEachFrom {sample : Bytes} {info : SampleInfo} {key : Bytes}
    {crypt skip : ℕ} {civ : Option Bytes} (henc : info.isEncrypted = true)
    (hkey : key.length = 16 ∨ key.length = 32) (hskip : 1 ≤ skip)
    (hfit : subSampleTotal info.subSamples ≤ sample.length) (hlen : sample.length < 2 ^ 63) :
    (∀ aes : BlockCipher, DecryptsPattern aes sample info key crypt skip civ) ↔
      OneRunEachFrom (beAt (iv16 info.iv) 8 8) crypt 0
        (partLengths info.subSamples sample.length) := by
  rw [← decodeParts_eq_iff hkey (length_iv16 info.iv) hskip hfit (by omega)]
  refine forall_congr' fun aes => ?_
  unfold DecryptsPattern decryptSample
  rw [if_neg (not_not.mpr henc)]
  dsimp only
  rw [decryptSampleCenc_eq aes key hfit, Option.some_inj]
  rfl

/-- A `cens` sample is decrypted with its pattern, under every cipher, exactly if each of
its parts is one run of encrypted blocks. -/
theorem decryptsPattern_iff (sample : Bytes) (info : SampleInfo) (key : Bytes) (crypt skip : ℕ)
    (civ : Option Bytes) (henc : info.isEncrypted = true)
    (hkey : key.length = 16 ∨ key.length = 32) (hskip : 1 ≤ skip)
    (hfit : subSampleTotal info.subSamples ≤ sample.length) (hlen : sample.length < 2 ^ 63) :
    (∀ aes : BlockCipher, DecryptsPattern aes sample info key crypt skip civ) ↔
      OneRunEach (beAt (iv16 info.iv) 8 8) crypt (partLengths info.subSamples sample.length) := by
  rw [oneRunEach_iff]
  exact decryptsPattern_iff_oneRunEachFrom henc hkey hskip hfit hlen

/-- A sample of one block. -/
theorem decryptsPattern_block :
    DecryptsPattern (.constant 7) (List.replicate 16 0) ⟨true, [], []⟩ (List.replicate 16 0) 1 9
      none :=
  (decryptsPattern_iff _ _ _ _ _ _ rfl (.inl rfl) (by decide) (by decide) (by decide)).mpr
    (oneRunEach_iff.mpr (by decide +kernel)) _

/-- The second block is to be skipped. -/
theorem twoBlocks_not_decryptsPattern :
    ¬ ∀ (aes : BlockCipher) (sample : Bytes) (info : SampleInfo) (key : Bytes) (crypt skip : ℕ)
      (civ : Option Bytes), info.isEncrypted = true → key.length = 16 ∨ key.length = 32 →
        1 ≤ crypt → 1 ≤ skip → subSampleTotal info.subSamples ≤ sample.length →
          DecryptsPattern aes sample info key crypt skip civ := by
  intro h
  have hruns := (decryptsPattern_iff_oneRunEachFrom rfl (.inl rfl) (by decide) (by decide)
    (by decide)).mp fun aes => h aes (List.replicate 32 0) ⟨true, [], []⟩ (List.replicate 16 0) 1 9
      none rfl (.inl rfl) le_rfl (by decide) (by decide)
  exact absurd hruns (by decide +kernel)

end MediaFlow
