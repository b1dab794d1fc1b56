import MediaFlow.Drm.Sample
import MediaFlow.Lib.Patches

/-!
# The pattern of `cbcs`

`decryptCbcsPattern` gathers the encrypted blocks of the data, decrypts them as one chain and puts
them back. `decryptCbcsPattern_spec` says block by block what this makes of the data.
-/

open ByteString

namespace MediaFlow

/-- Block `j` of a part is encrypted. -/
def InCrypt (crypt skip j : ℕ) : Prop := j % (crypt + skip) < crypt

instance (crypt skip j : ℕ) : Decidable (InCrypt crypt skip j) := inferInstanceAs (Decidable (_ < _))

/-- Byte `i` of a part of `len` bytes is to be decrypted: it is in a complete encrypted block. -/
def ToDecrypt (crypt skip len i : ℕ) : Prop :=
  16 * (i / 16 + 1) ≤ len ∧ InCrypt crypt skip (i / 16)

instance (crypt skip len i : ℕ) : Decidable (ToDecrypt crypt skip len i) :=
  inferInstanceAs (Decidable (_ ∧ _))

/-- The last encrypted block before block `j`. -/
def prevCrypt (crypt skip : ℕ) : ℕ → Option ℕ
  | 0 => none
  | j + 1 => if InCrypt crypt skip j then some j else prevCrypt crypt skip j

/-- The block that is chained to block `j`: the last encrypted one before it, at first the IV. -/
def chained (iv data : Bytes) (crypt skip j : ℕ) : Block :=
  match prevCrypt crypt skip j with
  | none => Block.ofBytes iv
  | some j' => blockAt data j'

/-- Byte `i` decrypted. -/
def cbcsByte (aes : BlockCipher) (key iv data : Bytes) (crypt skip i : ℕ) : UInt8 :=
  aes.decryptBlock key (blockAt data (i / 16)) (byteOf i) ^^^
    chained iv data crypt skip (i / 16) (byteOf i)

/-- The complete encrypted blocks are decrypted as one chain, and all other bytes stay. -/
structure PatternDecrypted (aes : BlockCipher) (key iv data : Bytes) (crypt skip : ℕ) (out : Bytes) :
    Prop where
  decrypted : ∀ i, ToDecrypt crypt skip data.length i →
    out[i]? = some (cbcsByte aes key iv data crypt skip i)
  kept : ∀ i, ¬ ToDecrypt crypt skip data.length i → out[i]? = data[i]?

/-! ### Runs of blocks -/

section Runs

variable {crypt skip : ℕ}

/-- Within a period, the encrypted blocks come first. -/
theorem inCrypt_add_iff {q m : ℕ} (hq : q % (crypt + skip) = 0) (hm : m < crypt + skip) :
    InCrypt crypt skip (q + m) ↔ m < crypt := by
  unfold InCrypt
  rw [Nat.add_mod, hq, Nat.zero_add, Nat.mod_mod, Nat.mod_eq_of_lt hm]

theorem prevCrypt_succ {j : ℕ} (h : InCrypt crypt skip j) :
    prevCrypt crypt skip (j + 1) = some j := if_pos h

/-- A gap is passed over. -/
theorem prevCrypt_gap {q n : ℕ} (hq : q % (crypt + skip) = 0) (hcrypt : 1 ≤ crypt) (hn : n ≤ skip) :
    prevCrypt crypt skip (q + crypt + n) = some (q + crypt - 1) := by
  induction n with
  | zero =>
    have hlast : InCrypt crypt skip (q + crypt - 1) := by
      rw [Nat.add_sub_assoc hcrypt]
      exact (inCrypt_add_iff hq (by omega)).mpr (by omega)
    have hsucc := prevCrypt_succ hlast
    rwa [Nat.sub_add_cancel (by omega)] at hsucc
  | succ n ih =>
    have hgap : ¬ InCrypt crypt skip (q + crypt + n) := by
      rw [Nat.add_assoc, inCrypt_add_iff hq (by omega)]
      omega
    rw [← Nat.add_assoc, prevCrypt, if_neg hgap]
    exact ih (by omega)

variable {aes : BlockCipher} {key iv data : Bytes}

/-- **A run of encrypted blocks**, decrypted and put back. -/
theorem patch_run {q m : ℕ} {result : Bytes} (hlen : result.length = data.length)
    (hinside : 16 * (q + m) ≤ data.length) (hrun : ∀ n < m, InCrypt crypt skip (q + n)) (i : ℕ) :
    (patch result (16 * q) (aes.cbcDecrypt key m (chained iv data crypt skip q)
        ((data.drop (16 * q)).take (16 * m))))[i]? =
      if 16 * q ≤ i ∧ i < 16 * (q + m) then some (cbcsByte aes key iv data crypt skip i)
      else result[i]? := by
  have hpiece : ((data.drop (16 * q)).take (16 * m)).length = 16 * m := by
    rw [List.length_take, List.length_drop]
    omega
  have hdec := aes.length_cbcDecrypt key (chained iv data crypt skip q) hpiece.ge
  rw [getElem?_patch (by rw [hdec, hpiece, hlen]; omega), hdec, hpiece, ← Nat.mul_add]
  by_cases hi : 16 * q ≤ i ∧ i < 16 * (q + m)
  · rw [if_pos hi, if_pos hi, aes.getElem?_cbcDecrypt key hpiece.ge (by omega)]
    have hblock : ∀ n < m, blockAt ((data.drop (16 * q)).take (16 * m)) n = blockAt data (q + n) := by
      intro n hn
      unfold blockAt
      rw [List.drop_take, List.take_take, Nat.min_eq_left (by omega), List.drop_drop, Nat.mul_add]
    have hbyte : byteOf (i - 16 * q) = byteOf i :=
      Fin.ext (show (i - 16 * q) % 16 = i % 16 by omega)
    have hplace : q + (i - 16 * q) / 16 = i / 16 := by omega
    have hchain : (if (i - 16 * q) / 16 = 0 then chained iv data crypt skip q
        else blockAt ((data.drop (16 * q)).take (16 * m)) ((i - 16 * q) / 16 - 1)) =
        chained iv data crypt skip (i / 16) := by
      by_cases hfirst : (i - 16 * q) / 16 = 0
      · rw [if_pos hfirst, ← hplace, hfirst, Nat.add_zero]
      · have hprev := prevCrypt_succ (hrun ((i - 16 * q) / 16 - 1) (by omega))
        rw [show q + ((i - 16 * q) / 16 - 1) + 1 = i / 16 by omega] at hprev
        rw [if_neg hfirst, hblock _ (by omega)]
        unfold chained
        rw [hprev]
    unfold cbcsByte
    rw [hblock _ (by omega), hplace, hbyte, hchain]
  · rw [if_neg hi, if_neg hi]

/-- In the period from block `q` on, only the first complete blocks are decrypted. -/
theorem toDecrypt_period_iff {q i len : ℕ} (hq : q % (crypt + skip) = 0) (hlo : 16 * q ≤ i)
    (hhi : i < 16 * (q + crypt + skip)) :
    ToDecrypt crypt skip len i ↔ 16 * (i / 16 + 1) ≤ len ∧ i < 16 * (q + crypt) := by
  have hplace : q + (i / 16 - q) = i / 16 := by omega
  have hin := @inCrypt_add_iff crypt skip q (i / 16 - q) hq (by omega)
  rw [hplace] at hin
  unfold ToDecrypt
  rw [hin]
  omega

/-- The same in a period that the data end. -/
theorem toDecrypt_last_iff {q i len : ℕ} (hq : q % (crypt + skip) = 0) (hlo : 16 * q ≤ i)
    (hend : len ≤ 16 * (q + crypt + skip)) :
    ToDecrypt crypt skip len i ↔ 16 * (i / 16 + 1) ≤ len ∧ i < 16 * (q + crypt) := by
  by_cases hhi : i < 16 * (q + crypt + skip)
  · exact toDecrypt_period_iff hq hlo hhi
  · refine iff_of_false (fun h => ?_) (by omega)
    have hcomplete := h.1
    omega

/-- The bytes that the spans from block `q` on take. -/
def spanBytes (data : Bytes) (spans : List (ℕ × ℕ)) : Bytes :=
  spans.flatMap fun p => (data.drop p.1).take p.2

/-- A whole run is decrypted and put back by itself, and hands its last block on as the chain. -/
theorem writeSpans_run (hcrypt : 1 ≤ crypt) {q : ℕ} (hq : q % (crypt + skip) = 0)
    (hfull : 16 * q + crypt * 16 ≤ data.length) (later : List (ℕ × ℕ)) (result : Bytes) :
    writeSpans ((16 * q, crypt * 16) :: later)
        (aes.cbcDecrypt key ((spanBytes data ((16 * q, crypt * 16) :: later)).length / 16)
          (chained iv data crypt skip q) (spanBytes data ((16 * q, crypt * 16) :: later))) result =
      writeSpans later
        (aes.cbcDecrypt key ((spanBytes data later).length / 16)
          (chained iv data crypt skip (q + crypt + skip)) (spanBytes data later))
        (patch result (16 * q) (aes.cbcDecrypt key crypt (chained iv data crypt skip q)
          ((data.drop (16 * q)).take (16 * crypt)))) := by
  have hpiece : ((data.drop (16 * q)).take (16 * crypt)).length = 16 * crypt := by
    rw [List.length_take, List.length_drop]
    omega
  have hdec := aes.length_cbcDecrypt key (chained iv data crypt skip q) hpiece.ge
  rw [hpiece] at hdec
  have hlast : blockAt ((data.drop (16 * q)).take (16 * crypt)) (crypt - 1) =
      chained iv data crypt skip (q + crypt + skip) := by
    unfold chained
    rw [prevCrypt_gap hq hcrypt le_rfl]
    unfold blockAt
    rw [List.drop_take, List.take_take, Nat.min_eq_left (by omega), List.drop_drop,
      show 16 * q + 16 * (crypt - 1) = 16 * (q + crypt - 1) by omega]
  have hbytes : spanBytes data ((16 * q, crypt * 16) :: later) =
      (data.drop (16 * q)).take (16 * crypt) ++ spanBytes data later := by
    rw [Nat.mul_comm crypt]
    rfl
  have hblocks : (spanBytes data ((16 * q, crypt * 16) :: later)).length / 16 =
      crypt + (spanBytes data later).length / 16 := by
    rw [hbytes, List.length_append, hpiece, Nat.mul_add_div (by norm_num)]
  rw [hblocks, hbytes, aes.cbcDecrypt_append key hpiece, if_neg (by omega), hlast, writeSpans,
    Nat.mul_comm crypt, List.drop_left' hdec, List.take_left' hdec]

/-- The last run, which the data cut off, has only its complete blocks. -/
theorem writeSpans_cutRun {q : ℕ} {result : Bytes} (hq : q % (crypt + skip) = 0)
    (hlen : result.length = data.length) (hinside : 16 * q < data.length)
    (hcut : ¬ 16 * q + crypt * 16 ≤ data.length) (i : ℕ) :
    let complete := (data.length - 16 * q) / 16 * 16
    let spans := if complete > 0 then [(16 * q, complete)] else []
    (writeSpans spans (aes.cbcDecrypt key ((spanBytes data spans).length / 16)
        (chained iv data crypt skip q) (spanBytes data spans)) result)[i]? =
      if 16 * q ≤ i ∧ ToDecrypt crypt skip data.length i then
        some (cbcsByte aes key iv data crypt skip i)
      else result[i]? := by
  have hblocks : (data.length - 16 * q) / 16 < crypt := by omega
  have hrun := @patch_run crypt skip aes key iv data q ((data.length - 16 * q) / 16) result hlen
    (by omega) (fun n hn => (inCrypt_add_iff hq (by omega)).mpr (by omega)) i
  have hrest : (if 16 * q ≤ i ∧ i < 16 * (q + (data.length - 16 * q) / 16) then
        some (cbcsByte aes key iv data crypt skip i) else result[i]?) =
      if 16 * q ≤ i ∧ ToDecrypt crypt skip data.length i then
        some (cbcsByte aes key iv data crypt skip i) else result[i]? := by
    refine if_congr (and_congr_right fun hlo => ?_) rfl rfl
    rw [toDecrypt_last_iff hq hlo (by omega)]
    omega
  dsimp only
  rw [← hrest, ← hrun]
  by_cases hzero : (data.length - 16 * q) / 16 = 0
  · rw [hzero, Nat.zero_mul, if_neg (lt_irrefl 0)]
    exact (congrArg (·[i]?) (Patch.patch_nil result (16 * q))).symm
  · have hpiece : ((data.drop (16 * q)).take ((data.length - 16 * q) / 16 * 16)).length =
        (data.length - 16 * q) / 16 * 16 := by
      rw [List.length_take, List.length_drop]
      omega
    have hbytes : spanBytes data [(16 * q, (data.length - 16 * q) / 16 * 16)] =
        (data.drop (16 * q)).take ((data.length - 16 * q) / 16 * 16) := List.append_nil _
    rw [if_pos (by omega), hbytes, hpiece, Nat.mul_div_cancel _ (by norm_num), writeSpans,
      writeSpans, List.take_of_length_le, Nat.mul_comm _ 16]
    rw [aes.length_cbcDecrypt key _ (by rw [hpiece]; omega), hpiece]

/-- **The spans from block `q` on**, decrypted as one chain and put back. -/
theorem writeSpans_cbcsSpans (hcrypt : 1 ≤ crypt) {fuel q : ℕ} {result : Bytes}
    (hq : q % (crypt + skip) = 0) (hlen : result.length = data.length)
    (hfuel : data.length ≤ 16 * q + fuel) (i : ℕ) :
    let spans := cbcsSpans data.length (crypt * 16) (skip * 16) fuel (16 * q)
    (writeSpans spans (aes.cbcDecrypt key ((spanBytes data spans).length / 16)
        (chained iv data crypt skip q) (spanBytes data spans)) result)[i]? =
      if 16 * q ≤ i ∧ ToDecrypt crypt skip data.length i then
        some (cbcsByte aes key iv data crypt skip i)
      else result[i]? := by
  induction fuel generalizing q result with
  | zero =>
    refine (if_neg fun h => ?_).symm
    have hcomplete := h.2.1
    omega
  | succ fuel ih =>
    dsimp only
    rw [cbcsSpans]
    by_cases hend : data.length ≤ 16 * q
    · rw [if_neg (Nat.not_lt.mpr hend)]
      refine (if_neg fun h => ?_).symm
      have hcomplete := h.2.1
      omega
    rw [if_pos (Nat.not_le.mp hend)]
    by_cases hfull : 16 * q + crypt * 16 ≤ data.length
    · -- a whole run, and the spans after the gap
      rw [if_pos hfull, writeSpans_run hcrypt hq hfull]
      have hrun := @patch_run crypt skip aes key iv data q crypt result hlen (by omega)
        (fun n hn => (inCrypt_add_iff hq (by omega)).mpr hn)
      by_cases hgap : 16 * q + crypt * 16 + skip * 16 ≤ data.length
      · rw [if_pos hgap, show 16 * q + crypt * 16 + skip * 16 = 16 * (q + crypt + skip) by ring]
        have hperiod : (q + crypt + skip) % (crypt + skip) = 0 := by
          rw [Nat.add_assoc, Nat.add_mod_right, hq]
        have hpiece : 16 * crypt ≤ ((data.drop (16 * q)).take (16 * crypt)).length := by
          rw [List.length_take, List.length_drop]
          omega
        have hpatch : (patch result (16 * q) (aes.cbcDecrypt key crypt (chained iv data crypt skip q)
            ((data.drop (16 * q)).take (16 * crypt)))).length = data.length := by
          rw [length_patch ?_, hlen]
          rw [aes.length_cbcDecrypt key _ hpiece, List.length_take, List.length_drop, hlen]
          omega
        refine (ih hperiod hpatch (by omega)).trans ?_
        rw [hrun i]
        by_cases hlater : 16 * (q + crypt + skip) ≤ i
        · rw [if_neg (show ¬ (16 * q ≤ i ∧ i < 16 * (q + crypt)) by omega)]
          refine if_congr ?_ rfl rfl
          exact and_congr_left fun _ => iff_of_true hlater (by omega)
        · rw [if_neg fun h => hlater h.1]
          refine if_congr (and_congr_right fun hlo => ?_) rfl rfl
          rw [toDecrypt_period_iff hq hlo (Nat.not_le.mp hlater)]
          omega
      · rw [if_neg hgap]
        refine (hrun i).trans (if_congr (and_congr_right fun hlo => ?_) rfl rfl)
        rw [toDecrypt_last_iff hq hlo (by omega)]
        omega
    · rw [if_neg hfull]
      exact writeSpans_cutRun hq hlen (Nat.not_le.mp hend) hfull i

end Runs

/-! ### All of the data -/

section Whole

variable {aes : BlockCipher} {key iv data : Bytes} {crypt skip : ℕ}

theorem aesCbcDecryptFullBlocks_eq (hkey : key.length = 16 ∨ key.length = 32) (data : Bytes) :
    aesCbcDecryptFullBlocks aes key iv data =
      aes.cbcDecrypt key (data.length / 16) (Block.ofBytes iv) data := by
  unfold aesCbcDecryptFullBlocks
  dsimp only
  by_cases hnone : data.length / 16 = 0
  · rw [if_pos hnone, hnone]
    rfl
  · rw [if_neg hnone, if_pos hkey]

/-- Without gaps, every complete block is encrypted. -/
theorem patternDecrypted_noGap (hkey : key.length = 16 ∨ key.length = 32) (hcrypt : 1 ≤ crypt) :
    PatternDecrypted aes key iv data crypt 0 (aesCbcDecryptFullBlocks aes key iv data) := by
  have hin : ∀ j, InCrypt crypt 0 j := fun j => Nat.mod_lt j hcrypt
  have htotal : 16 * (data.length / 16) ≤ data.length := Nat.mul_div_le _ _
  have hdecrypt : ∀ i, ToDecrypt crypt 0 data.length i ↔ i < 16 * (data.length / 16) := by
    intro i
    unfold ToDecrypt
    rw [and_iff_left (hin _)]
    omega
  rw [aesCbcDecryptFullBlocks_eq hkey]
  refine ⟨fun i hi => ?_, fun i hi => ?_⟩
  · rw [aes.getElem?_cbcDecrypt key htotal ((hdecrypt i).mp hi)]
    unfold cbcsByte chained
    cases hblock : i / 16 with
    | zero => rfl
    | succ j => rw [if_neg (Nat.succ_ne_zero j), prevCrypt_succ (hin j), Nat.add_sub_cancel]
  · rw [hdecrypt, Nat.not_lt] at hi
    have htake : (data.take (16 * (data.length / 16))).length = 16 * (data.length / 16) := by
      rw [List.length_take]
      exact Nat.min_eq_left htotal
    have hdec := aes.length_cbcDecrypt key (Block.ofBytes iv) htake.ge
    rw [htake] at hdec
    rw [aes.cbcDecrypt_tail key _ htotal, List.getElem?_append_right (by rwa [hdec]), hdec,
      List.getElem?_drop, Nat.add_sub_cancel' hi]

/-- With gaps, the spans are decrypted. -/
theorem patternDecrypted_gaps (hkey : key.length = 16 ∨ key.length = 32) (hcrypt : 1 ≤ crypt) :
    let spans := cbcsSpans data.length (crypt * 16) (skip * 16) data.length 0
    PatternDecrypted aes key iv data crypt skip
      (writeSpans spans (aesCbcDecryptFullBlocks aes key iv (spanBytes data spans)) data) := by
  dsimp only
  rw [aesCbcDecryptFullBlocks_eq hkey]
  have hbyte := @writeSpans_cbcsSpans crypt skip aes key iv data hcrypt data.length 0 data
    (Nat.zero_mod _) rfl (Nat.le_add_left _ _)
  refine ⟨fun i hi => ?_, fun i hi => ?_⟩
  · exact (hbyte i).trans (if_pos ⟨Nat.zero_le i, hi⟩)
  · exact (hbyte i).trans (if_neg fun h => hi h.2)

theorem patch_self {l : Bytes} {pos n : ℕ} (h : pos + n ≤ l.length) :
    patch l pos ((l.drop pos).take n) = l := by
  have hlen : ((l.drop pos).take n).length = n := by
    rw [List.length_take, List.length_drop]
    omega
  unfold patch
  rw [hlen, List.append_assoc, ← List.drop_drop, List.take_append_drop, List.take_append_drop]

/-- Pieces that are put back as they are. -/
theorem writeSpans_self {spans : List (ℕ × ℕ)} (h : ∀ p ∈ spans, p.1 + p.2 ≤ data.length) :
    writeSpans spans (spanBytes data spans) data = data := by
  induction spans with
  | nil => rfl
  | cons p spans ih =>
    obtain ⟨pos, len⟩ := p
    obtain ⟨hp, hspans⟩ := List.forall_mem_cons.mp h
    have hpiece : ((data.drop pos).take len).length = len := by
      rw [List.length_take, List.length_drop]
      dsimp only at hp
      omega
    have hbytes : spanBytes data ((pos, len) :: spans) =
        (data.drop pos).take len ++ spanBytes data spans := rfl
    rw [hbytes, writeSpans, List.take_left' hpiece, List.drop_left' hpiece, patch_self hp, ih hspans]

end Whole

/-- Of data of any length, the complete encrypted blocks are decrypted as one chain and all
other bytes stay. With a key that is none of AES, all bytes stay. -/
theorem decryptCbcsPattern_spec (aes : BlockCipher) (key iv data : Bytes) (crypt skip : ℕ)
    (hcrypt : 1 ≤ crypt) :
    (decryptCbcsPattern aes key iv crypt skip data).length = data.length ∧
      (key.length = 16 ∨ key.length = 32 →
        PatternDecrypted aes key iv data crypt skip (decryptCbcsPattern aes key iv crypt skip data)) ∧
      (¬ (key.length = 16 ∨ key.length = 32) →
        decryptCbcsPattern aes key iv crypt skip data = data) := by
  refine ⟨length_decryptCbcsPattern aes key iv crypt skip data, fun hkey => ?_, fun hkey => ?_⟩
  · unfold decryptCbcsPattern
    by_cases hnone : data = [] ∨ crypt = 0
    · obtain rfl := hnone.resolve_right (by omega)
      rw [if_pos hnone]
      refine ⟨fun i hi => ?_, fun i _ => rfl⟩
      exact absurd hi.1 (by simp)
    rw [if_neg hnone]
    by_cases hgap : skip * 16 = 0
    · obtain rfl : skip = 0 := by omega
      rw [if_pos hgap]
      exact patternDecrypted_noGap hkey hcrypt
    rw [if_neg hgap]
    show PatternDecrypted aes key iv data crypt skip
      (if spanBytes data (cbcsSpans data.length (crypt * 16) (skip * 16) data.length 0) = [] then data
      else writeSpans _ (aesCbcDecryptFullBlocks aes key iv (spanBytes data _)) data)
    by_cases hempty : spanBytes data
        (cbcsSpans data.length (crypt * 16) (skip * 16) data.length 0) = []
    · rw [if_pos hempty]
      have hgaps := @patternDecrypted_gaps aes key iv data crypt skip hkey hcrypt
      have hself := @writeSpans_self data _
        (@cbcsSpans_le data.length (crypt * 16) (skip * 16) data.length 0)
      dsimp only at hgaps
      rw [hempty] at hgaps hself
      rwa [show aesCbcDecryptFullBlocks aes key iv [] = [] from rfl, hself] at hgaps
    · rw [if_neg hempty]
      exact patternDecrypted_gaps hkey hcrypt
  · have hkeep : ∀ d : Bytes, aesCbcDecryptFullBlocks aes key iv d = d := by
      intro d
      unfold aesCbcDecryptFullBlocks
      dsimp only
      rw [if_neg hkey, ite_self]
    unfold decryptCbcsPattern
    dsimp only
    simp only [hkeep]
    have hself := @writeSpans_self data _
      (@cbcsSpans_le data.length (crypt * 16) (skip * 16) data.length 0)
    unfold spanBytes at hself
    rw [hself, ite_self, ite_self, ite_self]

/-- Twelve bytes more than a block, of which only the block is encrypted. -/
theorem decryptCbcsPattern_spec_block :
    PatternDecrypted (.constant 7) (List.replicate 16 0) (List.replicate 16 0) (List.replicate 28 0)
      1 9 (decryptCbcsPattern (.constant 7) (List.replicate 16 0) (List.replicate 16 0) 1 9
        (List.replicate 28 0)) :=
  (decryptCbcsPattern_spec (.constant 7) (List.replicate 16 0) (List.replicate 16 0)
    (List.replicate 28 0) 1 9 le_rfl).2.1 (.inl rfl)

end MediaFlow
