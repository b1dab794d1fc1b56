import MediaFlow.Drm.Keystream

/-!
# Seeking in the keystream

`aesCtrDecryptWithOffset` is meant to decrypt from the middle of a keystream: `offset` blocks
further on. It adds the offset to the low half of the counter, while the cipher counts over all of
it. `seeks_iff`: the two are the same as long as nothing is carried out of the low half.
-/

open ByteString

namespace MediaFlow

/-! ### Blocks of the keystream -/

/-- A text that begins later in the keystream. -/
theorem drop_ctr_append (aes : BlockCipher) (key : Bytes) (counter : ℕ) (pre data : Bytes) :
    (aes.ctr key counter (pre ++ data)).drop pre.length = aes.ctrFrom key counter pre.length
        data := by
  rw [← BlockCipher.ctrFrom_zero, BlockCipher.ctrFrom_append,
    List.drop_left' (BlockCipher.length_ctrFrom ..), Nat.zero_add]

/-- **A whole block tells counters apart**, for a cipher under which different blocks do not become
the same. -/
theorem counter_eq_of_ctr_eq {aes : BlockCipher} {key : Bytes}
    (haes : Function.Injective (aes.encryptBlock key)) {counter counter' k : ℕ} {data : Bytes}
    (hdata : 16 ≤ data.length)
    (h : aes.ctr key counter' data = aes.ctrFrom key counter (16 * k) data) :
    counter' % 2 ^ 128 = (counter + k) % 2 ^ 128 := by
  have hpos : 0 < 2 ^ 128 := by norm_num
  have hpow : 2 ^ 128 = 256 ^ 16 := by norm_num
  have hlt : ∀ n, n % 2 ^ 128 < 256 ^ 16 := fun n => hpow ▸ Nat.mod_lt n hpos
  refine BlockCipher.ofBytes_toBe_inj (hlt _) (hlt _) (haes (funext fun i => ?_))
  -- byte `i` of the data is in the first block
  have hi : (i : ℕ) < data.length := i.isLt.trans_le hdata
  have hbyte := congrArg (·[(i : ℕ)]?) h
  rw [BlockCipher.ctr_eq_xorWith] at hbyte
  unfold BlockCipher.ctrFrom xorWith at hbyte
  simp only [List.getElem?_mapIdx, List.getElem?_eq_getElem hi, Option.map_some,
    Option.some.injEq] at hbyte
  have hstream := xor_right_cancel hbyte
  have hdiv : (i : ℕ) / 16 = 0 := Nat.div_eq_of_lt i.isLt
  have hmod : (i : ℕ) % 16 = i := Nat.mod_eq_of_lt i.isLt
  unfold BlockCipher.keystream at hstream
  simp only [Nat.mul_add_div (show 16 > 0 by decide), Nat.mul_add_mod, hdiv, hmod, Nat.add_zero,
    Fin.eta] at hstream
  exact hstream

/-! ### The counter of an offset -/

/-- The counter does not carry out of its low half, `low` at first, in `k` blocks. Only a number of
blocks beyond all memory takes the counter around. -/
def NoCarry (low k : ℕ) : Prop := (low + k) % 2 ^ 128 < 2 ^ 64

instance (low k : ℕ) : Decidable (NoCarry low k) := inferInstanceAs (Decidable (_ < _))

section Counter

variable {iv : Bytes} (hiv : iv.length = 16)

include hiv

theorem ofBe_ivWithOffset_mod (k : ℕ) :
    ofBe (ivWithOffset iv k) = ofBe (iv.take 8) * 2 ^ 64 + (beAt iv 8 8 + k) % 2 ^ 64 := by
  by_cases hk : k = 0
  · rw [hk]
    exact ofBe_ivWithOffset hiv (by norm_num)
  have hmod := Nat.mod_lt (beAt iv 8 8 + k % 2 ^ 64) (show 0 < 2 ^ 64 by norm_num)
  unfold ivWithOffset
  rw [if_pos (Nat.pos_of_ne_zero hk), ofBe_append, length_toBe,
    ofBe_toBe (hmod.trans_le (by norm_num)),
    Nat.add_mod_mod]
  norm_num

/-- **The counter that is set** is the one that the keystream has there. -/
theorem offsetCounter_iff (k : ℕ) :
    ofBe (ivWithOffset iv k) % 2 ^ 128 = (ofBe iv + k) % 2 ^ 128 ↔ NoCarry (beAt iv 8 8) k := by
  have hlow := beAt_lt iv 8 8
  have hhigh : ofBe (iv.take 8) < 2 ^ 64 := by
    have h := ofBe_lt (iv.take 8)
    rwa [List.length_take, hiv] at h
  unfold NoCarry
  rw [ofBe_ivWithOffset_mod hiv, ofBe_iv hiv]
  omega

end Counter

/-! ### Seeking -/

/-- With the offset, the data is decrypted as it is behind any bytes of that many blocks. -/
def Seeks (aes : BlockCipher) (key iv : Bytes) (k : ℕ) (data : Bytes) : Prop :=
  ∀ pre : Bytes, pre.length = 16 * k → aesCtrDecryptWithOffset aes key iv data k =
    (aesCtrDecrypt aes key iv (pre ++ data)).drop (16 * k)

/-- The key has one of the two lengths for which there is a cipher. -/
def SupportedKey (key : Bytes) : Prop := key.length = 16 ∨ key.length = 32

section Seek

variable {aes : BlockCipher} {key iv : Bytes} {k : ℕ} {data : Bytes}

theorem seeks_of_not_supportedKey (hkey : ¬ SupportedKey key) : Seeks aes key iv k data := by
  intro pre hpre
  have hcopied : ∀ d off, aesCtrDecryptWithOffset aes key iv d off = d := fun d off => if_neg hkey
  unfold aesCtrDecrypt
  rw [hcopied, hcopied, List.drop_left' hpre]

theorem seeks_iff_ctr (hkey : SupportedKey key) :
    Seeks aes key iv k data ↔
      aes.ctr key (ofBe (ivWithOffset iv k)) data = aes.ctrFrom key (ofBe iv) (16 * k) data := by
  have hoffset : aesCtrDecryptWithOffset aes key iv data k
      = aes.ctr key (ofBe (ivWithOffset iv k)) data := if_pos hkey
  have hwhole : ∀ d, aesCtrDecrypt aes key iv d = aes.ctr key (ofBe iv) d := fun d => if_pos hkey
  have hdrop : ∀ pre : Bytes, pre.length = 16 * k →
      (aes.ctr key (ofBe iv) (pre ++ data)).drop (16 * k)
        = aes.ctrFrom key (ofBe iv) (16 * k) data := by
    intro pre hpre
    rw [← hpre, drop_ctr_append]
  unfold Seeks
  rw [hoffset]
  constructor
  · intro h
    have hzeros : (List.replicate (16 * k) (0 : UInt8)).length = 16 * k := List.length_replicate
    rw [h _ hzeros, hwhole, hdrop _ hzeros]
  · intro h pre hpre
    rw [h, hwhole, hdrop pre hpre]

end Seek

/-- **Seeking.** Nothing is carried out of the low half of the counter, unless the key is not one
for a cipher at all: then every text is decrypted right, and otherwise none that has a block. -/
theorem seeks_iff (aes : BlockCipher) (key iv : Bytes) (k : ℕ)
    (haes : Function.Injective (aes.encryptBlock key)) (hiv : iv.length = 16) :
    ((SupportedKey key → NoCarry (beAt iv 8 8) k) → ∀ data, Seeks aes key iv k data) ∧
      ∀ data, 16 ≤ data.length →
        (Seeks aes key iv k data ↔ (SupportedKey key → NoCarry (beAt iv 8 8) k)) := by
  have hseeks : (SupportedKey key → NoCarry (beAt iv 8 8) k) → ∀ data, Seeks aes key iv k data := by
    intro h data
    by_cases hkey : SupportedKey key
    · rw [seeks_iff_ctr hkey]
      exact aes.ctrFrom_blocks key k ((offsetCounter_iff hiv k).mpr (h hkey)) data
    · exact seeks_of_not_supportedKey hkey
  refine ⟨hseeks, fun data hdata => ⟨fun h hkey => ?_, fun h => hseeks h data⟩⟩
  rw [seeks_iff_ctr hkey] at h
  exact (offsetCounter_iff hiv k).mp (counter_eq_of_ctr_eq haes hdata h)

/-- A cipher that leaves blocks as they are. -/
def blocksAsTheyAre : BlockCipher := ⟨fun _ b => b, fun _ b => b⟩

/-- An IV of 8 bytes, three blocks on. -/
theorem seeks_three :
    Seeks blocksAsTheyAre (List.replicate 16 0) (iv16 (List.replicate 8 255)) 3 [1, 2, 3] :=
  (seeks_iff blocksAsTheyAre (List.replicate 16 0) (iv16 (List.replicate 8 255)) 3 (fun _ _ h => h)
    (length_iv16 _)).1 (fun _ => by decide) _

/-- The low half is at its end: under no cipher is the second block decrypted right. -/
theorem not_seeks_wrapped :
    ¬ ∃ aes : BlockCipher, Function.Injective (aes.encryptBlock (List.replicate 16 0)) ∧
      Seeks aes (List.replicate 16 0) (List.replicate 8 0 ++ List.replicate 8 255) 1
        (List.replicate 16 0) := by
  rintro ⟨aes, haes, h⟩
  rw [seeks_iff_ctr (.inl rfl)] at h
  have hcounter := counter_eq_of_ctr_eq haes (by decide) h
  exact absurd ((offsetCounter_iff rfl 1).mp hcounter) (by decide)

end MediaFlow
