import MediaFlow.Lib.Bytes

/-!
# Block cipher modes

Counter mode and cipher-block-chaining decryption of byte strings, over an arbitrary 16-byte
block function. Nothing is assumed of the block function: the two modes keep the length of the
data whatever it is.
-/

namespace ByteString

/-- A 16-byte cipher block. -/
abbrev Block := Fin 16 → UInt8

/-- The block made of the first 16 bytes of `l`, padded with zeros. -/
def Block.ofBytes (l : Bytes) : Block := fun i => l.getD i 0

/-- The bytes of a block. -/
def Block.bytes (b : Block) : Bytes := List.ofFn b

@[simp] theorem Block.length_bytes (b : Block) : b.bytes.length = 16 := List.length_ofFn

/-- Block `j` of `data`. -/
def blockAt (data : Bytes) (j : ℕ) : Block := Block.ofBytes ((data.drop (16 * j)).take 16)

/-- The place of byte `i` in its block. -/
def byteOf (i : ℕ) : Fin 16 := ⟨i % 16, Nat.mod_lt i (by norm_num)⟩

/-- A byte, by its block. -/
theorem getElem?_eq_blockAt {data : Bytes} {i : ℕ} (h : i < data.length) :
    data[i]? = some (blockAt data (i / 16) (byteOf i)) := by
  unfold blockAt Block.ofBytes byteOf
  dsimp only
  rw [List.getD_eq_getElem?_getD, List.getElem?_take_of_lt (Nat.mod_lt i (by norm_num)),
    List.getElem?_drop, Nat.div_add_mod, List.getElem?_eq_getElem h, Option.getD_some]

/-- Every byte of `data` with the byte of `ks` at its place. -/
def xorWith (ks : ℕ → UInt8) (data : Bytes) : Bytes := data.mapIdx fun i b => b ^^^ ks i

@[simp] theorem length_xorWith (ks : ℕ → UInt8) (data : Bytes) :
    (xorWith ks data).length = data.length := List.length_mapIdx

@[simp] theorem xorWith_nil (ks : ℕ → UInt8) : xorWith ks [] = [] := rfl

theorem xorWith_append (ks : ℕ → UInt8) (a b : Bytes) :
    xorWith ks (a ++ b) = xorWith ks a ++ xorWith (fun i => ks (a.length + i)) b := by
  unfold xorWith
  simp only [List.mapIdx_append, Nat.add_comm]

/-- The same keystream a second time. -/
theorem xorWith_xorWith (ks : ℕ → UInt8) (data : Bytes) : xorWith ks (xorWith ks data) = data := by
  unfold xorWith
  refine List.ext_getElem (by simp) fun i hi _ => ?_
  rw [List.getElem_mapIdx, List.getElem_mapIdx, UInt8.xor_assoc, UInt8.xor_self, UInt8.xor_zero]

theorem xor_right_cancel {b c d : UInt8} (h : b ^^^ c = b ^^^ d) : c = d := by
  have hcancel := congrArg (b ^^^ ·) h
  simpa only [← UInt8.xor_assoc, UInt8.xor_self, UInt8.zero_xor] using hcancel

/-- The first bytes determine those of the keystreams. -/
theorem xorWith_head {ks ks' : ℕ → UInt8} {b : UInt8} {data : Bytes}
    (h : xorWith ks (b :: data) = xorWith ks' (b :: data)) : ks 0 = ks' 0 := by
  unfold xorWith at h
  rw [List.mapIdx_cons, List.mapIdx_cons] at h
  exact xor_right_cancel (List.cons.inj h).1

/-- A raw block cipher: the permutations of a key in both directions. -/
structure BlockCipher where
  encryptBlock : Bytes → Block → Block
  decryptBlock : Bytes → Block → Block

namespace BlockCipher

/-- The block functions that are constant. -/
def constant (b : UInt8) : BlockCipher := ⟨fun _ _ _ => b, fun _ _ _ => b⟩

variable (cipher : BlockCipher) (key : Bytes)

/-- Byte `i` of the keystream of a 128-bit big-endian counter started at `counter`. -/
def keystream (counter i : ℕ) : UInt8 :=
  cipher.encryptBlock key (Block.ofBytes (toBe 16 ((counter + i / 16) % 2 ^ 128)))
    ⟨i % 16, Nat.mod_lt _ (by norm_num)⟩

/-- Counter mode: encryption and decryption are the same exclusive-or. -/
def ctr (counter : ℕ) (data : Bytes) : Bytes :=
  data.mapIdx fun i b => b ^^^ cipher.keystream key counter i

/-- Decrypt `n` chained blocks, `prev` being the previous ciphertext block. What follows the
`n` blocks is left as it is. -/
def cbcDecrypt : ℕ → Block → Bytes → Bytes
  | 0, _, data => data
  | n + 1, prev, data =>
    let c := Block.ofBytes (data.take 16)
    Block.bytes (fun i => cipher.decryptBlock key c i ^^^ prev i)
      ++ cbcDecrypt n c (data.drop 16)

@[simp] theorem length_ctr (counter : ℕ) (data : Bytes) :
    (cipher.ctr key counter data).length = data.length := List.length_mapIdx

theorem length_cbcDecrypt {n : ℕ} (prev : Block) {data : Bytes} (h : 16 * n ≤ data.length) :
    (cipher.cbcDecrypt key n prev data).length = data.length := by
  induction n generalizing prev data with
  | zero => rfl
  | succ n ih =>
    have hdrop : (data.drop 16).length = data.length - 16 := List.length_drop
    rw [cbcDecrypt, List.length_append, Block.length_bytes, ih _ (by omega), hdrop]
    omega

/-! ### Chained blocks one by one -/

/-- A chain of blocks goes on with the last block of its first part. -/
theorem cbcDecrypt_append {a b : ℕ} {prev : Block} {x y : Bytes} (hx : x.length = 16 * a) :
    cipher.cbcDecrypt key (a + b) prev (x ++ y) =
      cipher.cbcDecrypt key a prev x ++
        cipher.cbcDecrypt key b (if a = 0 then prev else blockAt x (a - 1)) y := by
  induction a generalizing prev x with
  | zero =>
    rw [List.length_eq_zero_iff.mp hx, Nat.zero_add]
    rfl
  | succ a ih =>
    have hfirst : 16 ≤ x.length := by omega
    have hrest : (x.drop 16).length = 16 * a := by
      rw [List.length_drop]
      omega
    rw [Nat.add_right_comm, cbcDecrypt, cbcDecrypt, List.take_append_of_le_length hfirst,
      List.drop_append_of_le_length hfirst, ih hrest, if_neg (Nat.succ_ne_zero a),
      Nat.add_sub_cancel, List.append_assoc]
    by_cases hlast : a = 0
    · rw [if_pos hlast, hlast]
      rfl
    · rw [if_neg hlast]
      have hblock : blockAt (x.drop 16) (a - 1) = blockAt x a := by
        unfold blockAt
        rw [List.drop_drop, show 16 + 16 * (a - 1) = 16 * a by omega]
      rw [hblock]

theorem cbcDecrypt_tail {n : ℕ} (prev : Block) {data : Bytes} (h : 16 * n ≤ data.length) :
    cipher.cbcDecrypt key n prev data =
      cipher.cbcDecrypt key n prev (data.take (16 * n)) ++ data.drop (16 * n) := by
  have htake : (data.take (16 * n)).length = 16 * n := by
    rw [List.length_take]
    exact Nat.min_eq_left h
  have happend := @cbcDecrypt_append cipher key n 0 prev (data.take (16 * n)) (data.drop (16 * n))
    htake
  rwa [List.take_append_drop, Nat.add_zero] at happend

/-- **Byte `i` of a chain**, by its block and the block before. -/
theorem getElem?_cbcDecrypt {n i : ℕ} {prev : Block} {data : Bytes} (h : 16 * n ≤ data.length)
    (hi : i < 16 * n) :
    (cipher.cbcDecrypt key n prev data)[i]? =
      some (cipher.decryptBlock key (blockAt data (i / 16)) (byteOf i) ^^^
        (if i / 16 = 0 then prev else blockAt data (i / 16 - 1)) (byteOf i)) := by
  induction n generalizing prev data i with
  | zero => omega
  | succ n ih =>
    rw [cbcDecrypt]
    by_cases hfirst : i < 16
    · have hdiv : i / 16 = 0 := Nat.div_eq_of_lt hfirst
      have hbyte : byteOf i = ⟨i, hfirst⟩ := Fin.ext (Nat.mod_eq_of_lt hfirst)
      rw [List.getElem?_append_left (by rwa [Block.length_bytes]), hdiv, if_pos rfl, hbyte]
      unfold Block.bytes
      rw [List.getElem?_ofFn, dif_pos hfirst]
      rfl
    · have hrest : 16 * n ≤ (data.drop 16).length := by
        rw [List.length_drop]
        omega
      have hblock : ∀ m, blockAt (data.drop 16) m = blockAt data (m + 1) := by
        intro m
        unfold blockAt
        rw [List.drop_drop, show 16 + 16 * m = 16 * (m + 1) by omega]
      have hbyte : byteOf (i - 16) = byteOf i := Fin.ext (show (i - 16) % 16 = i % 16 by omega)
      have hdiv : (i - 16) / 16 + 1 = i / 16 := by omega
      rw [List.getElem?_append_right (by rw [Block.length_bytes]; omega), Block.length_bytes,
        ih hrest (by omega), hblock, hdiv, hbyte, if_neg (show i / 16 ≠ 0 by omega)]
      by_cases hsecond : (i - 16) / 16 = 0
      · rw [if_pos hsecond, ← hdiv, hsecond]
        rfl
      · rw [if_neg hsecond, hblock, Nat.sub_add_cancel (by omega), ← hdiv, Nat.add_sub_cancel]

/-! ### Counter mode from a byte of the keystream on -/

/-- Counter mode, started at byte `start` of the keystream. -/
def ctrFrom (counter start : ℕ) (data : Bytes) : Bytes :=
  xorWith (fun i => cipher.keystream key counter (start + i)) data

theorem ctr_eq_xorWith (counter : ℕ) (data : Bytes) :
    cipher.ctr key counter data = xorWith (cipher.keystream key counter) data := rfl

/-- **Counter mode twice**: decryption is encryption. -/
theorem ctr_ctr (counter : ℕ) (data : Bytes) :
    cipher.ctr key counter (cipher.ctr key counter data) = data := by
  rw [ctr_eq_xorWith, ctr_eq_xorWith, xorWith_xorWith]

theorem ctrFrom_zero (counter : ℕ) (data : Bytes) :
    cipher.ctrFrom key counter 0 data = cipher.ctr key counter data := by
  rw [ctr_eq_xorWith]
  unfold ctrFrom
  simp only [Nat.zero_add]

@[simp] theorem length_ctrFrom (counter start : ℕ) (data : Bytes) :
    (cipher.ctrFrom key counter start data).length = data.length := length_xorWith _ _

/-- The keystream goes on where a first part ends. -/
theorem ctrFrom_append (counter start : ℕ) (a b : Bytes) :
    cipher.ctrFrom key counter start (a ++ b) =
      cipher.ctrFrom key counter start a ++ cipher.ctrFrom key counter (start + a.length) b := by
  unfold ctrFrom
  simp only [xorWith_append, Nat.add_assoc]

/-- Byte `i` of the keystream, by its counter block. -/
theorem keystream_congr {counter counter' i i' : ℕ}
    (hcounter : (counter + i / 16) % 2 ^ 128 = (counter' + i' / 16) % 2 ^ 128)
    (hbyte : i % 16 = i' % 16) :
    cipher.keystream key counter i = cipher.keystream key counter' i' := by
  unfold keystream
  simp only [hcounter, hbyte]

/-- Whole blocks of the keystream can be counted by the counter. -/
theorem ctrFrom_blocks {counter counter' : ℕ} (n : ℕ)
    (h : counter' % 2 ^ 128 = (counter + n) % 2 ^ 128) (data : Bytes) :
    cipher.ctr key counter' data = cipher.ctrFrom key counter (16 * n) data := by
  have hstream : ∀ i, cipher.keystream key counter' i = cipher.keystream key counter (16 * n + i) := by
    intro i
    refine cipher.keystream_congr key ?_ (Nat.mul_add_mod 16 n i).symm
    rw [Nat.mul_add_div (by norm_num), ← Nat.add_assoc]
    exact Nat.ModEq.add_right (i / 16) h
  rw [ctr_eq_xorWith, funext hstream]
  rfl

/-- The number of a counter block is determined by the block. -/
theorem ofBytes_toBe_inj {a b : ℕ} (ha : a < 256 ^ 16) (hb : b < 256 ^ 16)
    (h : Block.ofBytes (toBe 16 a) = Block.ofBytes (toBe 16 b)) : a = b := by
  have hbytes : toBe 16 a = toBe 16 b := by
    refine List.ext_getElem (by simp) fun i hi hi' => ?_
    have hlt : i < 16 := by simpa using hi
    have hbyte := congrFun h ⟨i, hlt⟩
    unfold Block.ofBytes at hbyte
    rwa [List.getD_eq_getElem _ _ hi, List.getD_eq_getElem _ _ hi'] at hbyte
  calc a = ofBe (toBe 16 a) := (ofBe_toBe ha).symm
    _ = ofBe (toBe 16 b) := congrArg ofBe hbytes
    _ = b := ofBe_toBe hb

/-- A block function that tells one byte of one block from all others. -/
def marking (block : Block) (i : Fin 16) : BlockCipher :=
  ⟨fun _ b j => if b = block ∧ j = i then 1 else 0, fun _ b => b⟩

/-- **Two bytes of keystreams are the same under every cipher** only if they are the same byte of
the same counter block. -/
theorem keystream_eq_iff {counter counter' i i' : ℕ} :
    (∀ cipher : BlockCipher,
        cipher.keystream key counter i = cipher.keystream key counter' i') ↔
      (counter + i / 16) % 2 ^ 128 = (counter' + i' / 16) % 2 ^ 128 ∧ i % 16 = i' % 16 := by
  refine ⟨fun h => ?_, fun h cipher => cipher.keystream_congr key h.1 h.2⟩
  have hpos : 0 < 2 ^ 128 := by norm_num
  have hpow : 2 ^ 128 = 256 ^ 16 := by norm_num
  have hlt : ∀ n, n % 2 ^ 128 < 256 ^ 16 := fun n => hpow ▸ Nat.mod_lt n hpos
  have hmark := h (marking (Block.ofBytes (toBe 16 ((counter + i / 16) % 2 ^ 128)))
    ⟨i % 16, Nat.mod_lt _ (by norm_num)⟩)
  unfold keystream marking at hmark
  dsimp only at hmark
  rw [if_pos (And.intro rfl rfl)] at hmark
  -- the other byte is marked as well
  split at hmark
  · next hsame =>
    exact ⟨(ofBytes_toBe_inj (hlt _) (hlt _) hsame.1).symm, (congrArg Fin.val hsame.2).symm⟩
  · cases hmark

/-- **Counter mode from two places** is the same under every cipher only if these are the same place. -/
theorem ctr_eq_ctrFrom_iff {counter counter' start : ℕ} {data : Bytes} :
    (∀ cipher : BlockCipher, cipher.ctr key counter' data = cipher.ctrFrom key counter start data) ↔
      (data ≠ [] → start % 16 = 0 ∧ counter' % 2 ^ 128 = (counter + start / 16) % 2 ^ 128) := by
  constructor
  · intro h hdata
    obtain ⟨b, rest, rfl⟩ := List.exists_cons_of_ne_nil hdata
    have hfirst : ∀ cipher : BlockCipher,
        cipher.keystream key counter' 0 = cipher.keystream key counter start := by
      intro cipher
      have hcipher := h cipher
      rw [ctr_eq_xorWith] at hcipher
      unfold ctrFrom at hcipher
      exact xorWith_head hcipher
    obtain ⟨hcounter, hbyte⟩ := (keystream_eq_iff key).mp hfirst
    exact ⟨hbyte.symm, hcounter⟩
  · intro h cipher
    by_cases hdata : data = []
    · rw [hdata, ctr_eq_xorWith, xorWith_nil]
      exact (xorWith_nil _).symm
    · obtain ⟨hstart, hcounter⟩ := h hdata
      rw [cipher.ctrFrom_blocks key _ hcounter,
        Nat.mul_div_cancel' (Nat.dvd_of_mod_eq_zero hstart)]

end BlockCipher

end ByteString
