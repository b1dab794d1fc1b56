import MediaFlow.Lib.Text

/-!
# Base64

Groups of three bytes as four digits, in the standard alphabet with padding and in the URL-safe one
without. Decoding is strict: the padding has to be there, and the bits that it stands for are zero.

* `decode_encode`: decoding undoes encoding;
* `restandardize_encodeUrlSafe`: URL-safe text, with its characters replaced and its padding put
  back, is the standard text;
* `decodeUrlSafe_encodeUrlSafe`: the decoder of the URL-safe alphabet undoes its encoder.
-/

namespace Base64

open ByteString Text

/-- The standard digit of a number below 64. -/
def digit (n : ℕ) : Char :=
  if n < 26 then Char.ofNat (65 + n)
  else if n < 52 then Char.ofNat (71 + n)
  else if n < 62 then Char.ofNat (n - 4)
  else if n = 62 then '+'
  else '/'

/-- The value of a standard digit. -/
def value (c : Char) : Option ℕ :=
  let n := c.toNat
  if 65 ≤ n ∧ n ≤ 90 then some (n - 65)
  else if 97 ≤ n ∧ n ≤ 122 then some (n - 71)
  else if 48 ≤ n ∧ n ≤ 57 then some (n + 4)
  else if c = '+' then some 62
  else if c = '/' then some 63
  else none

/-- Encoding in the standard alphabet, `pad` being written for digits that are missing. -/
def encodeWith (pad : Str) : Bytes → Str
  | a :: b :: c :: rest =>
    digit (a.toNat / 4) :: digit (a.toNat % 4 * 16 + b.toNat / 16)
      :: digit (b.toNat % 16 * 4 + c.toNat / 64) :: digit (c.toNat % 64) :: encodeWith pad rest
  | [a, b] =>
    [digit (a.toNat / 4), digit (a.toNat % 4 * 16 + b.toNat / 16), digit (b.toNat % 16 * 4)] ++ pad
  | [a] => [digit (a.toNat / 4), digit (a.toNat % 4 * 16)] ++ pad ++ pad
  | [] => []

/-- The standard encoding. -/
def encode (bytes : Bytes) : Str := encodeWith ['='] bytes

/-- A digit of the URL-safe alphabet. -/
def toUrlSafe (c : Char) : Char := if c = '+' then '-' else if c = '/' then '_' else c

/-- The URL-safe encoding, without padding. -/
def encodeUrlSafe (bytes : Bytes) : Str := (encodeWith [] bytes).map toUrlSafe

/-- Decoding of the standard encoding. -/
def decode : Str → Option Bytes
  | [] => some []
  | a :: b :: c :: d :: rest =>
    if d = '=' then
      if rest ≠ [] then none
      else if c = '=' then do
        let x ← value a
        let y ← value b
        if y % 16 = 0 then some [UInt8.ofNat (x * 4 + y / 16)] else none
      else do
        let x ← value a
        let y ← value b
        let z ← value c
        if z % 4 = 0 then
          some [UInt8.ofNat (x * 4 + y / 16), UInt8.ofNat (y % 16 * 16 + z / 4)]
        else none
    else do
      let x ← value a
      let y ← value b
      let z ← value c
      let w ← value d
      return UInt8.ofNat (x * 4 + y / 16) :: UInt8.ofNat (y % 16 * 16 + z / 4)
        :: UInt8.ofNat (z % 4 * 64 + w) :: (← decode rest)
  | _ => none

theorem value_digit {n : ℕ} (h : n < 64) : value (digit n) = some n := by
  have hall : ∀ n < 64, value (digit n) = some n := by decide
  exact hall n h

theorem digit_ne_pad {n : ℕ} (h : n < 64) : digit n ≠ '=' := by
  have hall : ∀ n < 64, digit n ≠ '=' := by decide
  exact hall n h

theorem byte_eq {b : UInt8} {n : ℕ} (h : n = b.toNat) : UInt8.ofNat n = b := by
  rw [h, UInt8.ofNat_toNat]

/-- **Decoding undoes encoding.** -/
theorem decode_encode (bytes : Bytes) : decode (encode bytes) = some bytes := by
  unfold encode
  induction bytes using encodeWith.induct with
  | case1 a b c rest ih =>
    have ha : a.toNat < 256 := a.toNat_lt
    have hb : b.toNat < 256 := b.toNat_lt
    have hc : c.toNat < 256 := c.toNat_lt
    rw [encodeWith, decode, if_neg (digit_ne_pad (by omega)), value_digit (by omega),
      value_digit (by omega), value_digit (by omega), value_digit (by omega), ih]
    show some (_ :: _ :: _ :: rest) = _
    rw [byte_eq (b := a) (by omega), byte_eq (b := b) (by omega), byte_eq (b := c) (by omega)]
  | case2 a b =>
    have ha : a.toNat < 256 := a.toNat_lt
    have hb : b.toNat < 256 := b.toNat_lt
    show decode [_, _, _, '='] = _
    rw [decode, if_pos rfl, if_neg (by simp), if_neg (digit_ne_pad (by omega)),
      value_digit (by omega), value_digit (by omega), value_digit (by omega)]
    show (if _ then some [_, _] else none) = _
    rw [if_pos (by omega), byte_eq (b := a) (by omega), byte_eq (b := b) (by omega)]
  | case3 a =>
    have ha : a.toNat < 256 := a.toNat_lt
    show decode [_, _, '=', '='] = _
    rw [decode, if_pos rfl, if_neg (by simp), if_pos rfl, value_digit (by omega),
      value_digit (by omega)]
    show (if _ then some [_] else none) = _
    rw [if_pos (by omega), byte_eq (b := a) (by omega)]
  | case4 => rfl

/-- The padding that a text of this length without padding lacks. -/
def padded (s : Str) : Str :=
  if s.length % 4 = 2 then s ++ "==".toList
  else if s.length % 4 = 3 then s ++ "=".toList
  else s

/-- A digit of the standard alphabet. -/
def toStandard (c : Char) : Char := if c = '-' then '+' else if c = '_' then '/' else c

theorem toStandard_toUrlSafe {n : ℕ} (h : n < 64) : toStandard (toUrlSafe (digit n)) = digit n := by
  have hall : ∀ n < 64, toStandard (toUrlSafe (digit n)) = digit n := by decide
  exact hall n h

theorem padded_cons (a b c d : Char) (s : Str) :
    padded (a :: b :: c :: d :: s) = a :: b :: c :: d :: padded s := by
  unfold padded
  have hlen : (a :: b :: c :: d :: s).length % 4 = s.length % 4 := by
    show (s.length + 4) % 4 = _
    exact Nat.add_mod_right _ _
  rw [hlen]
  split
  · rfl
  · split <;> rfl

/-- **URL-safe text can be read in the standard alphabet.** -/
theorem restandardize_encodeUrlSafe (bytes : Bytes) :
    padded ((encodeUrlSafe bytes).map toStandard) = encode bytes := by
  unfold encodeUrlSafe encode
  induction bytes using encodeWith.induct with
  | case1 a b c rest ih =>
    have ha : a.toNat < 256 := a.toNat_lt
    have hb : b.toNat < 256 := b.toNat_lt
    have hc : c.toNat < 256 := c.toNat_lt
    simp only [encodeWith, List.map_cons]
    rw [padded_cons, ih, toStandard_toUrlSafe (by omega), toStandard_toUrlSafe (by omega),
      toStandard_toUrlSafe (by omega), toStandard_toUrlSafe (by omega)]
  | case2 a b =>
    have ha : a.toNat < 256 := a.toNat_lt
    have hb : b.toNat < 256 := b.toNat_lt
    show padded [_, _, _] = [_, _, _, '=']
    rw [toStandard_toUrlSafe (by omega), toStandard_toUrlSafe (by omega),
      toStandard_toUrlSafe (by omega)]
    rfl
  | case3 a =>
    have ha : a.toNat < 256 := a.toNat_lt
    show padded [_, _] = [_, _, '=', '=']
    rw [toStandard_toUrlSafe (by omega), toStandard_toUrlSafe (by omega)]
    rfl
  | case4 => rfl

/-! ### Six bits at a time -/

/-- The groups of six bits, as numbers; the last one is filled up with zeros. -/
def sextets : Bytes → List ℕ
  | a :: b :: c :: rest =>
    a.toNat / 4 :: (a.toNat % 4 * 16 + b.toNat / 16) :: (b.toNat % 16 * 4 + c.toNat / 64)
      :: c.toNat % 64 :: sextets rest
  | [a, b] => [a.toNat / 4, a.toNat % 4 * 16 + b.toNat / 16, b.toNat % 16 * 4]
  | [a] => [a.toNat / 4, a.toNat % 4 * 16]
  | [] => []

theorem encodeWith_nil (bytes : Bytes) : encodeWith [] bytes = (sextets bytes).map digit := by
  induction bytes using encodeWith.induct with
  | case1 a b c rest ih => simp only [encodeWith, sextets, List.map_cons, ih]
  | case2 a b => rfl
  | case3 a => rfl
  | case4 => rfl

theorem sextets_lt (bytes : Bytes) : ∀ n ∈ sextets bytes, n < 64 := by
  induction bytes using encodeWith.induct with
  | case1 a b c rest ih =>
    have ha : a.toNat < 256 := a.toNat_lt
    have hb : b.toNat < 256 := b.toNat_lt
    have hc : c.toNat < 256 := c.toNat_lt
    rw [sextets]
    simp only [List.forall_mem_cons]
    exact ⟨by omega, by omega, by omega, by omega, ih⟩
  | case2 a b =>
    have ha : a.toNat < 256 := a.toNat_lt
    have hb : b.toNat < 256 := b.toNat_lt
    rw [sextets]
    simp only [List.forall_mem_cons]
    exact ⟨by omega, by omega, by omega, nofun⟩
  | case3 a =>
    have ha : a.toNat < 256 := a.toNat_lt
    rw [sextets]
    simp only [List.forall_mem_cons]
    exact ⟨by omega, by omega, nofun⟩
  | case4 => exact nofun

theorem length_sextets (bytes : Bytes) : (sextets bytes).length = (4 * bytes.length + 2) / 3 := by
  induction bytes using encodeWith.induct with
  | case1 a b c rest ih =>
    simp only [sextets, List.length_cons, ih]
    omega
  | case2 a b => simp [sextets]
  | case3 a => simp [sextets]
  | case4 => rfl

theorem encodeUrlSafe_eq (bytes : Bytes) :
    encodeUrlSafe bytes = (sextets bytes).map fun n => toUrlSafe (digit n) := by
  unfold encodeUrlSafe
  rw [encodeWith_nil, List.map_map]
  rfl

/-- The standard encoding, by its digits and its padding. -/
theorem encode_eq (bytes : Bytes) :
    encode bytes = (sextets bytes).map digit ++
      List.replicate ((4 - (sextets bytes).length % 4) % 4) '=' := by
  unfold encode
  induction bytes using encodeWith.induct with
  | case1 a b c rest ih =>
    have hlen : (sextets (a :: b :: c :: rest)).length % 4 = (sextets rest).length % 4 := by
      simp only [sextets, List.length_cons]
      omega
    rw [hlen, encodeWith, ih, sextets]
    rfl
  | case2 a b => rfl
  | case3 a => rfl
  | case4 => rfl

/-! ### Decoding URL-safe text -/

/-- Decoding of the URL-safe encoding, with padding. -/
def decodeUrlSafePadded (s : Str) : Option Bytes :=
  if '+' ∈ s ∨ '/' ∈ s then none else decode (s.map toStandard)

/-- Decoding of the URL-safe encoding, without padding. -/
def decodeUrlSafe (s : Str) : Option Bytes :=
  if '=' ∈ s ∨ '+' ∈ s ∨ '/' ∈ s then none else decode (padded (s.map toStandard))

theorem mem_encodeWith_nil {bytes : Bytes} {c : Char} (h : c ∈ encodeWith [] bytes) :
    ∃ n < 64, c = digit n := by
  rw [encodeWith_nil] at h
  obtain ⟨n, hn, rfl⟩ := List.mem_map.mp h
  exact ⟨n, sextets_lt bytes n hn, rfl⟩

/-- The URL-safe encoding is written in its own digits. -/
theorem not_mem_encodeUrlSafe {c : Char} (hc : ∀ n < 64, toUrlSafe (digit n) ≠ c) (bytes : Bytes) :
    c ∉ encodeUrlSafe bytes := by
  intro h
  obtain ⟨d, hd, rfl⟩ := List.mem_map.mp h
  obtain ⟨n, hn, rfl⟩ := mem_encodeWith_nil hd
  exact hc n hn rfl

theorem decodeUrlSafe_encodeUrlSafe (bytes : Bytes) :
    decodeUrlSafe (encodeUrlSafe bytes) = some bytes := by
  have hdigits : ¬ ('=' ∈ encodeUrlSafe bytes ∨ '+' ∈ encodeUrlSafe bytes ∨ '/' ∈ encodeUrlSafe bytes) := by
    rw [not_or, not_or]
    exact ⟨not_mem_encodeUrlSafe (by decide) bytes, not_mem_encodeUrlSafe (by decide) bytes,
      not_mem_encodeUrlSafe (by decide) bytes⟩
  rw [decodeUrlSafe, if_neg hdigits, restandardize_encodeUrlSafe, decode_encode]

end Base64
