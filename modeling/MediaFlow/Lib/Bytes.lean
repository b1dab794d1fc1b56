import Mathlib

/-!
# Byte strings

Big-endian integers, bounds-checked slices and in-place patches of byte strings. A read or a
write past the end of a string has no result (`none`); callers that model a language in which
such an access aborts the program read `none` as the abort.

* `ofBe_toBe` / `toBe_ofBe`: reading back a written integer, and writing back a read one;
* `slice?_eq_some_iff`: when a slice exists, and what it is;
* `length_patch`, `getElem?_patch`: a patch keeps the length and every byte outside its range.
-/

namespace ByteString

/-- A byte string. -/
abbrev Bytes := List UInt8

/-! ### Big-endian integers -/

/-- The number written by `l`, most significant byte first. -/
def ofBe (l : Bytes) : ℕ :=
  l.foldl (fun acc b => acc * 256 + b.toNat) 0

/-- The `width` low-order bytes of `value`, most significant byte first. -/
def toBe : ℕ → ℕ → Bytes
  | 0, _ => []
  | width + 1, value => toBe width (value / 256) ++ [UInt8.ofNat value]

@[simp] theorem ofBe_nil : ofBe [] = 0 := rfl

theorem ofBe_append_singleton (l : Bytes) (b : UInt8) :
    ofBe (l ++ [b]) = ofBe l * 256 + b.toNat := by
  unfold ofBe
  rw [List.foldl_append, List.foldl_cons, List.foldl_nil]

@[simp] theorem length_toBe (width value : ℕ) : (toBe width value).length = width := by
  induction width generalizing value with
  | zero => rfl
  | succ width ih => rw [toBe, List.length_append, ih, List.length_singleton]

theorem ofBe_lt (l : Bytes) : ofBe l < 256 ^ l.length := by
  induction l using List.reverseRecOn with
  | nil => simp
  | append_singleton l b ih =>
    rw [ofBe_append_singleton, List.length_append, List.length_singleton, pow_succ]
    have hb : b.toNat < 256 := b.toNat_lt
    omega

/-- Only the low-order bytes of `value` are written. -/
theorem ofBe_toBe_mod (width value : ℕ) : ofBe (toBe width value) = value % 256 ^ width := by
  induction width generalizing value with
  | zero => simp [toBe, Nat.mod_one]
  | succ width ih =>
    rw [toBe, ofBe_append_singleton, ih, pow_succ, Nat.mul_comm (256 ^ width) 256,
      Nat.mod_mul, UInt8.toNat_ofNat']
    ring

theorem ofBe_toBe {width value : ℕ} (h : value < 256 ^ width) :
    ofBe (toBe width value) = value := by
  rw [ofBe_toBe_mod, Nat.mod_eq_of_lt h]

theorem toBe_ofBe (l : Bytes) : toBe l.length (ofBe l) = l := by
  induction l using List.reverseRecOn with
  | nil => rfl
  | append_singleton l b ih =>
    have hb : b.toNat < 256 := b.toNat_lt
    have hhigh : (ofBe l * 256 + b.toNat) / 256 = ofBe l := by omega
    have hlow : UInt8.ofNat (ofBe l * 256 + b.toNat) = b := by
      apply UInt8.toNat_inj.mp
      rw [UInt8.toNat_ofNat']
      omega
    rw [List.length_append, List.length_singleton, ofBe_append_singleton, toBe, hhigh, hlow, ih]

/-- The `width`-byte integer at offset `pos`; bytes past the end are not read. -/
def beAt (l : Bytes) (pos width : ℕ) : ℕ :=
  ofBe ((l.drop pos).take width)

theorem beAt_lt (l : Bytes) (pos width : ℕ) : beAt l pos width < 256 ^ width := by
  refine (ofBe_lt _).trans_le (Nat.pow_le_pow_right (by norm_num) ?_)
  rw [List.length_take]
  exact Nat.min_le_left _ _

theorem beAt_append_right (a b : Bytes) (pos width : ℕ) :
    beAt (a ++ b) (a.length + pos) width = beAt b pos width := by
  unfold beAt
  rw [List.drop_append, List.drop_of_length_le (by omega), List.nil_append, Nat.add_sub_cancel_left]

theorem beAt_append_left (a b : Bytes) {pos width : ℕ} (h : pos + width ≤ a.length) :
    beAt (a ++ b) pos width = beAt a pos width := by
  unfold beAt
  rw [List.drop_append_of_le_length (by omega),
    List.take_append_of_le_length (by rw [List.length_drop]; omega)]

/-! ### Slices -/

/-- `l[a..b]`: defined when the bounds are in order and inside the string. -/
def slice? (l : Bytes) (a b : ℕ) : Option Bytes :=
  if a ≤ b ∧ b ≤ l.length then some ((l.drop a).take (b - a)) else none

theorem slice?_eq_some_iff {l s : Bytes} {a b : ℕ} :
    slice? l a b = some s ↔ a ≤ b ∧ b ≤ l.length ∧ (l.drop a).take (b - a) = s := by
  unfold slice?
  split
  · next h => simp [h.1, h.2]
  · next h => simpa [not_and] using fun h₁ h₂ => absurd ⟨h₁, h₂⟩ h

theorem slice?_of_le {l : Bytes} {a b : ℕ} (hab : a ≤ b) (hb : b ≤ l.length) :
    slice? l a b = some ((l.drop a).take (b - a)) :=
  if_pos ⟨hab, hb⟩

theorem slice?_of_lt {l : Bytes} {a b : ℕ} (h : b < a) : slice? l a b = none :=
  if_neg fun hab => absurd hab.1 (Nat.not_le.mpr h)

theorem length_of_slice? {l s : Bytes} {a b : ℕ} (h : slice? l a b = some s) :
    s.length = b - a := by
  obtain ⟨hab, hb, rfl⟩ := slice?_eq_some_iff.mp h
  rw [List.length_take, List.length_drop]
  omega

/-! ### Patches -/

/-- `l` with the bytes from offset `pos` on overwritten by `src`. -/
def patch (l : Bytes) (pos : ℕ) (src : Bytes) : Bytes :=
  l.take pos ++ src ++ l.drop (pos + src.length)

theorem length_patch {l src : Bytes} {pos : ℕ} (h : pos + src.length ≤ l.length) :
    (patch l pos src).length = l.length := by
  unfold patch
  simp only [List.length_append, List.length_take, List.length_drop]
  omega

/-- A patch changes the bytes of its own range and no other byte. -/
theorem getElem?_patch {l src : Bytes} {pos : ℕ} (h : pos + src.length ≤ l.length) (i : ℕ) :
    (patch l pos src)[i]? =
      if pos ≤ i ∧ i < pos + src.length then src[i - pos]? else l[i]? := by
  have hpos : (l.take pos).length = pos := by rw [List.length_take]; omega
  unfold patch
  rw [List.append_assoc]
  by_cases hlo : i < pos
  · rw [List.getElem?_append_left (by omega), if_neg (by omega), List.getElem?_take_of_lt hlo]
  · rw [List.getElem?_append_right (by omega), hpos]
    by_cases hhi : i < pos + src.length
    · rw [List.getElem?_append_left (by omega), if_pos ⟨by omega, hhi⟩]
    · rw [List.getElem?_append_right (by omega), List.getElem?_drop, if_neg (by omega)]
      congr 1
      omega

end ByteString
