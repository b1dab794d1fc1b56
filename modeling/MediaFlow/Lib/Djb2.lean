import Mathlib.Data.Nat.Digits.Lemmas
import MediaFlow.Lib.Text

/-!
# The djb2 hash, and numbers in hexadecimal

`djb2` hashes bytes in a word of fixed width. It is the remainder of the number whose digits in base
33 are the bytes (`djb2_eq`). `hexPadded` writes a number with a fixed number of hexadecimal digits,
and the first of them are the number without its last bits (`take_hexPadded`).
-/

open ByteString

namespace Text

/-! ### Hexadecimal numbers of fixed length -/

/-- The last `w` hexadecimal digits of `n`, in lower case. -/
def hexPadded : ℕ → ℕ → Str
  | 0, _ => []
  | w + 1, n => hexPadded w (n / 16) ++ [Nat.digitChar (n % 16)]

@[simp] theorem length_hexPadded (w n : ℕ) : (hexPadded w n).length = w := by
  induction w generalizing n with
  | zero => rfl
  | succ w ih => simp [hexPadded, ih]

theorem hexPadded_add (w v n : ℕ) :
    hexPadded (w + v) n = hexPadded w (n / 16 ^ v) ++ hexPadded v n := by
  induction v generalizing n with
  | zero => simp [hexPadded]
  | succ v ih =>
    rw [← Nat.add_assoc, hexPadded, ih, hexPadded, List.append_assoc, Nat.div_div_eq_div_mul,
      ← pow_succ']

/-- The first digits. -/
theorem take_hexPadded (w v n : ℕ) : (hexPadded (w + v) n).take w = hexPadded w (n / 16 ^ v) := by
  rw [hexPadded_add]
  exact List.take_left' (length_hexPadded w _)

theorem digitChar_inj {a b : ℕ} (ha : a < 16) (hb : b < 16) (h : a.digitChar = b.digitChar) :
    a = b := by
  interval_cases a <;> interval_cases b <;> first | rfl | exact absurd h (by decide)

theorem hexPadded_inj {w n m : ℕ} : hexPadded w n = hexPadded w m ↔ n % 16 ^ w = m % 16 ^ w := by
  induction w generalizing n m with
  | zero => simp [hexPadded, Nat.mod_one]
  | succ w ih =>
    have hsplit (k : ℕ) : k % 16 ^ (w + 1) = k / 16 % 16 ^ w * 16 + k % 16 := by
      rw [pow_succ', Nat.mod_mul]
      ring
    rw [hexPadded, hexPadded, hsplit, hsplit]
    constructor
    · intro h
      obtain ⟨hfirst, hlast⟩ := List.append_inj' h rfl
      have hlast := digitChar_inj (Nat.mod_lt n (by decide)) (Nat.mod_lt m (by decide))
        (List.cons.inj hlast).1
      rw [ih.mp hfirst, hlast]
    · intro h
      have hn := Nat.mod_lt n (show 0 < 16 by decide)
      have hm := Nat.mod_lt m (show 0 < 16 by decide)
      have hlast : n % 16 = m % 16 := by omega
      have hfirst : n / 16 % 16 ^ w = m / 16 % 16 ^ w := by omega
      rw [ih.mpr hfirst, hlast]

/-! ### The hash -/

/-- The hash in a word that holds the numbers below `modulus`. -/
def djb2 (modulus : ℕ) (bytes : Bytes) : ℕ :=
  bytes.foldl (fun hash b => (hash * 33 % modulus + b.toNat) % modulus) 5381

/-- The number with the digits 5381 and then the bytes, in base 33. -/
def djb2Number (bytes : Bytes) : ℕ :=
  Nat.ofDigits 33 ((bytes.map UInt8.toNat).reverse ++ [5381])

theorem djb2Number_append (s t : Bytes) :
    djb2Number (s ++ t) =
      Nat.ofDigits 33 (t.map UInt8.toNat).reverse + 33 ^ t.length * djb2Number s := by
  simp [djb2Number, Nat.ofDigits_append]

/-- A word of limited width loses nothing but what does not fit in the end. -/
theorem djb2_eq {modulus : ℕ} (h : 5381 < modulus) (bytes : Bytes) :
    djb2 modulus bytes = djb2Number bytes % modulus := by
  -- from the end, as the bytes are read from the front
  induction bytes using List.reverseRecOn with
  | nil => exact (Nat.mod_eq_of_lt h).symm
  | append_singleton bytes b ih =>
    calc djb2 modulus (bytes ++ [b])
        = (djb2 modulus bytes * 33 % modulus + b.toNat) % modulus := by
          simp [djb2]
      _ = (djb2Number bytes % modulus * 33 % modulus + b.toNat) % modulus := by rw [ih]
      _ = (djb2Number bytes * 33 + b.toNat) % modulus := by
          rw [Nat.mod_mul_mod, Nat.mod_add_mod]
      _ = djb2Number (bytes ++ [b]) % modulus := by
          rw [djb2Number_append]
          congr 1
          simp
          ring

end Text
