import MediaFlow.Lib.UrlCoding

/-!
# Slices of texts

Rust counts the positions in a text in bytes, and a slice at a position inside of a character
aborts. `splitAtByte` has a value exactly at the boundaries of characters
(`splitAtByte_eq_some_iff`), and the positions that `char_indices` gives are such boundaries
(`find?_charIndices`).
-/

namespace Text

open UrlCoding

/-- `char::len_utf8`. -/
def lenUtf8 (c : Char) : ℕ := (encodeChar c).length

/-- Both sides of a byte position, if it is not inside of a character. -/
def splitAtByte : Str → ℕ → Option (Str × Str)
  | s, 0 => some ([], s)
  | [], _ + 1 => none
  | c :: s, n + 1 =>
    if lenUtf8 c ≤ n + 1 then
      (splitAtByte s (n + 1 - lenUtf8 c)).map fun parts => (c :: parts.1, parts.2)
    else none

/-- `&s[..n]`, which may abort. -/
def sliceTo (s : Str) (n : ℕ) : Option Str := (splitAtByte s n).map Prod.fst

/-- `&s[n..]`, which may abort. -/
def sliceFrom (s : Str) (n : ℕ) : Option Str := (splitAtByte s n).map Prod.snd

/-- The characters with their positions, the first of which is `n`. -/
def charIndicesFrom : ℕ → Str → List (ℕ × Char)
  | _, [] => []
  | n, c :: s => (n, c) :: charIndicesFrom (n + lenUtf8 c) s

/-- `str::char_indices`. -/
def charIndices (s : Str) : List (ℕ × Char) := charIndicesFrom 0 s

theorem lenUtf8_pos (c : Char) : 0 < lenUtf8 c := by
  unfold lenUtf8 encodeChar
  dsimp only
  split_ifs <;> exact Nat.succ_pos _

theorem length_utf8_cons (c : Char) (s : Str) :
    (utf8 (c :: s)).length = lenUtf8 c + (utf8 s).length := by
  rw [utf8, List.flatMap_cons, List.length_append]
  rfl

/-- **The boundaries of characters** are the places where a text can be split. -/
theorem splitAtByte_eq_some_iff {s a b : Str} {n : ℕ} :
    splitAtByte s n = some (a, b) ↔ s = a ++ b ∧ (utf8 a).length = n := by
  induction s generalizing a n with
  | nil =>
    cases n with
    | zero =>
      rw [splitAtByte, Option.some.injEq, Prod.mk.injEq]
      constructor
      · rintro ⟨rfl, rfl⟩
        exact ⟨rfl, rfl⟩
      · rintro ⟨hab, -⟩
        exact ⟨(List.nil_eq_append_iff.mp hab).1.symm, (List.nil_eq_append_iff.mp hab).2.symm⟩
    | succ n =>
      refine iff_of_false nofun ?_
      rintro ⟨hab, hlength⟩
      rw [(List.nil_eq_append_iff.mp hab).1] at hlength
      cases hlength
  | cons c s ih =>
    cases n with
    | zero =>
      rw [splitAtByte, Option.some.injEq, Prod.mk.injEq]
      constructor
      · rintro ⟨rfl, rfl⟩
        exact ⟨rfl, rfl⟩
      · rintro ⟨hab, hlength⟩
        cases a with
        | nil => exact ⟨rfl, hab⟩
        | cons d a =>
          rw [length_utf8_cons] at hlength
          exact absurd hlength (Nat.ne_of_gt (Nat.add_pos_left (lenUtf8_pos d) _))
    | succ n =>
      rw [splitAtByte, Option.ite_none_right_eq_some, Option.map_eq_some_iff]
      constructor
      · rintro ⟨hle, ⟨a', b'⟩, hsplit, heq⟩
        cases heq
        obtain ⟨rfl, hlength⟩ := ih.mp hsplit
        rw [length_utf8_cons, hlength]
        exact ⟨rfl, Nat.add_sub_cancel' hle⟩
      · rintro ⟨hab, hlength⟩
        cases a with
        | nil => cases hlength
        | cons d a =>
          obtain ⟨rfl, rfl⟩ := List.cons.inj hab
          rw [length_utf8_cons] at hlength
          have hle : lenUtf8 c ≤ n + 1 := hlength ▸ Nat.le_add_right _ _
          exact ⟨hle, (a, b), ih.mpr ⟨rfl, Nat.eq_sub_of_add_eq' hlength⟩, rfl⟩

theorem sliceTo_append (a b : Str) : sliceTo (a ++ b) (utf8 a).length = some a := by
  rw [sliceTo, splitAtByte_eq_some_iff.mpr ⟨rfl, rfl⟩]
  rfl

theorem sliceFrom_append (a b : Str) : sliceFrom (a ++ b) (utf8 a).length = some b := by
  rw [sliceFrom, splitAtByte_eq_some_iff.mpr ⟨rfl, rfl⟩]
  rfl

/-- The text behind a character. -/
theorem sliceFrom_append_cons (a : Str) (c : Char) (b : Str) :
    sliceFrom (a ++ c :: b) ((utf8 a).length + lenUtf8 c) = some b := by
  have hlength : (utf8 (a ++ [c])).length = (utf8 a).length + lenUtf8 c := by
    rw [utf8, List.flatMap_append, List.length_append, List.flatMap_singleton]
    rfl
  have hslice := sliceFrom_append (a ++ [c]) b
  rwa [hlength, List.append_assoc, List.singleton_append] at hslice

/-- **What is searched for** among the characters is found at the boundary before it. -/
theorem find?_charIndices (p : Char → Bool) (s : Str) :
    (charIndices s).find? (fun q => p q.2)
      = (s.dropWhile fun c => !p c).head?.map fun c =>
          ((utf8 (s.takeWhile fun c => !p c)).length, c) := by
  have hfrom : ∀ n, (charIndicesFrom n s).find? (fun q => p q.2)
      = (s.dropWhile fun c => !p c).head?.map fun c =>
          (n + (utf8 (s.takeWhile fun c => !p c)).length, c) := by
    induction s with
    | nil => exact fun _ => rfl
    | cons c s ih =>
      intro n
      rw [charIndicesFrom, List.find?_cons]
      cases hc : p c with
      | true =>
        rw [List.dropWhile_cons_of_neg (by simp [hc]), List.takeWhile_cons_of_neg (by simp [hc])]
        rfl
      | false =>
        rw [List.dropWhile_cons_of_pos (by simp [hc]), List.takeWhile_cons_of_pos (by simp [hc]),
          length_utf8_cons, ih]
        simp only [Nat.add_assoc]
  have hzero := hfrom 0
  simp only [Nat.zero_add] at hzero
  exact hzero

end Text
