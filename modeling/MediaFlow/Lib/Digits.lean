import MediaFlow.Lib.Text

/-!
# Numerals

Texts of decimal digits (`Numeral`) and what the readers of `str::parse` make of them: a numeral is
read as its value unless this is too large for the type (`Numeral.parseU64_text`, `parseI64_neg`).
`numeral` writes a number, without leading zeros; the texts of larger numbers are not shorter
(`length_decimal_mono`).
-/

namespace Text

/-- A text of decimal digits, leading zeros included. -/
structure Numeral where
  text : Str
  text_ne_nil : text ≠ []
  isDigit : ∀ c ∈ text, c.isDigit = true

/-- `str::parse::<i64>`: decimal digits, after an optional sign. -/
def parseI64 (s : Str) : Option ℤ :=
  let digits := ((stripPrefix ['-'] s).or (stripPrefix ['+'] s)).getD s
  let n := Nat.ofDigitChars 10 digits 0
  if digits = [] ∨ ¬ digits.all Char.isDigit then none
  else if ['-'].isPrefixOf s then if n ≤ 2 ^ 63 then some (-n) else none
  else if n < 2 ^ 63 then some n
  else none

namespace Numeral

variable (n : Numeral)

/-- The number that is written. -/
def value : ℕ := Nat.ofDigitChars 10 n.text 0

theorem not_mem {c : Char} (hc : c.isDigit = false) : c ∉ n.text :=
  fun h => Bool.false_ne_true (hc.symm.trans (n.isDigit c h))

theorem all_isDigit : n.text.all Char.isDigit = true := List.all_eq_true.mpr n.isDigit

theorem stripPrefix_text {c : Char} (hc : c.isDigit = false) : stripPrefix [c] n.text = none := by
  refine if_neg fun h => n.not_mem hc ?_
  exact (List.isPrefixOf_iff_prefix.mp h).subset (List.mem_singleton_self c)

/-- **Reading a numeral.** Only the size of the value matters. -/
theorem parseU64_text : parseU64 n.text = if n.value < 2 ^ 64 then some n.value else none := by
  have hvalue : n.text.foldl (fun m c => m * 10 + (c.toNat - 48)) 0 = n.value := by
    rw [value, Nat.ofDigitChars]
    refine List.foldl_ext _ _ _ fun m c _ => ?_
    rw [Nat.mul_comm]
    rfl
  unfold parseU64
  dsimp only
  rw [n.stripPrefix_text (by decide), Option.getD_none, hvalue]
  simp only [n.text_ne_nil, n.all_isDigit, ne_eq, not_false_eq_true, true_and]

theorem parseU64_plus : parseU64 ('+' :: n.text) = parseU64 n.text := by
  have hplus : stripPrefix ['+'] ('+' :: n.text) = some n.text := stripPrefix_append ['+'] n.text
  unfold parseU64
  rw [hplus, n.stripPrefix_text (by decide)]
  rfl

theorem parseI64_neg :
    parseI64 ('-' :: n.text) = if n.value ≤ 2 ^ 63 then some (-(n.value : ℤ)) else none := by
  have hsign : stripPrefix ['-'] ('-' :: n.text) = some n.text := stripPrefix_append ['-'] n.text
  have hdigits : ¬ (n.text = [] ∨ ¬ n.text.all Char.isDigit) := by
    rw [not_or, not_not]
    exact ⟨n.text_ne_nil, n.all_isDigit⟩
  have hminus : ['-'].isPrefixOf ('-' :: n.text) = true :=
    List.isPrefixOf_iff_prefix.mpr (List.prefix_append ['-'] n.text)
  unfold parseI64
  dsimp only
  rw [hsign, Option.some_or, Option.getD_some, if_neg hdigits, if_pos hminus]
  rfl

theorem parseI64_text : parseI64 n.text = if n.value < 2 ^ 63 then some (n.value : ℤ) else none := by
  have hdigits : ¬ (n.text = [] ∨ ¬ n.text.all Char.isDigit) := by
    rw [not_or, not_not]
    exact ⟨n.text_ne_nil, n.all_isDigit⟩
  have hminus : ¬ ['-'].isPrefixOf n.text := fun h =>
    n.not_mem (c := '-') (by decide)
      ((List.isPrefixOf_iff_prefix.mp h).subset (List.mem_singleton_self '-'))
  unfold parseI64
  dsimp only
  rw [n.stripPrefix_text (by decide), n.stripPrefix_text (by decide), Option.none_or,
    Option.getD_none, if_neg hdigits, if_neg hminus]
  rfl

end Numeral

/-- **What is read** is a numeral, maybe behind a plus sign. -/
theorem parseU64_eq_some_iff {s : Str} {k : ℕ} :
    parseU64 s = some k ↔ k < 2 ^ 64 ∧ ∃ n : Numeral, n.value = k ∧ (s = n.text ∨ s = '+' :: n.text) := by
  constructor
  · intro h
    refine ⟨parseU64_lt h, ?_⟩
    obtain ⟨⟨hne, hall, -⟩, -⟩ := Option.ite_none_right_eq_some.mp h
    obtain ⟨n, hn⟩ : ∃ n : Numeral, n.text = (stripPrefix ['+'] s).getD s :=
      ⟨⟨_, hne, List.all_eq_true.mp hall⟩, rfl⟩
    have htext : s = n.text ∨ s = '+' :: n.text := by
      rw [hn]
      cases hplus : stripPrefix ['+'] s with
      | none => exact .inl rfl
      | some rest => exact .inr (stripPrefix_eq_some_iff.mp hplus)
    have hread : parseU64 s = parseU64 n.text := by
      rcases htext with htext | htext
      · rw [htext]
      · rw [htext, n.parseU64_plus]
    rw [hread, n.parseU64_text] at h
    exact ⟨n, Option.some.inj (Option.ite_none_right_eq_some.mp h).2, htext⟩
  · rintro ⟨hk, n, rfl, rfl | rfl⟩
    · rw [n.parseU64_text, if_pos hk]
    · rw [n.parseU64_plus, n.parseU64_text, if_pos hk]

/-- A larger number is not written shorter. -/
theorem length_decimal_mono {m n : ℕ} (h : m ≤ n) : (decimal m).length ≤ (decimal n).length := by
  have hten : 1 < 10 := by decide
  have hn : n < 10 ^ (decimal n).length :=
    (Nat.length_toDigits_le_iff hten Nat.length_toDigits_pos).mp le_rfl
  exact (Nat.length_toDigits_le_iff hten Nat.length_toDigits_pos).mpr (h.trans_lt hn)

theorem decimal_eq_cons (n : ℕ) : ∃ d s, decimal n = d :: s ∧ d.isDigit = true := by
  obtain ⟨d, s, hs⟩ := List.exists_cons_of_ne_nil (Nat.toDigits_ne_nil (n := n) (b := 10))
  refine ⟨d, s, hs, ?_⟩
  exact Nat.isDigit_of_mem_toDigits (by decide) (by decide) (hs ▸ List.mem_cons_self)

/-- How a number is written. -/
def numeral (k : ℕ) : Numeral where
  text := decimal k
  text_ne_nil := Nat.toDigits_ne_nil
  isDigit _ hc := Nat.isDigit_of_mem_toDigits (by decide) (by decide) hc

@[simp] theorem numeral_text (k : ℕ) : (numeral k).text = decimal k := rfl

@[simp] theorem numeral_value (k : ℕ) : (numeral k).value = k :=
  Nat.ofDigitChars_toDigits (by decide) (by decide)

end Text
