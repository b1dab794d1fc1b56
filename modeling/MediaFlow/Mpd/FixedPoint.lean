import MediaFlow.Hls.Manifest
import MediaFlow.Lib.Digits

/-!
# Numbers with decimals

What `formatFixed` writes is read back as the number that it rounds to (`parseF64_formatFixed`),
which is in the bounds of the number given as far as these are whole (`fixedValue_le_natCast`).
-/

open Text

namespace MediaFlow

/-! ### The number that is written -/

/-- The number without its sign, in units of the last decimal. -/
def roundedUnits (digits : ℕ) (q : ℚ) : ℕ :=
  let scaled := |q| * 10 ^ digits
  if scaled - ⌊scaled⌋ < 1 / 2 ∨ (scaled - ⌊scaled⌋ = 1 / 2 ∧ ⌊scaled⌋ % 2 = 0) then
    ⌊scaled⌋.toNat
  else ⌊scaled⌋.toNat + 1

def fixedValue (digits : ℕ) (q : ℚ) : ℚ :=
  (if q < 0 then -1 else 1) * (roundedUnits digits q / 10 ^ digits)

/-- Rounding does not pass a whole number of units. -/
theorem roundedUnits_le {digits : ℕ} {q : ℚ} {n : ℕ} (h : |q| * 10 ^ digits ≤ n) :
    roundedUnits digits q ≤ n := by
  have hfloor : ⌊|q| * 10 ^ digits⌋.toNat ≤ n := by
    rw [Int.toNat_le]
    exact_mod_cast (Int.floor_le _).trans h
  unfold roundedUnits
  dsimp only
  split
  · exact hfloor
  · next hup =>
    -- it is rounded up, so it is no whole number
    rw [not_or, not_lt] at hup
    have hfraction : (⌊|q| * 10 ^ digits⌋ : ℚ) < |q| * 10 ^ digits := by
      linarith [hup.1]
    have hlt : ⌊|q| * 10 ^ digits⌋ < n := by
      exact_mod_cast hfraction.trans_le h
    have hnonneg : 0 ≤ ⌊|q| * 10 ^ digits⌋ := Int.floor_nonneg.mpr (by positivity)
    omega

theorem fixedValue_le_natCast {digits : ℕ} {q : ℚ} {n : ℕ} (h : q ≤ n) :
    fixedValue digits q ≤ n := by
  have hpow : (0 : ℚ) < 10 ^ digits := by positivity
  unfold fixedValue
  by_cases hneg : q < 0
  · rw [if_pos hneg]
    have hunits : (0 : ℚ) ≤ roundedUnits digits q / 10 ^ digits := by positivity
    have hn : (0 : ℚ) ≤ n := Nat.cast_nonneg n
    linarith
  · rw [if_neg hneg, one_mul, div_le_iff₀ hpow]
    have habs : |q| * 10 ^ digits ≤ ((n * 10 ^ digits : ℕ) : ℚ) := by
      rw [abs_of_nonneg (not_lt.mp hneg)]
      push_cast
      exact mul_le_mul_of_nonneg_right h hpow.le
    have hunits := roundedUnits_le habs
    exact_mod_cast hunits

/-! ### Its text -/

/-- The decimals, as many as are asked for. -/
def fractionText (digits n : ℕ) : Str :=
  List.replicate (digits - (decimal (n % 10 ^ digits)).length) '0' ++ decimal (n % 10 ^ digits)

theorem formatFixed_eq {digits : ℕ} (hdigits : digits ≠ 0) (q : ℚ) :
    formatFixed digits q = (if q < 0 then ['-'] else [])
      ++ (decimal (roundedUnits digits q / 10 ^ digits)
        ++ '.' :: fractionText digits (roundedUnits digits q)) := by
  unfold formatFixed
  dsimp only
  rw [if_neg hdigits, List.append_assoc]
  rfl

theorem length_fractionText {digits : ℕ} (hdigits : digits ≠ 0) (n : ℕ) :
    (fractionText digits n).length = digits := by
  have hle : (decimal (n % 10 ^ digits)).length ≤ digits :=
    (Nat.length_toDigits_le_iff (by decide) (Nat.pos_of_ne_zero hdigits)).mpr
      (Nat.mod_lt _ (by positivity))
  rw [fractionText, List.length_append, List.length_replicate]
  omega

theorem isDigit_of_mem_decimal {n : ℕ} {c : Char} (h : c ∈ decimal n) : c.isDigit = true :=
  Nat.isDigit_of_mem_toDigits (by decide) (by decide) h

theorem isDigit_of_mem_fractionText {digits n : ℕ} {c : Char} (h : c ∈ fractionText digits n) :
    c.isDigit = true := by
  obtain h | h := List.mem_append.mp h
  · rw [List.eq_of_mem_replicate h]
    rfl
  · exact isDigit_of_mem_decimal h

theorem digitsValue_eq (s : Str) : digitsValue s = Nat.ofDigitChars 10 s 0 := by
  rw [digitsValue, Nat.ofDigitChars]
  refine List.foldl_ext _ _ _ fun m c _ => ?_
  rw [Nat.mul_comm]
  rfl

@[simp] theorem digitsValue_decimal (n : ℕ) : digitsValue (decimal n) = n := by
  rw [digitsValue_eq]
  exact Nat.ofDigitChars_ten_toDigits

@[simp] theorem digitsValue_fractionText (digits n : ℕ) :
    digitsValue (fractionText digits n) = n % 10 ^ digits := by
  rw [digitsValue_eq, fractionText, Nat.ofDigitChars_append, Nat.ofDigitChars_replicate_zero,
    Nat.mul_zero]
  exact Nat.ofDigitChars_ten_toDigits

theorem parseDecimal_text {digits : ℕ} (hdigits : digits ≠ 0) (n : ℕ) :
    parseDecimal (decimal (n / 10 ^ digits) ++ '.' :: fractionText digits n)
      = some ((n : ℚ) / 10 ^ digits) := by
  have hdot : '.' ∉ decimal (n / 10 ^ digits) := fun h =>
    absurd (isDigit_of_mem_decimal h) (by decide)
  have hread : (decimal (n / 10 ^ digits) ≠ [] ∨ fractionText digits n ≠ []) ∧
      (decimal (n / 10 ^ digits)).all Char.isDigit = true ∧
      (fractionText digits n).all Char.isDigit = true :=
    ⟨.inl Nat.toDigits_ne_nil, List.all_eq_true.mpr fun _ => isDigit_of_mem_decimal,
      List.all_eq_true.mpr fun _ => isDigit_of_mem_fractionText⟩
  have hpow : (10 : ℚ) ^ digits ≠ 0 := by positivity
  have hvalue : ((n / 10 ^ digits : ℕ) : ℚ) + ((n % 10 ^ digits : ℕ) : ℚ) / 10 ^ digits
      = n / 10 ^ digits := by
    rw [eq_div_iff hpow, add_mul, div_mul_cancel₀ _ hpow]
    exact_mod_cast Nat.div_add_mod' n (10 ^ digits)
  unfold parseDecimal
  rw [splitOnce_of_not_mem hdot]
  dsimp only
  rw [if_pos hread, digitsValue_decimal, digitsValue_fractionText, length_fractionText hdigits,
    hvalue]

/-- Without an exponent, a number is read as its decimals, behind a sign if there is one. -/
theorem parseF64_of_plain {s : Str} (hplain : ∀ c ∈ s, c ≠ 'e' ∧ c ≠ 'E')
    (hsign : s.head? ≠ some '-' ∧ s.head? ≠ some '+') :
    parseF64 s = parseDecimal s ∧ parseF64 ('-' :: s) = (parseDecimal s).map (-·) := by
  have hplain' : ∀ c ∈ s, decide (c ≠ 'e' ∧ c ≠ 'E') = true := fun c hc =>
    decide_eq_true (hplain c hc)
  have hmantissa : (s.takeWhile fun c => c ≠ 'e' ∧ c ≠ 'E') = s :=
    List.takeWhile_eq_self_iff.mpr hplain'
  have hexponent : (s.dropWhile fun c => c ≠ 'e' ∧ c ≠ 'E') = [] :=
    List.dropWhile_eq_nil_iff.mpr hplain'
  constructor
  · unfold parseF64
    split
    next heq =>
      -- there is no sign to take off
      split at heq
      · exact absurd rfl hsign.1
      · exact absurd rfl hsign.2
      · cases heq
        simp only [hmantissa, hexponent]
        cases parseDecimal s with
        | none => rfl
        | some m => simp
  · unfold parseF64
    simp only [hmantissa, hexponent]
    cases parseDecimal s with
    | none => rfl
    | some m => simp

/-- The text without its sign. -/
theorem head?_text_isDigit (m : ℕ) (rest : Str) :
    ∃ c, (decimal m ++ rest).head? = some c ∧ c.isDigit = true := by
  have hne : decimal m ≠ [] := Nat.toDigits_ne_nil
  obtain ⟨c, t, ht⟩ := List.exists_cons_of_ne_nil hne
  refine ⟨c, ?_, isDigit_of_mem_decimal (ht ▸ List.mem_cons_self)⟩
  rw [ht]
  rfl

theorem mem_text {digits n m : ℕ} {c : Char} (h : c ∈ decimal m ++ '.' :: fractionText digits n) :
    c.isDigit = true ∨ c = '.' := by
  obtain h | h := List.mem_append.mp h
  · exact .inl (isDigit_of_mem_decimal h)
  · exact (List.mem_cons.mp h).symm.imp_left isDigit_of_mem_fractionText

theorem ne_of_isDigit_or {c d : Char} (h : c.isDigit = true ∨ c = '.') (hd : d.isDigit = false)
    (hdot : d ≠ '.') : c ≠ d := by
  rintro rfl
  obtain h | h := h
  · exact Bool.false_ne_true (hd.symm.trans h)
  · exact hdot h

/-- **What is written is read.** -/
theorem parseF64_formatFixed {digits : ℕ} (hdigits : digits ≠ 0) (q : ℚ) :
    parseF64 (formatFixed digits q) = some (fixedValue digits q) := by
  have hplain : ∀ c ∈ decimal (roundedUnits digits q / 10 ^ digits)
      ++ '.' :: fractionText digits (roundedUnits digits q), c ≠ 'e' ∧ c ≠ 'E' := fun c hc =>
    ⟨ne_of_isDigit_or (mem_text hc) (by decide) (by decide),
      ne_of_isDigit_or (mem_text hc) (by decide) (by decide)⟩
  have hsign : ∀ d : Char, d.isDigit = false → (decimal (roundedUnits digits q / 10 ^ digits)
      ++ '.' :: fractionText digits (roundedUnits digits q)).head? ≠ some d := by
    intro d hd h
    obtain ⟨c, hc, hdigit⟩ := head?_text_isDigit (roundedUnits digits q / 10 ^ digits)
      ('.' :: fractionText digits (roundedUnits digits q))
    rw [hc] at h
    rw [← Option.some.inj h, hdigit] at hd
    cases hd
  obtain ⟨hpositive, hnegative⟩ := parseF64_of_plain hplain ⟨hsign '-' rfl, hsign '+' rfl⟩
  rw [parseDecimal_text hdigits] at hpositive hnegative
  rw [formatFixed_eq hdigits, fixedValue]
  by_cases hneg : q < 0
  · rw [if_pos hneg, if_pos hneg, neg_one_mul]
    exact hnegative
  · rw [if_neg hneg, if_neg hneg, one_mul]
    exact hpositive

/-- A text without whitespace is trimmed already. -/
theorem trim_eq_self {s : Str} (h : ∀ c ∈ s, isWhitespace c = false) : trim s = s := by
  have hkeep {t : Str} (ht : ∀ c ∈ t, c ∈ s) : t.dropWhile isWhitespace = t := by
    cases t with
    | nil => rfl
    | cons c t => exact List.dropWhile_cons_of_neg (by rw [h c (ht c List.mem_cons_self)]; decide)
  rw [trim, hkeep fun _ hc => hc, hkeep fun _ hc => List.mem_reverse.mp hc, List.reverse_reverse]

theorem isDigit_or_of_mem_formatFixed {digits : ℕ} (hdigits : digits ≠ 0) {q : ℚ} {c : Char}
    (h : c ∈ formatFixed digits q) : c = '-' ∨ c.isDigit = true ∨ c = '.' := by
  rw [formatFixed_eq hdigits] at h
  obtain h | h := List.mem_append.mp h
  · split at h
    · exact .inl (List.mem_singleton.mp h)
    · cases h
  · exact .inr (mem_text h)

theorem not_isWhitespace_of_isDigit {c : Char} (h : c.isDigit = true) : isWhitespace c = false := by
  obtain ⟨hlow, hhigh⟩ := Char.isDigit_iff_toNat.mp h
  have hlow : 48 ≤ c.toNat := hlow
  have hhigh : c.toNat ≤ 57 := hhigh
  unfold isWhitespace
  refine decide_eq_false ?_
  omega

/-- The duration of an EXTINF line. -/
theorem parseExtinfDuration_formatFixed (q : ℚ) (title : Str) :
    parseExtinfDuration (extinfTag ++ (formatFixed 3 q ++ ',' :: title)) = fixedValue 3 q := by
  have hcomma : ∀ c ∈ formatFixed 3 q, decide (c ≠ ',') = true := by
    intro c hc
    refine decide_eq_true ?_
    rintro rfl
    exact absurd (isDigit_or_of_mem_formatFixed (by decide) hc) (by decide)
  have htext : (formatFixed 3 q ++ ',' :: title).takeWhile (· ≠ ',') = formatFixed 3 q := by
    rw [List.takeWhile_append_of_pos hcomma]
    simp
  have htrim : trim (formatFixed 3 q) = formatFixed 3 q := by
    refine trim_eq_self fun c hc => ?_
    obtain rfl | h | rfl := isDigit_or_of_mem_formatFixed (by decide) hc
    · rfl
    · exact not_isWhitespace_of_isDigit h
    · rfl
  unfold parseExtinfDuration
  rw [stripPrefix_append, Option.bind_some, htext, htrim, parseF64_formatFixed (by decide),
    Option.getD_some]

end MediaFlow
