import MediaFlow.Lib.Bytes

/-!
# Text

Strings as lists of characters, with the operations of Rust's `str` that programs over text use:
trimming, splitting, prefixes and hexadecimal digits.
-/

namespace Text

open ByteString

/-- A string, as its characters. -/
abbrev Str := List Char

instance : LawfulBEq Str := inferInstance

/-- `char::is_whitespace`: the Unicode `White_Space` property. -/
def isWhitespace (c : Char) : Bool :=
  let n := c.toNat
  (9 ≤ n ∧ n ≤ 13) ∨ n = 0x20 ∨ n = 0x85 ∨ n = 0xA0 ∨ n = 0x1680 ∨ (0x2000 ≤ n ∧ n ≤ 0x200A) ∨
    n = 0x2028 ∨ n = 0x2029 ∨ n = 0x202F ∨ n = 0x205F ∨ n = 0x3000

/-- `str::trim`. -/
def trim (s : Str) : Str :=
  ((s.dropWhile isWhitespace).reverse.dropWhile isWhitespace).reverse

/-- A text that begins without whitespace loses only an end. -/
theorem trim_isPrefix {c : Char} (hc : isWhitespace c = false) (s : Str) : trim (c :: s) <+: c :: s := by
  unfold trim
  rw [List.dropWhile_cons_of_neg (by simp [hc])]
  exact List.rdropWhile_prefix isWhitespace (l := c :: s)

/-- `str::strip_prefix`. -/
def stripPrefix (p s : Str) : Option Str :=
  if p.isPrefixOf s then some (s.drop p.length) else none

theorem stripPrefix_append (p s : Str) : stripPrefix p (p ++ s) = some s := by
  unfold stripPrefix
  rw [if_pos (List.isPrefixOf_iff_prefix.mpr (List.prefix_append p s)), List.drop_left]

theorem stripPrefix_eq_some_iff {p s rest : Str} : stripPrefix p s = some rest ↔ s = p ++ rest := by
  constructor
  · intro h
    unfold stripPrefix at h
    split at h
    · next hp =>
      obtain ⟨t, rfl⟩ := List.isPrefixOf_iff_prefix.mp hp
      rw [List.drop_left] at h
      rw [Option.some.inj h]
    · cases h
  · rintro rfl
    exact stripPrefix_append p rest

/-- `str::find`: the position of the first occurrence of `pat`. -/
def find (pat : Str) : Str → Option ℕ
  | [] => if pat = [] then some 0 else none
  | c :: s => if pat.isPrefixOf (c :: s) then some 0 else (find pat s).map (· + 1)

theorem find_singleton_of_not_mem {c : Char} {s : Str} (h : c ∉ s) : find [c] s = none := by
  induction s with
  | nil => rfl
  | cons d s ih =>
    have hne : c ≠ d := fun heq => h (heq ▸ List.mem_cons_self)
    rw [find, if_neg (by simpa using hne), ih fun hmem => h (List.mem_cons_of_mem _ hmem)]
    rfl

/-- The first occurrence of a character. -/
theorem find_singleton_append {c : Char} {s : Str} (h : c ∉ s) (rest : Str) :
    find [c] (s ++ c :: rest) = some s.length := by
  induction s with
  | nil => simp [find]
  | cons d s ih =>
    have hne : c ≠ d := fun heq => h (heq ▸ List.mem_cons_self)
    rw [List.cons_append, find, if_neg (by simpa using hne),
      ih fun hmem => h (List.mem_cons_of_mem _ hmem)]
    rfl

/-- A pattern does not occur where one of its characters does not. -/
theorem find_eq_none_of_not_mem {pat s : Str} {c : Char} (hpat : c ∈ pat) (hs : c ∉ s) :
    find pat s = none := by
  induction s with
  | nil => exact if_neg (List.ne_nil_of_mem hpat)
  | cons d s ih =>
    have hnot : ¬ pat.isPrefixOf (d :: s) = true := fun h =>
      hs ((List.isPrefixOf_iff_prefix.mp h).subset hpat)
    rw [find, if_neg hnot, ih fun hmem => hs (List.mem_cons_of_mem _ hmem)]
    rfl

/-- An occurrence does not reach over a character that is not in the pattern. -/
theorem find_append_cons {pat s : Str} {c : Char} (hc : c ∉ pat) (hs : find pat s = none) (t : Str) :
    find pat (s ++ c :: t) = (find pat t).map (· + (s.length + 1)) := by
  induction s with
  | nil =>
    have hnot : ¬ pat.isPrefixOf (c :: t) = true := by
      intro h
      obtain ⟨rest, hrest⟩ := List.isPrefixOf_iff_prefix.mp h
      cases pat with
      | nil => exact absurd hs nofun
      | cons d pat => exact hc ((List.cons.inj hrest).1 ▸ List.mem_cons_self)
    rw [List.nil_append, find, if_neg hnot]
    rfl
  | cons d s ih =>
    obtain ⟨hfirst, hrest⟩ : ¬ pat.isPrefixOf (d :: s) = true ∧ find pat s = none := by
      rw [find] at hs
      split at hs
      · cases hs
      · next hfirst => exact ⟨hfirst, Option.map_eq_none_iff.mp hs⟩
    have hnot : ¬ pat.isPrefixOf (d :: (s ++ c :: t)) = true := by
      intro h
      obtain ⟨rest, happ⟩ := List.isPrefixOf_iff_prefix.mp h
      rcases List.append_eq_append_iff.mp (show pat ++ rest = (d :: s) ++ c :: t from happ) with
        ⟨more, hmore, -⟩ | ⟨more, hmore, hover⟩
      · exact hfirst (List.isPrefixOf_iff_prefix.mpr ⟨more, hmore.symm⟩)
      · -- the pattern is the text up to `c`, or it goes on with `c`
        cases more with
        | nil =>
          rw [List.append_nil] at hmore
          exact hfirst (List.isPrefixOf_iff_prefix.mpr (hmore ▸ List.prefix_refl _))
        | cons e more =>
          rw [(List.cons.inj hover).1] at hc
          exact hc (hmore ▸ List.mem_append_right _ List.mem_cons_self)
    rw [List.cons_append, find, if_neg hnot, ih hrest, Option.map_map, List.length_cons]
    congr 1

/-- Where a pattern occurs, its beginning does. -/
theorem isSome_find_of_first {p pat s : Str} (hp : p <+: pat) (h : (find pat s).isSome = true) :
    (find p s).isSome = true := by
  induction s with
  | nil =>
    have hpat : pat = [] := by
      by_contra hne
      rw [find, if_neg hne] at h
      cases h
    rw [find, if_pos (List.prefix_nil.mp (hpat ▸ hp))]
    rfl
  | cons c s ih =>
    rw [find]
    by_cases hfirst : p.isPrefixOf (c :: s) = true
    · rw [if_pos hfirst]
      rfl
    · have hnot : ¬ pat.isPrefixOf (c :: s) = true := fun hpat =>
        hfirst (List.isPrefixOf_iff_prefix.mpr (hp.trans (List.isPrefixOf_iff_prefix.mp hpat)))
      rw [find, if_neg hnot, Option.isSome_map] at h
      rw [if_neg hfirst, Option.isSome_map]
      exact ih h

/-- An occurrence is within the text. -/
theorem length_le_of_find {pat s : Str} {n : ℕ} (h : find pat s = some n) :
    n + pat.length ≤ s.length := by
  induction s generalizing n with
  | nil =>
    rw [find] at h
    split at h
    · next hpat =>
      cases h
      rw [hpat]
      exact le_rfl
    · cases h
  | cons c s ih =>
    rw [find] at h
    split at h
    · next hpat =>
      cases h
      rw [Nat.zero_add]
      exact (List.isPrefixOf_iff_prefix.mp hpat).length_le
    · obtain ⟨m, hm, rfl⟩ := Option.map_eq_some_iff.mp h
      rw [List.length_cons, Nat.add_right_comm]
      exact Nat.succ_le_succ (ih hm)

/-- Texts are different if one does not begin as the other does. -/
theorem append_ne_of_not_isPrefixOf {pat other : Str} (h : pat.isPrefixOf other = false) (s : Str) :
    pat ++ s ≠ other := by
  rintro rfl
  rw [List.isPrefixOf_iff_prefix.mpr (List.prefix_append pat s)] at h
  cases h

/-- `str::contains`. -/
def contains (s pat : Str) : Bool := (find pat s).isSome

/-- `str::replace` for a pattern that is not empty, after `skip` characters that belong to an
occurrence. -/
def replaceFrom (pat new : Str) : ℕ → Str → Str
  | _, [] => []
  | skip + 1, _ :: s => replaceFrom pat new skip s
  | 0, c :: s =>
    if pat.isPrefixOf (c :: s) then new ++ replaceFrom pat new (pat.length - 1) s
    else c :: replaceFrom pat new 0 s

/-- `str::replace`: all occurrences, from left to right, that do not overlap. -/
def replace (pat new s : Str) : Str := replaceFrom pat new 0 s

/-- `str::split_once` for one character. -/
def splitOnce (sep : Char) : Str → Option (Str × Str)
  | [] => none
  | c :: s => if c = sep then some ([], s) else (splitOnce sep s).map fun p => (c :: p.1, p.2)

theorem splitOnce_of_not_mem {sep : Char} {k : Str} (h : sep ∉ k) (v : Str) :
    splitOnce sep (k ++ sep :: v) = some (k, v) := by
  induction k with
  | nil => exact if_pos rfl
  | cons c k ih =>
    have hne : sep ≠ c := List.ne_of_not_mem_cons h
    rw [List.cons_append, splitOnce, if_neg hne.symm, ih (List.not_mem_of_not_mem_cons h)]
    rfl

theorem not_mem_of_splitOnce_eq_none {sep : Char} {s : Str} (h : splitOnce sep s = none) :
    sep ∉ s := by
  induction s with
  | nil => exact List.not_mem_nil
  | cons c s ih =>
    rw [splitOnce] at h
    by_cases hc : c = sep
    · rw [if_pos hc] at h
      cases h
    · rw [if_neg hc, Option.map_eq_none_iff] at h
      exact List.not_mem_cons_of_ne_of_not_mem (Ne.symm hc) (ih h)

/-- The parts do without the separator in the first, and make up the whole. -/
theorem splitOnce_eq_some_iff {sep : Char} {s k v : Str} :
    splitOnce sep s = some (k, v) ↔ s = k ++ sep :: v ∧ sep ∉ k := by
  constructor
  · intro h
    induction s generalizing k with
    | nil => cases h
    | cons c s ih =>
      rw [splitOnce] at h
      by_cases hc : c = sep
      · rw [if_pos hc] at h
        cases h
        exact ⟨by rw [hc]; rfl, List.not_mem_nil⟩
      · rw [if_neg hc, Option.map_eq_some_iff] at h
        obtain ⟨⟨k', v'⟩, h', heq⟩ := h
        cases heq
        obtain ⟨rfl, hk⟩ := ih h'
        exact ⟨rfl, List.not_mem_cons_of_ne_of_not_mem (Ne.symm hc) hk⟩
  · rintro ⟨rfl, hk⟩
    exact splitOnce_of_not_mem hk v

theorem splitOnce_eq_none_of_not_mem {sep : Char} {s : Str} (h : sep ∉ s) :
    splitOnce sep s = none := by
  cases hsplit : splitOnce sep s with
  | none => rfl
  | some parts =>
    obtain ⟨rfl, -⟩ := splitOnce_eq_some_iff.mp hsplit
    exact absurd (List.mem_append_right _ List.mem_cons_self) h

/-- `u64::to_string`. -/
def decimal (n : ℕ) : Str := Nat.toDigits 10 n

theorem decimal_injective : Function.Injective decimal := by
  intro m n h
  have hm := Nat.ofDigitChars_toDigits (b := 10) (n := m) (by decide) (by decide)
  have hn := Nat.ofDigitChars_toDigits (b := 10) (n := n) (by decide) (by decide)
  unfold decimal at h
  rw [← hm, h, hn]

/-- `str::parse::<u64>`: decimal digits, after an optional plus sign. -/
def parseU64 (s : Str) : Option ℕ :=
  let digits := (stripPrefix ['+'] s).getD s
  let n := digits.foldl (fun n c => n * 10 + (c.toNat - 48)) 0
  if digits ≠ [] ∧ digits.all Char.isDigit ∧ n < 2 ^ 64 then some n else none

theorem parseU64_lt {s : Str} {n : ℕ} (h : parseU64 s = some n) : n < 2 ^ 64 := by
  unfold parseU64 at h
  obtain ⟨hok, hn⟩ := Option.ite_none_right_eq_some.1 h
  exact Option.some.inj hn ▸ hok.2.2

/-- The value of a hexadecimal digit. -/
def hexDigit (c : Char) : Option ℕ :=
  let n := c.toNat
  if 48 ≤ n ∧ n ≤ 57 then some (n - 48)
  else if 97 ≤ n ∧ n ≤ 102 then some (n - 87)
  else if 65 ≤ n ∧ n ≤ 70 then some (n - 55)
  else none

/-- `hex::decode`. -/
def hexDecode : Str → Option Bytes
  | [] => some []
  | [_] => none
  | a :: b :: rest => do
    let hi ← hexDigit a
    let lo ← hexDigit b
    return UInt8.ofNat (hi * 16 + lo) :: (← hexDecode rest)

end Text
