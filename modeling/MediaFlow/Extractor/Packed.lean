import MediaFlow.Lib.UrlCoding
import MediaFlow.Lib.Words

/-!
# Packed scripts

`apply_symtab` of `extractor/packed.rs`: in a packed script the words are numerals, which stand for
the symbols of a table. The decoder of numerals takes any word for one: unknown characters count as
zero, digits are not compared with the radix, and the value wraps. `replacesExactly_iff` says for
which scripts this makes no difference.
-/

open ByteString Text UrlCoding

namespace MediaFlow

/-! ### The code -/

/-- The digits, in order. -/
def numeralChars : Bytes :=
  utf8 "0123456789abcdefghijklmnopqrstuvwxyzABCDEFGHIJKLMNOPQRSTUVWXYZ".toList

/-- The value of a byte as a digit. -/
def digitValue (byte : UInt8) : ℕ := (numeralChars.idxOf? byte).getD 0

/-- `unbase`. -/
def unbase (s : Str) (base : ℕ) : ℕ :=
  (utf8 s).foldl (fun result byte => (result * base + digitValue byte) % 2 ^ 64) 0

/-- The first step of `apply_symtab`, which resolves escapes. -/
def unescape (payload : Str) : Str :=
  replace ['\\', '\''] ['\''] (replace ['\\', '\\'] ['\\'] payload)

/-- What a word is replaced by. -/
def symbolOf (symtab : List Str) (radix : ℕ) (word : Str) : Str :=
  match symtab[unbase word radix]? with
  | some symbol => if symbol ≠ [] then symbol else word
  | none => word

/-- The pieces that `apply_symtab` writes; the matches of its expression are the longest words.
`isWord` is `\w` of the `regex` crate. -/
def symtabPieces (isWord : Char → Bool) (payload : Str) (symtab : List Str) (radix : ℕ) :
    List Str :=
  (wordPieces isWord (unescape payload)).map (WordPiece.replaced (symbolOf symtab radix))

def applySymtab (isWord : Char → Bool) (payload : Str) (symtab : List Str) (radix : ℕ) : Str :=
  (symtabPieces isWord payload symtab radix).flatten

/-! ### What it should do -/

/-- The digit of a number below 62. -/
def numeralChar (d : ℕ) : Char :=
  if d < 10 then Char.ofNat (48 + d)
  else if d < 36 then Char.ofNat (87 + d)
  else Char.ofNat (29 + d)

/-- How a number is written, without leading zeros. -/
def numeralText (radix n : ℕ) : Str :=
  if n = 0 then ['0'] else (Nat.digits radix n).reverse.map numeralChar

/-- The word stands for a symbol of the table. -/
def StandsFor (symtab : List Str) (radix : ℕ) (word symbol : Str) : Prop :=
  symbol ≠ [] ∧ ∃ i, symtab[i]? = some symbol ∧ word = numeralText radix i

/-- A word becomes the symbol that it stands for, or stays, and all else stays. -/
def RightPiece (symtab : List Str) (radix : ℕ) : WordPiece → Str → Prop
  | .word w, out =>
    StandsFor symtab radix w out ∨ (¬ ∃ symbol, StandsFor symtab radix w symbol) ∧ out = w
  | .other c, out => out = [c]

/-- **Unpacking is exact**, piece by piece of the payload. -/
def ReplacesExactly (isWord : Char → Bool) (payload : Str) (symtab : List Str) (radix : ℕ) : Prop :=
  List.Forall₂ (RightPiece symtab radix) (wordPieces isWord payload)
    (symtabPieces isWord payload symtab radix)

/-- The value of a word, whatever its characters are. -/
def looseValue (radix : ℕ) (word : Str) : ℕ :=
  Nat.ofDigits radix ((utf8 word).reverse.map digitValue)

/-- The word is the numeral of its value, as 64 bits hold it, or there is no symbol at that value,
or it is the word itself. -/
def UnambiguousWord (symtab : List Str) (radix : ℕ) (word : Str) : Prop :=
  ∀ symbol, symtab[looseValue radix word % 2 ^ 64]? = some symbol → symbol ≠ [] →
    word = numeralText radix (looseValue radix word % 2 ^ 64) ∨ symbol = word

/-- There is nothing to resolve. -/
def NoEscapes (payload : Str) : Prop := ¬ ['\\', '\\'] <:+: payload ∧ ¬ ['\\', '\''] <:+: payload

/-- What is relied on of `\w`: the characters of escapes are not in words. -/
structure WordChars (isWord : Char → Bool) : Prop where
  backslash : isWord '\\' = false
  quote : isWord '\'' = false

/-! ### Numerals -/

section Numerals

variable {radix : ℕ}

theorem unbase_eq (word : Str) : unbase word radix = looseValue radix word % 2 ^ 64 := by
  have hfold : ∀ (l : Bytes) (n : ℕ),
      l.foldl (fun r b => (r * radix + digitValue b) % 2 ^ 64) (n % 2 ^ 64)
      = (Nat.ofDigits radix (l.reverse.map digitValue) + radix ^ l.length * n) % 2 ^ 64 := by
    intro l
    induction l with
    | nil => intro n; simp
    | cons b l ih =>
      intro n
      have hstep : (n % 2 ^ 64 * radix + digitValue b) % 2 ^ 64
          = (n * radix + digitValue b) % 2 ^ 64 := by
        rw [Nat.add_mod, Nat.mod_mul_mod, ← Nat.add_mod]
      rw [List.foldl_cons, hstep, ih, List.reverse_cons, List.map_append, Nat.ofDigits_append,
        List.length_map, List.length_reverse, List.map_singleton, Nat.ofDigits_singleton,
        List.length_cons]
      congr 1
      ring
  have h := hfold (utf8 word) 0
  rwa [Nat.zero_mod, Nat.mul_zero, Nat.add_zero] at h

theorem utf8_numeralChar {d : ℕ} (h : d < 62) :
    ∃ b, encodeChar (numeralChar d) = [b] ∧ digitValue b = d := by
  have hall : ∀ d < 62, encodeChar (numeralChar d) = [UInt8.ofNat (numeralChar d).toNat] ∧
      digitValue (UInt8.ofNat (numeralChar d).toNat) = d := by
    decide +kernel
  exact ⟨_, hall d h⟩

/-- The decoder undoes the writing of numbers. -/
theorem looseValue_numeralText (hradix : 2 ≤ radix) (hmax : radix ≤ 62) (n : ℕ) :
    looseValue radix (numeralText radix n) = n := by
  have hmap : ∀ l : List ℕ, (∀ d ∈ l, d < 62) →
      (utf8 (l.map numeralChar)).map digitValue = l := by
    intro l hl
    induction l with
    | nil => rfl
    | cons d l ih =>
      rw [List.forall_mem_cons] at hl
      obtain ⟨b, hb, hvalue⟩ := utf8_numeralChar hl.1
      show (encodeChar (numeralChar d) ++ utf8 (l.map numeralChar)).map digitValue = d :: l
      rw [hb, List.map_append, ih hl.2, List.map_singleton, hvalue]
      rfl
  unfold looseValue numeralText
  by_cases hn : n = 0
  · rw [if_pos hn, hn]
    have hzero : (utf8 ['0']).reverse.map digitValue = [0] := by decide +kernel
    rw [hzero, Nat.ofDigits_singleton]
  · have hdigits : ∀ d ∈ (Nat.digits radix n).reverse, d < 62 := fun d hd =>
      (Nat.digits_lt_base (by omega) (List.mem_reverse.mp hd)).trans_le hmax
    rw [if_neg hn, List.map_reverse, hmap _ hdigits, List.reverse_reverse, Nat.ofDigits_digits]

end Numerals

/-! ### Words -/

section Words

variable {symtab : List Str} {radix : ℕ} {word : Str}

/-- A word that stands for a symbol is found in the table. -/
theorem StandsFor.getElem? {symbol : Str} (hradix : 2 ≤ radix) (hmax : radix ≤ 62)
    (hlen : symtab.length < 2 ^ 63) (h : StandsFor symtab radix word symbol) :
    symtab[looseValue radix word % 2 ^ 64]? = some symbol ∧
      word = numeralText radix (looseValue radix word % 2 ^ 64) := by
  obtain ⟨-, i, hi, rfl⟩ := h
  obtain ⟨hlt, -⟩ := List.getElem?_eq_some_iff.mp hi
  rw [looseValue_numeralText hradix hmax, Nat.mod_eq_of_lt (by omega)]
  exact ⟨hi, rfl⟩

/-- **A word** is replaced as it should be exactly if it is unambiguous. -/
theorem rightPiece_symbolOf_iff (hradix : 2 ≤ radix) (hmax : radix ≤ 62)
    (hlen : symtab.length < 2 ^ 63) :
    RightPiece symtab radix (.word word) (symbolOf symtab radix word) ↔
      UnambiguousWord symtab radix word := by
  -- without a symbol at the place that is looked up, the word stays and stands for nothing
  have hnone : (¬ ∃ symbol, symtab[looseValue radix word % 2 ^ 64]? = some symbol ∧ symbol ≠ []) →
      symbolOf symtab radix word = word ∧ ¬ ∃ symbol, StandsFor symtab radix word symbol := by
    intro h
    refine ⟨?_, fun ⟨symbol, hs⟩ => h ⟨symbol, (hs.getElem? hradix hmax hlen).1, hs.1⟩⟩
    unfold symbolOf
    rw [unbase_eq]
    cases hfound : symtab[looseValue radix word % 2 ^ 64]? with
    | none => rfl
    | some symbol => exact if_neg fun hne => h ⟨symbol, hfound, hne⟩
  by_cases h : ∃ symbol, symtab[looseValue radix word % 2 ^ 64]? = some symbol ∧ symbol ≠ []
  · obtain ⟨symbol, hfound, hne⟩ := h
    have hsymbol : symbolOf symtab radix word = symbol := by
      unfold symbolOf
      rw [unbase_eq, hfound]
      exact if_pos hne
    rw [hsymbol]
    constructor
    · intro hright symbol' hfound' _
      obtain rfl := Option.some.inj (hfound.symm.trans hfound')
      rcases hright with hstands | ⟨-, hsame⟩
      · exact .inl (hstands.getElem? hradix hmax hlen).2
      · exact .inr hsame
    · intro hunambiguous
      rcases hunambiguous symbol hfound hne with hword | rfl
      · exact .inl ⟨hne, _, hfound, hword⟩
      · -- the symbol is the word, which may or may not stand for it
        by_cases hstands : ∃ s, StandsFor symtab radix symbol s
        · obtain ⟨s, hs⟩ := hstands
          obtain rfl := Option.some.inj ((hs.getElem? hradix hmax hlen).1.symm.trans hfound)
          exact .inl hs
        · exact .inr ⟨hstands, rfl⟩
  · obtain ⟨hword, hstands⟩ := hnone h
    exact iff_of_true (.inr ⟨hstands, hword⟩)
      fun symbol hfound hne => absurd ⟨symbol, hfound, hne⟩ h

end Words

/-! ### Scripts -/

section Scripts

variable {isWord : Char → Bool} {payload : Str}

theorem unescape_of_noEscapes (h : NoEscapes payload) : unescape payload = payload := by
  unfold unescape
  rw [replace_of_absent h.1, replace_of_absent h.2]

/-- An escape that is resolved is a piece less. -/
theorem length_wordPieces_unescape (hwords : WordChars isWord) (h : ¬ NoEscapes payload) :
    (wordPieces isWord (unescape payload)).length < (wordPieces isWord payload).length := by
  obtain ⟨hle₁, hlt₁⟩ := length_wordPieces_replace_pair hwords.backslash hwords.backslash payload
  obtain ⟨hle₂, hlt₂⟩ := length_wordPieces_replace_pair hwords.backslash hwords.quote
    (replace ['\\', '\\'] ['\\'] payload)
  unfold unescape
  by_cases hfirst : ['\\', '\\'] <:+: payload
  · exact hle₂.trans_lt (hlt₁ hfirst)
  · rw [replace_of_absent hfirst] at hlt₂ ⊢
    exact hlt₂ (not_not.mp fun hsecond => h ⟨hfirst, hsecond⟩)

end Scripts

/-- **A script** is unpacked exactly if it has no escapes, and all its words are unambiguous. -/
theorem replacesExactly_iff (isWord : Char → Bool) (payload : Str) (symtab : List Str) (radix : ℕ)
    (hwords : WordChars isWord) (hradix : 2 ≤ radix) (hmax : radix ≤ 62)
    (hlen : symtab.length < 2 ^ 63) :
    ReplacesExactly isWord payload symtab radix ↔
      NoEscapes payload ∧
        ∀ w, .word w ∈ wordPieces isWord payload → UnambiguousWord symtab radix w := by
  -- without escapes the pieces are looked at one by one
  have hpieces : NoEscapes payload → (ReplacesExactly isWord payload symtab radix ↔
      ∀ w, .word w ∈ wordPieces isWord payload → UnambiguousWord symtab radix w) := by
    intro hescapes
    unfold ReplacesExactly symtabPieces
    rw [unescape_of_noEscapes hescapes, List.forall₂_map_right_iff, List.forall₂_same]
    constructor
    · intro h w hw
      exact (rightPiece_symbolOf_iff hradix hmax hlen).mp (h _ hw)
    · intro h p hp
      cases p with
      | word w => exact (rightPiece_symbolOf_iff hradix hmax hlen).mpr (h w hp)
      | other c => exact rfl
  constructor
  · intro h
    have hescapes : NoEscapes payload := by
      -- an escape that is resolved leaves fewer pieces
      by_contra hnot
      have hlt := length_wordPieces_unescape hwords hnot
      have hsame := h.length_eq
      unfold symtabPieces at hsame
      rw [List.length_map] at hsame
      omega
    exact ⟨hescapes, (hpieces hescapes).mp h⟩
  · rintro ⟨hescapes, h⟩
    exact (hpieces hescapes).mpr h

/-- The word characters of ASCII. -/
def asciiWord (c : Char) : Bool := c.isAlphanum || c = '_'

/-- A script with two numerals. -/
theorem replacesExactly_numerals :
    ReplacesExactly asciiWord "0.1()".toList [['a'], ['b']] 10 := by
  refine (replacesExactly_iff asciiWord _ _ 10 ⟨by decide, by decide⟩ (by decide) (by decide)
    (by decide)).mpr ⟨⟨by decide +kernel, by decide +kernel⟩, fun w hw symbol _ _ => ?_⟩
  have hpieces : wordPieces asciiWord "0.1()".toList
      = [.word ['0'], .other '.', .word ['1'], .other '(', .other ')'] := by
    decide +kernel
  rw [hpieces] at hw
  obtain rfl | rfl : w = ['0'] ∨ w = ['1'] := by simpa using hw
  · exact .inl (by decide +kernel)
  · exact .inl (by decide +kernel)

/-- An underscore is taken for the number 0. -/
theorem not_replacesExactly_underscore : ¬ ReplacesExactly asciiWord ['_'] [['a']] 10 := by
  intro h
  have hpieces : symtabPieces asciiWord ['_'] [['a']] 10 = [['a']] := by decide +kernel
  unfold ReplacesExactly at h
  rw [hpieces] at h
  obtain ⟨-, i, hi, hword⟩ | ⟨-, hsame⟩ := (List.forall₂_cons.mp h).1
  · cases i with
    | zero => exact absurd hword (by decide)
    | succ i => cases hi
  · cases hsame

end MediaFlow
