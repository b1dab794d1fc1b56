import MediaFlow.Lib.Replace

/-!
# Words in a text

A text taken apart into its words, the longest runs of word characters, and the characters between
them, for any notion of word character.

* `flatMap_text_wordPieces`, `wordPieces_maximal`: what the pieces are;
* `length_wordPieces_replace_pair`: dropping the first of two characters that are not in words
  leaves fewer pieces.
-/

namespace Text

inductive WordPiece
  | word (w : Str)
  | other (c : Char)
deriving DecidableEq

namespace WordPiece

def text : WordPiece → Str
  | word w => w
  | other c => [c]

/-- The text of a piece, with words replaced. -/
def replaced (f : Str → Str) : WordPiece → Str
  | word w => f w
  | other c => [c]

def isOther : WordPiece → Bool
  | word _ => false
  | other _ => true

end WordPiece

open WordPiece

variable {isWord : Char → Bool}

/-- A character in front of pieces. -/
def consPiece (isWord : Char → Bool) (c : Char) (ps : List WordPiece) : List WordPiece :=
  if isWord c then
    match ps with
    | .word w :: rest => .word (c :: w) :: rest
    | _ => .word [c] :: ps
  else .other c :: ps

def wordPieces (isWord : Char → Bool) : Str → List WordPiece
  | [] => []
  | c :: s => consPiece isWord c (wordPieces isWord s)

variable {c : Char} {ps : List WordPiece}

theorem consPiece_other (hc : isWord c = false) : consPiece isWord c ps = .other c :: ps :=
  if_neg (by rw [hc]; exact Bool.false_ne_true)

theorem consPiece_word (hc : isWord c = true) (w : Str) :
    consPiece isWord c (.word w :: ps) = .word (c :: w) :: ps := if_pos hc

theorem consPiece_first (hc : isWord c = true) (hps : ∀ w rest, ps ≠ .word w :: rest) :
    consPiece isWord c ps = .word [c] :: ps := by
  unfold consPiece
  rw [if_pos hc]
  split
  · next w rest => exact absurd rfl (hps w rest)
  · rfl

theorem flatMap_text_consPiece (c : Char) (ps : List WordPiece) :
    (consPiece isWord c ps).flatMap text = c :: ps.flatMap text := by
  unfold consPiece
  split
  · split <;> rfl
  · rfl

/-- The pieces make up the text. -/
theorem flatMap_text_wordPieces (s : Str) : (wordPieces isWord s).flatMap text = s := by
  induction s with
  | nil => rfl
  | cons c s ih => rw [wordPieces, flatMap_text_consPiece, ih]

/-- What pieces are: words of word characters, and others between them. -/
structure Pieces (isWord : Char → Bool) (ps : List WordPiece) : Prop where
  word : ∀ w, .word w ∈ ps → w ≠ [] ∧ ∀ c ∈ w, isWord c = true
  other : ∀ c, .other c ∈ ps → isWord c = false
  apart : ps.IsChain fun p q => p.isOther = true ∨ q.isOther = true

theorem Pieces.consPiece (h : Pieces isWord ps)
    (c : Char) : Pieces isWord (consPiece isWord c ps) := by
  by_cases hc : isWord c = true
  · by_cases hword : ∃ w rest, ps = .word w :: rest
    · -- the word grows by a character
      obtain ⟨w, rest, rfl⟩ := hword
      obtain ⟨-, hw⟩ := h.word w List.mem_cons_self
      rw [consPiece_word hc]
      refine ⟨fun w' hw' => ?_, fun d hd => ?_, ?_⟩
      · obtain heq | hmem := List.mem_cons.mp hw'
        · cases heq
          exact ⟨List.cons_ne_nil c w, List.forall_mem_cons.mpr ⟨hc, hw⟩⟩
        · exact h.word w' (List.mem_cons_of_mem _ hmem)
      · obtain heq | hmem := List.mem_cons.mp hd
        · cases heq
        · exact h.other d (List.mem_cons_of_mem _ hmem)
      · cases rest with
        | nil => exact List.isChain_singleton _
        | cons q rest =>
          obtain ⟨hfirst, hrest⟩ := List.isChain_cons_cons.mp h.apart
          exact List.isChain_cons_cons.mpr ⟨hfirst, hrest⟩
    · have hps : ∀ w rest, ps ≠ .word w :: rest := fun w rest heq => hword ⟨w, rest, heq⟩
      rw [consPiece_first hc hps]
      refine ⟨fun w' hw' => ?_, fun d hd => ?_, ?_⟩
      · obtain heq | hmem := List.mem_cons.mp hw'
        · cases heq
          exact ⟨List.cons_ne_nil c [], List.forall_mem_singleton.mpr hc⟩
        · exact h.word w' hmem
      · obtain heq | hmem := List.mem_cons.mp hd
        · cases heq
        · exact h.other d hmem
      · cases ps with
        | nil => exact List.isChain_singleton _
        | cons q rest =>
          refine List.isChain_cons_cons.mpr ⟨.inr ?_, h.apart⟩
          cases q with
          | word w => exact absurd rfl (hps w rest)
          | other d => rfl
  -- a character that is in no word is a piece of its own
  · rw [Bool.not_eq_true] at hc
    rw [consPiece_other hc]
    refine ⟨fun w hw => ?_, fun d hd => ?_, ?_⟩
    · obtain heq | hmem := List.mem_cons.mp hw
      · cases heq
      · exact h.word w hmem
    · obtain heq | hmem := List.mem_cons.mp hd
      · cases heq
        exact hc
      · exact h.other d hmem
    · cases ps with
      | nil => exact List.isChain_singleton _
      | cons q rest => exact List.isChain_cons_cons.mpr ⟨.inl rfl, h.apart⟩

/-- **The words are maximal.** -/
theorem wordPieces_maximal (s : Str) : Pieces isWord (wordPieces isWord s) := by
  induction s with
  | nil =>
    refine ⟨fun _ h => ?_, fun _ h => ?_, List.isChain_nil⟩
    · cases h
    · cases h
  | cons c s ih => exact ih.consPiece c

/-! ### Dropping a character between words -/

/-- Whether a text begins with a word, as its pieces do. -/
theorem exists_word_iff (s : Str) :
    (∃ w rest, wordPieces isWord s = .word w :: rest) ↔ s.head?.any isWord = true := by
  cases s with
  | nil => exact iff_of_false (by rintro ⟨w, rest, h⟩; cases h) Bool.false_ne_true
  | cons c s =>
    show _ ↔ isWord c = true
    rw [wordPieces]
    by_cases hc : isWord c = true
    · refine iff_of_true ?_ hc
      by_cases hword : ∃ w rest, wordPieces isWord s = .word w :: rest
      · obtain ⟨w, rest, heq⟩ := hword
        exact ⟨c :: w, rest, by rw [heq, consPiece_word hc]⟩
      · exact ⟨[c], _, consPiece_first hc fun w rest heq => hword ⟨w, rest, heq⟩⟩
    · refine iff_of_false ?_ hc
      rw [Bool.not_eq_true] at hc
      rw [consPiece_other hc]
      rintro ⟨w, rest, h⟩
      cases h

theorem length_wordPieces_cons (c : Char) (s : Str) : (wordPieces isWord (c :: s)).length =
    if isWord c = true ∧ s.head?.any isWord = true then (wordPieces isWord s).length
    else (wordPieces isWord s).length + 1 := by
  rw [wordPieces]
  by_cases hc : isWord c = true
  · by_cases hword : s.head?.any isWord = true
    · rw [if_pos ⟨hc, hword⟩]
      obtain ⟨w, rest, heq⟩ := (exists_word_iff s).mpr hword
      rw [heq, consPiece_word hc]
      rfl
    · have hfirst : ∀ w rest, wordPieces isWord s ≠ .word w :: rest := fun w rest heq =>
        hword ((exists_word_iff s).mp ⟨w, rest, heq⟩)
      rw [if_neg fun h => hword h.2, consPiece_first hc hfirst, List.length_cons]
  · rw [if_neg fun h => hc h.1, consPiece_other ((Bool.not_eq_true _).mp hc), List.length_cons]

section Pair

variable {x y : Char} (hx : isWord x = false) (hy : isWord y = false)

include hx hy

/-- The first character is a word character before and after. -/
theorem head?_replace_pair (s : Str) :
    (replace [x, y] [y] s).head?.any isWord = s.head?.any isWord := by
  cases s with
  | nil => rfl
  | cons c s =>
    by_cases hfirst : [x, y] <+: c :: s
    · obtain ⟨t, heq⟩ := hfirst
      rw [← heq, replace_append (List.cons_ne_nil x [y])]
      exact hy.trans hx.symm
    · rw [replace_cons hfirst]
      rfl

/-- **Where a character is dropped**, there is a piece less. -/
theorem length_wordPieces_replace_pair (s : Str) :
    (wordPieces isWord (replace [x, y] [y] s)).length ≤ (wordPieces isWord s).length ∧
      ([x, y] <:+: s →
        (wordPieces isWord (replace [x, y] [y] s)).length < (wordPieces isWord s).length) := by
  by_cases hfirst : [x, y] <+: s
  · obtain ⟨t, ht⟩ := hfirst
    obtain ⟨hrest, -⟩ := length_wordPieces_replace_pair t
    -- `x` and `y` are pieces of their own, and one of them is left
    have hlt : (wordPieces isWord (replace [x, y] [y] s)).length
      < (wordPieces isWord s).length := by
      rw [← ht, replace_append (List.cons_ne_nil x [y])]
      show (wordPieces isWord (y :: replace [x, y] [y] t)).length
        < (wordPieces isWord (x :: y :: t)).length
      rw [length_wordPieces_cons, length_wordPieces_cons x, length_wordPieces_cons y,
        if_neg fun h => Bool.false_ne_true (hy.symm.trans h.1),
        if_neg fun h => Bool.false_ne_true (hx.symm.trans h.1),
        if_neg fun h => Bool.false_ne_true (hy.symm.trans h.1)]
      omega
    exact ⟨hlt.le, fun _ => hlt⟩
  · match s, hfirst with
    | [], _ => exact ⟨le_rfl, fun h => absurd (List.infix_nil.mp h) (List.cons_ne_nil x [y])⟩
    | c :: s, hfirst =>
      obtain ⟨hle, hlt⟩ := length_wordPieces_replace_pair s
      rw [replace_cons hfirst, length_wordPieces_cons, length_wordPieces_cons,
        head?_replace_pair hx hy, List.infix_cons_iff]
      refine ⟨?_, fun h => ?_⟩
      · split <;> omega
      · have hrest := hlt (h.resolve_left hfirst)
        split <;> omega
termination_by s.length
decreasing_by
  · rw [← ht, List.length_append]
    exact Nat.lt_add_of_pos_left (Nat.succ_pos _)
  · exact Nat.lt_succ_self _

end Pair

end Text
