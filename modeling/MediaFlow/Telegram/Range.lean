import MediaFlow.Lib.Digits

/-!
# Range requests for Telegram files

`parse_range` of `telegram/handler.rs`, and the length of the content that the handler computes from
it. The ranges of RFC 9110 are those of `RangeSpec`. A header asks for the last bytes in a number that
is zero, or that cannot be read, if it is an `EmptySuffix`: then the range starts behind the file.
`rangeIsRight_iff`: any other header gives a range in the file, the one of the RFC where this has one.
-/

open Text

namespace MediaFlow

/-- `parse_range`: the first and the last byte. -/
def parseRange (header : Option Str) (fileSize : ℕ) : ℕ × ℕ :=
  match header with
  | none => (0, fileSize - 1)
  | some header =>
    -- expected format: "bytes=start-end" or "bytes=-suffix_len"
    let bytesPart := (stripPrefix "bytes=".toList header).getD header
    match splitOnce '-' bytesPart with
    | none => (0, fileSize - 1)
    | some (startStr, endStr) =>
      if startStr = [] then
        let suffixLen := min ((parseU64 endStr).getD 0) fileSize
        (fileSize - suffixLen, fileSize - 1)
      else
        let start := (parseU64 startStr).getD 0
        let last :=
          if endStr = [] then fileSize - 1
          else min ((parseU64 endStr).getD (fileSize - 1)) (fileSize - 1)
        if start > last then (0, fileSize - 1) else (start, last)

/-- The length of the content, `end - start + 1` in 64 bits. -/
def contentLength (range : ℕ × ℕ) : ℕ := (range.2 + 2 ^ 64 - range.1 + 1) % 2 ^ 64

/-! ### The ranges of RFC 9110 -/

/-- One range of bytes, in the unit `bytes`. -/
inductive RangeSpec
  /-- `bytes=a-b` -/
  | closed (first last : Numeral)
  /-- `bytes=a-` -/
  | openEnded (first : Numeral)
  /-- `bytes=-n` -/
  | suffix (length : Numeral)

namespace RangeSpec

def header : RangeSpec → Str
  | closed first last => "bytes=".toList ++ (first.text ++ '-' :: last.text)
  | openEnded first => "bytes=".toList ++ (first.text ++ '-' :: [])
  | suffix length => "bytes=".toList ++ ([] ++ '-' :: length.text)

/-- The range is in order, and has a byte of the file. -/
def Satisfiable (size : ℕ) : RangeSpec → Prop
  | closed first last => first.value ≤ last.value ∧ first.value < size
  | openEnded first => first.value < size
  | suffix length => 1 ≤ length.value

/-- The first and the last byte that are asked for. -/
def range (size : ℕ) : RangeSpec → ℕ × ℕ
  | closed first last => (first.value, min last.value (size - 1))
  | openEnded first => (first.value, size - 1)
  | suffix length => (size - length.value, size - 1)

end RangeSpec

/-! ### What is right -/

/-- A range inside the file, whose length does not wrap; and the one of the RFC, if there is one. -/
structure RangeIsRight (header : Option Str) (size : ℕ) : Prop where
  ordered : (parseRange header size).1 ≤ (parseRange header size).2
  inside : (parseRange header size).2 ≤ size - 1
  length_eq : contentLength (parseRange header size)
    = (parseRange header size).2 - (parseRange header size).1 + 1
  length_pos : 1 ≤ contentLength (parseRange header size)
  rfc : ∀ spec : RangeSpec, spec.Satisfiable size → header = some spec.header →
    parseRange header size = spec.range size

/-- The parts of a header, before and after the dash. -/
def rangeParts (h : Str) : Option (Str × Str) := splitOnce '-' ((stripPrefix "bytes=".toList h).getD h)

/-- The header asks for the last bytes, in a number that is zero or that cannot be read. -/
def EmptySuffix (header : Option Str) : Prop :=
  ∃ h length, header = some h ∧ rangeParts h = some ([], length) ∧ (parseU64 length).getD 0 = 0

section

variable {header : Option Str} {size : ℕ}

theorem contentLength_eq {range : ℕ × ℕ} (h : range.1 ≤ range.2) (hlast : range.2 ≤ size - 1)
    (hsize : size < 2 ^ 64) (hpos : 1 ≤ size) : contentLength range = range.2 - range.1 + 1 := by
  have hsplit : range.2 + 2 ^ 64 - range.1 + 1 = range.2 - range.1 + 1 + 2 ^ 64 := by omega
  unfold contentLength
  rw [hsplit, Nat.add_mod_right, Nat.mod_eq_of_lt (by omega)]

theorem emptySuffix_some_iff {h : Str} : EmptySuffix (some h) ↔
    ∃ length, rangeParts h = some ([], length) ∧ (parseU64 length).getD 0 = 0 := by
  constructor
  · rintro ⟨_, length, heq, hparts, hzero⟩
    cases heq
    exact ⟨length, hparts, hzero⟩
  · rintro ⟨length, hparts, hzero⟩
    exact ⟨h, length, rfl, hparts, hzero⟩

theorem parseRange_suffix {h length : Str} (hparts : rangeParts h = some ([], length)) :
    parseRange (some h) size = (size - min ((parseU64 length).getD 0) size, size - 1) := by
  unfold rangeParts at hparts
  unfold parseRange
  dsimp only
  rw [hparts]
  rfl

/-- The last byte, if a range does not ask for the last bytes. -/
def lastByte (size : ℕ) (last : Str) : ℕ :=
  if last = [] then size - 1 else min ((parseU64 last).getD (size - 1)) (size - 1)

theorem lastByte_le (last : Str) : lastByte size last ≤ size - 1 := by
  by_cases h : last = []
  · exact (if_pos h).le
  · exact (if_neg h).trans_le (Nat.min_le_right _ _)

theorem parseRange_closed {h first last : Str} (hparts : rangeParts h = some (first, last))
    (hfirst : first ≠ []) :
    parseRange (some h) size =
      if (parseU64 first).getD 0 > lastByte size last then (0, size - 1)
      else ((parseU64 first).getD 0, lastByte size last) := by
  unfold rangeParts at hparts
  unfold parseRange
  dsimp only
  rw [hparts]
  exact if_neg hfirst

theorem parseRange_whole {h : Str} (hparts : rangeParts h = none) :
    parseRange (some h) size = (0, size - 1) := by
  unfold rangeParts at hparts
  unfold parseRange
  dsimp only
  rw [hparts]

/-- **The range is in order**, unless the header is an empty suffix. -/
theorem parseRange_ordered_iff (hpos : 1 ≤ size) :
    (parseRange header size).1 ≤ (parseRange header size).2 ↔ ¬ EmptySuffix header := by
  cases header with
  | none => exact iff_of_true (Nat.zero_le _) fun ⟨_, _, h, _⟩ => Option.some_ne_none _ h.symm
  | some h =>
    rw [emptySuffix_some_iff]
    cases hparts : rangeParts h with
    | none =>
      rw [parseRange_whole hparts]
      refine iff_of_true (Nat.zero_le _) ?_
      rintro ⟨_, hnone, -⟩
      cases hnone
    | some parts =>
      obtain ⟨first, last⟩ := parts
      by_cases hfirst : first = []
      · subst hfirst
        rw [parseRange_suffix hparts]
        -- without a length the range starts behind the end
        have hzero : (∃ length, some (([] : Str), last) = some ([], length) ∧ (parseU64 length).getD 0 = 0)
            ↔ (parseU64 last).getD 0 = 0 := by
          constructor
          · rintro ⟨_, heq, hzero⟩
            cases heq
            exact hzero
          · exact fun hzero => ⟨last, rfl, hzero⟩
        rw [hzero]
        dsimp only
        omega
      · rw [parseRange_closed hparts hfirst]
        refine iff_of_true ?_ ?_
        · by_cases hle : (parseU64 first).getD 0 > lastByte size last
          · rw [if_pos hle]
            exact Nat.zero_le _
          · rw [if_neg hle]
            exact Nat.le_of_not_lt hle
        · rintro ⟨_, heq, -⟩
          cases heq
          exact hfirst rfl

theorem parseRange_inside : (parseRange header size).2 ≤ size - 1 := by
  cases header with
  | none => exact le_rfl
  | some h =>
    cases hparts : rangeParts h with
    | none => rw [parseRange_whole hparts]
    | some parts =>
      obtain ⟨first, last⟩ := parts
      by_cases hfirst : first = []
      · subst hfirst
        rw [parseRange_suffix hparts]
      · rw [parseRange_closed hparts hfirst]
        by_cases hle : (parseU64 first).getD 0 > lastByte size last
        · rw [if_pos hle]
        · rw [if_neg hle]
          exact lastByte_le last

/-! ### The ranges of the RFC -/

theorem rangeParts_header {first last : Str} (h : '-' ∉ first) :
    rangeParts ("bytes=".toList ++ (first ++ '-' :: last)) = some (first, last) := by
  unfold rangeParts
  rw [stripPrefix_append, Option.getD_some]
  exact splitOnce_of_not_mem h last

/-- A numeral that the file is larger than is read. -/
theorem getD_parseU64_numeral {n : Numeral} (h : n.value < size) (hsize : size < 2 ^ 64) (k : ℕ) :
    (parseU64 n.text).getD k = n.value := by
  rw [n.parseU64_text, if_pos (h.trans hsize), Option.getD_some]

/-- A numeral that is too large to be read is behind the end as well. -/
theorem lastByte_numeral (n : Numeral) (hpos : 1 ≤ size) (hsize : size < 2 ^ 64) :
    lastByte size n.text = min n.value (size - 1) := by
  rw [lastByte, if_neg n.text_ne_nil, n.parseU64_text]
  by_cases h : n.value < 2 ^ 64
  · rw [if_pos h, Option.getD_some]
  · rw [if_neg h, Option.getD_none]
    omega

theorem RangeSpec.parseRange_header {spec : RangeSpec} (hpos : 1 ≤ size) (hsize : size < 2 ^ 64)
    (hspec : spec.Satisfiable size) (h : ¬ EmptySuffix (some spec.header)) :
    parseRange (some spec.header) size = spec.range size := by
  cases spec with
  | closed first last =>
    obtain ⟨hle, hlt⟩ := hspec
    have hparts : rangeParts (RangeSpec.closed first last).header = some (first.text, last.text) :=
      rangeParts_header (first.not_mem (by decide))
    rw [parseRange_closed hparts first.text_ne_nil, getD_parseU64_numeral hlt hsize,
      lastByte_numeral last hpos hsize]
    exact if_neg (by omega)
  | openEnded first =>
    have hlt : first.value < size := hspec
    have hparts : rangeParts (RangeSpec.openEnded first).header = some (first.text, []) :=
      rangeParts_header (first.not_mem (by decide))
    rw [parseRange_closed hparts first.text_ne_nil, getD_parseU64_numeral hlt hsize]
    exact if_neg (by rw [lastByte, if_pos rfl]; omega)
  | suffix length =>
    have hparts : rangeParts (RangeSpec.suffix length).header = some ([], length.text) :=
      rangeParts_header List.not_mem_nil
    have hread : (parseU64 length.text).getD 0 = length.value := by
      rw [length.parseU64_text]
      by_cases hlarge : length.value < 2 ^ 64
      · rw [if_pos hlarge, Option.getD_some]
      · refine absurd (emptySuffix_some_iff.mpr ⟨length.text, hparts, ?_⟩) h
        rw [length.parseU64_text, if_neg hlarge, Option.getD_none]
    rw [parseRange_suffix hparts, hread]
    exact Prod.ext (by dsimp only [RangeSpec.range]; omega) rfl

/-- **The range of a request is right**, unless the header is an empty suffix. -/
theorem rangeIsRight_iff (hpos : 1 ≤ size) (hsize : size < 2 ^ 64) :
    RangeIsRight header size ↔ ¬ EmptySuffix header := by
  constructor
  · exact fun h => (parseRange_ordered_iff hpos).mp h.ordered
  · intro h
    have hordered := (parseRange_ordered_iff hpos).mpr h
    have hlength := contentLength_eq hordered parseRange_inside hsize hpos
    refine ⟨hordered, parseRange_inside, hlength, ?_, ?_⟩
    · rw [hlength]
      exact Nat.le_add_left 1 _
    · rintro spec hspec rfl
      exact RangeSpec.parseRange_header hpos hsize hspec h

end

theorem rangeIsRight_lastHundred : RangeIsRight (some "bytes=-100".toList) 1000 :=
  (rangeIsRight_iff (by decide) (by decide)).mpr (by
    rw [emptySuffix_some_iff]
    rintro ⟨length, hparts, hzero⟩
    cases hparts
    exact absurd hzero (by decide))

/-- The last 0 bytes start behind the end, and the length of the content wraps. -/
theorem not_rangeIsRight : ¬ RangeIsRight (some "bytes=-0".toList) 1000 :=
  fun h => absurd h.ordered (by decide)

end MediaFlow
