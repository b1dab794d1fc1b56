import MediaFlow.Lib.Text

/-!
# UTF-8, percent-encoding and form-urlencoded pairs

Text that travels in a URL. `encode` and `decode` are the percent-encoding of one component;
`formPairs` reads a query string as an HTML form does, with `+` for a space, and never fails:
bytes that are no UTF-8 become replacement characters.

The UTF-8 decoder is a machine over bytes whose state is the character it has begun. Both ways of
treating bytes that are no UTF-8 are read off its events.

* `decode_encode`, `formDecode_encode`: both readers undo the percent-encoding;
* `formPairs_join`: the pairs of joined segments are those of the segments.
-/

namespace UrlCoding

open ByteString Text

/-! ### UTF-8 -/

/-- The UTF-8 bytes of a character. -/
def encodeChar (c : Char) : Bytes :=
  let n := c.toNat
  if n < 0x80 then [UInt8.ofNat n]
  else if n < 0x800 then [UInt8.ofNat (0xC0 + n / 64), UInt8.ofNat (0x80 + n % 64)]
  else if n < 0x10000 then
    [UInt8.ofNat (0xE0 + n / 4096), UInt8.ofNat (0x80 + n / 64 % 64), UInt8.ofNat (0x80 + n % 64)]
  else
    [UInt8.ofNat (0xF0 + n / 262144), UInt8.ofNat (0x80 + n / 4096 % 64),
      UInt8.ofNat (0x80 + n / 64 % 64), UInt8.ofNat (0x80 + n % 64)]

/-- `str::as_bytes`. -/
def utf8 (s : Str) : Bytes := s.flatMap encodeChar

/-- A character that has begun: its bits so far, how many bytes are missing, and the bounds of the
next one. -/
structure Begun where
  code : ℕ
  missing : ℕ
  lo : ℕ
  hi : ℕ

/-- What a byte says where a character begins. -/
inductive FirstByte where
  | char (c : Char)
  | lead (p : Begun)
  | bad

def firstByte (b : ℕ) : FirstByte :=
  if b < 0x80 then .char (Char.ofNat b)
  else if 0xC2 ≤ b ∧ b ≤ 0xDF then .lead ⟨b - 0xC0, 1, 0x80, 0xBF⟩
  else if b = 0xE0 then .lead ⟨0, 2, 0xA0, 0xBF⟩
  else if b = 0xED then .lead ⟨0xD, 2, 0x80, 0x9F⟩
  else if 0xE1 ≤ b ∧ b ≤ 0xEF then .lead ⟨b - 0xE0, 2, 0x80, 0xBF⟩
  else if b = 0xF0 then .lead ⟨0, 3, 0x90, 0xBF⟩
  else if 0xF1 ≤ b ∧ b ≤ 0xF3 then .lead ⟨b - 0xF0, 3, 0x80, 0xBF⟩
  else if b = 0xF4 then .lead ⟨4, 3, 0x80, 0x8F⟩
  else .bad

/-- A byte where a character begins, `next` being the decoder on the bytes after it. -/
def atFirst (next : Option Begun → List (Option Char)) (b : ℕ) : List (Option Char) :=
  match firstByte b with
  | .char c => some c :: next none
  | .lead p => next (some p)
  | .bad => none :: next none

/-- The decoder: each character, and `none` for each maximal run of bytes that begins none. -/
def utf8Events : Option Begun → Bytes → List (Option Char)
  | none, [] => []
  | some _, [] => [none]
  | none, b :: bs => atFirst (fun st => utf8Events st bs) b.toNat
  | some p, b :: bs =>
    if p.lo ≤ b.toNat ∧ b.toNat ≤ p.hi then
      let code := p.code * 64 + b.toNat % 64
      if p.missing = 1 then some (Char.ofNat code) :: utf8Events none bs
      else utf8Events (some ⟨code, p.missing - 1, 0x80, 0xBF⟩) bs
    else none :: atFirst (fun st => utf8Events st bs) b.toNat

/-- `String::from_utf8`. -/
def fromUtf8 (bytes : Bytes) : Option Str := (utf8Events none bytes).mapM id

/-- `String::from_utf8_lossy`. -/
def fromUtf8Lossy (bytes : Bytes) : Str := (utf8Events none bytes).map (·.getD '\uFFFD')

theorem toNat_ofNat_of_lt {n : ℕ} (h : n < 256) : (UInt8.ofNat n).toNat = n :=
  UInt8.toNat_ofNat_of_lt h

/-- A byte in bounds, before the last one of a character. -/
theorem utf8Events_more {p : Begun} {n : ℕ} {bs : Bytes} (hn : n < 256) (hlo : p.lo ≤ n)
    (hhi : n ≤ p.hi) (hmissing : p.missing ≠ 1) :
    utf8Events (some p) (UInt8.ofNat n :: bs)
      = utf8Events (some ⟨p.code * 64 + n % 64, p.missing - 1, 0x80, 0xBF⟩) bs := by
  rw [utf8Events, toNat_ofNat_of_lt hn, if_pos ⟨hlo, hhi⟩]
  exact if_neg hmissing

/-- The last byte of a character. -/
theorem utf8Events_last {p : Begun} {n : ℕ} {bs : Bytes} (hn : n < 256) (hlo : p.lo ≤ n)
    (hhi : n ≤ p.hi) (hmissing : p.missing = 1) :
    utf8Events (some p) (UInt8.ofNat n :: bs)
      = some (Char.ofNat (p.code * 64 + n % 64)) :: utf8Events none bs := by
  rw [utf8Events, toNat_ofNat_of_lt hn, if_pos ⟨hlo, hhi⟩]
  exact if_pos hmissing

/-- The byte that begins a longer character. -/
theorem utf8Events_lead {p : Begun} {n : ℕ} {bs : Bytes} (hn : n < 256)
    (hlead : firstByte n = .lead p) :
    utf8Events none (UInt8.ofNat n :: bs) = utf8Events (some p) bs := by
  rw [utf8Events, toNat_ofNat_of_lt hn, atFirst, hlead]

theorem toNat_valid (c : Char) : c.toNat < 0xD800 ∨ 0xDFFF < c.toNat ∧ c.toNat < 0x110000 := c.valid

/-- The decoder reads the bytes of a character as that character. -/
theorem utf8Events_encodeChar (c : Char) (rest : Bytes) :
    utf8Events none (encodeChar c ++ rest) = some c :: utf8Events none rest := by
  have hvalid := toNat_valid c
  have hback : Char.ofNat c.toNat = c := Char.ofNat_toNat c
  generalize hn : c.toNat = n at hvalid hback
  unfold encodeChar
  simp only [hn]
  by_cases h1 : n < 0x80
  · -- one byte
    rw [if_pos h1, List.singleton_append, utf8Events, toNat_ofNat_of_lt (by omega), atFirst,
      firstByte, if_pos h1, hback]
  rw [if_neg h1]
  by_cases h2 : n < 0x800
  · rw [if_pos h2, List.cons_append, List.singleton_append]
    have hlead : firstByte (0xC0 + n / 64) = .lead ⟨n / 64, 1, 0x80, 0xBF⟩ := by
      rw [firstByte, if_neg (by omega), if_pos (by omega), Nat.add_sub_cancel_left]
    rw [utf8Events_lead (by omega) hlead, utf8Events_last (by omega) (by simp) (by simp; omega) rfl]
    have hcode : n / 64 * 64 + (0x80 + n % 64) % 64 = n := by omega
    rw [hcode, hback]
  rw [if_neg h2]
  by_cases h3 : n < 0x10000
  · rw [if_pos h3, List.cons_append, List.cons_append, List.singleton_append]
    -- the bounds of the second byte depend on the first
    obtain ⟨p, hlead, hcode, hmissing, hlo, hhi⟩ : ∃ p, firstByte (0xE0 + n / 4096) = .lead p ∧
        p.code = n / 4096 ∧ p.missing = 2 ∧ p.lo ≤ 0x80 + n / 64 % 64 ∧
        0x80 + n / 64 % 64 ≤ p.hi := by
      unfold firstByte
      rw [if_neg (by omega), if_neg (by omega)]
      by_cases hE0 : 0xE0 + n / 4096 = 0xE0
      · rw [if_pos hE0]
        exact ⟨_, rfl, by simp; omega, rfl, by simp; omega, by simp; omega⟩
      rw [if_neg hE0]
      by_cases hED : 0xE0 + n / 4096 = 0xED
      · rw [if_pos hED]
        exact ⟨_, rfl, by simp; omega, rfl, by simp, by simp; omega⟩
      rw [if_neg hED, if_pos (by omega)]
      exact ⟨_, rfl, by simp, rfl, by simp, by simp; omega⟩
    rw [utf8Events_lead (by omega) hlead, utf8Events_more (by omega) hlo hhi (by omega),
      utf8Events_last (by omega) (by simp) (by simp; omega) (by simp [hmissing])]
    have hall : (p.code * 64 + (0x80 + n / 64 % 64) % 64) * 64 + (0x80 + n % 64) % 64 = n := by
      omega
    rw [hall, hback]
  rw [if_neg h3, List.cons_append, List.cons_append, List.cons_append, List.singleton_append]
  obtain ⟨p, hlead, hcode, hmissing, hlo, hhi⟩ : ∃ p, firstByte (0xF0 + n / 262144) = .lead p ∧
      p.code = n / 262144 ∧ p.missing = 3 ∧ p.lo ≤ 0x80 + n / 4096 % 64 ∧
      0x80 + n / 4096 % 64 ≤ p.hi := by
    unfold firstByte
    rw [if_neg (by omega), if_neg (by omega), if_neg (by omega), if_neg (by omega),
      if_neg (by omega)]
    by_cases hF0 : 0xF0 + n / 262144 = 0xF0
    · rw [if_pos hF0]
      exact ⟨_, rfl, by simp; omega, rfl, by simp; omega, by simp; omega⟩
    rw [if_neg hF0]
    by_cases hF3 : 0xF1 ≤ 0xF0 + n / 262144 ∧ 0xF0 + n / 262144 ≤ 0xF3
    · rw [if_pos hF3]
      exact ⟨_, rfl, by simp, rfl, by simp, by simp; omega⟩
    rw [if_neg hF3, if_pos (by omega)]
    exact ⟨_, rfl, by simp; omega, rfl, by simp, by simp; omega⟩
  rw [utf8Events_lead (by omega) hlead, utf8Events_more (by omega) hlo hhi (by omega),
    utf8Events_more (by omega) (by simp) (by simp; omega) (by simp [hmissing]),
    utf8Events_last (by omega) (by simp) (by simp; omega) (by simp [hmissing])]
  have hall : ((p.code * 64 + (0x80 + n / 4096 % 64) % 64) * 64 + (0x80 + n / 64 % 64) % 64) * 64
      + (0x80 + n % 64) % 64 = n := by omega
  rw [hall, hback]

theorem utf8Events_utf8 (s : Str) : utf8Events none (utf8 s) = s.map some := by
  induction s with
  | nil => rfl
  | cons c s ih =>
    show utf8Events none (encodeChar c ++ utf8 s) = some c :: s.map some
    rw [utf8Events_encodeChar, ih]

/-- In text of one-byte characters, bytes are counted as characters are. -/
theorem length_utf8_of_ascii {s : Str} (h : ∀ c ∈ s, c.toNat < 128) :
    (utf8 s).length = s.length := by
  induction s with
  | nil => rfl
  | cons c s ih =>
    rw [List.forall_mem_cons] at h
    have hc : encodeChar c = [UInt8.ofNat c.toNat] := if_pos h.1
    change (encodeChar c ++ utf8 s).length = s.length + 1
    rw [hc, List.length_append, ih h.2, List.length_singleton, Nat.add_comm]

theorem fromUtf8_utf8 (s : Str) : fromUtf8 (utf8 s) = some s := by
  unfold fromUtf8
  rw [utf8Events_utf8]
  induction s with
  | nil => rfl
  | cons c s ih => simp [ih]

theorem fromUtf8Lossy_utf8 (s : Str) : fromUtf8Lossy (utf8 s) = s := by
  unfold fromUtf8Lossy
  rw [utf8Events_utf8, List.map_map]
  exact List.map_id' s

/-! ### Percent-encoding -/

/-- The upper case digit of a number below 16. -/
def upperHex (n : ℕ) : Char := Char.ofNat (if n < 10 then 48 + n else 55 + n)

/-- A byte as `%XX`. -/
def percentByte (b : UInt8) : Str := ['%', upperHex (b.toNat / 16), upperHex (b.toNat % 16)]

/-- The characters that percent-encoding leaves as they are. -/
def unreserved (c : Char) : Bool :=
  c.isAlphanum || c = '-' || c = '_' || c = '.' || c = '~'

def encodeOne (c : Char) : Str :=
  if unreserved c then [c] else (encodeChar c).flatMap percentByte

/-- Percent-encoding of one component. -/
def encode (s : Str) : Str := s.flatMap encodeOne

/-- The byte that is escaped where `c` is followed by `s`. -/
def escaped (c : Char) (s : Str) : Option UInt8 :=
  match s with
  | a :: b :: _ => if c = '%' then do return UInt8.ofNat ((← hexDigit a) * 16 + (← hexDigit b)) else none
  | _ => none

/-- The bytes of a text whose escapes are undone, after `skip` characters that belong to one. What
is no escape stays as it is. -/
def percentDecodeFrom : ℕ → Str → Bytes
  | _, [] => []
  | skip + 1, _ :: s => percentDecodeFrom skip s
  | 0, c :: s =>
    match escaped c s with
    | some b => b :: percentDecodeFrom 2 s
    | none => encodeChar c ++ percentDecodeFrom 0 s

def percentDecode (s : Str) : Bytes := percentDecodeFrom 0 s

/-- Percent-decoding of a component; there is none when the bytes are no UTF-8. -/
def decode (s : Str) : Option Str := fromUtf8 (percentDecode s)

theorem hexDigit_upperHex {n : ℕ} (h : n < 16) : hexDigit (upperHex n) = some n := by
  have hall : ∀ n < 16, hexDigit (upperHex n) = some n := by decide
  exact hall n h

theorem escaped_percentByte (b : UInt8) (rest : Str) :
    escaped '%' (upperHex (b.toNat / 16) :: upperHex (b.toNat % 16) :: rest) = some b := by
  have hb : b.toNat < 256 := b.toNat_lt
  unfold escaped
  simp only [if_true, hexDigit_upperHex (show b.toNat / 16 < 16 by omega),
    hexDigit_upperHex (show b.toNat % 16 < 16 by omega)]
  show some (UInt8.ofNat (b.toNat / 16 * 16 + b.toNat % 16)) = some b
  rw [Nat.div_add_mod', UInt8.ofNat_toNat]

theorem percentDecodeFrom_percentByte (b : UInt8) (rest : Str) :
    percentDecodeFrom 0 (percentByte b ++ rest) = b :: percentDecodeFrom 0 rest := by
  show percentDecodeFrom 0 ('%' :: upperHex (b.toNat / 16) :: upperHex (b.toNat % 16) :: rest) = _
  rw [percentDecodeFrom, escaped_percentByte]
  rfl

theorem percentDecodeFrom_percentBytes (bs : Bytes) (rest : Str) :
    percentDecodeFrom 0 (bs.flatMap percentByte ++ rest) = bs ++ percentDecodeFrom 0 rest := by
  induction bs with
  | nil => rfl
  | cons b bs ih =>
    rw [List.flatMap_cons, List.append_assoc, percentDecodeFrom_percentByte, ih, List.cons_append]

theorem escaped_of_ne {c : Char} (h : c ≠ '%') (s : Str) : escaped c s = none := by
  unfold escaped
  split
  · exact if_neg h
  · rfl

/-- A character that begins no escape stands for itself. -/
theorem percentDecodeFrom_cons_of_ne {c : Char} (h : c ≠ '%') (s : Str) :
    percentDecodeFrom 0 (c :: s) = encodeChar c ++ percentDecodeFrom 0 s := by
  rw [percentDecodeFrom, escaped_of_ne h]

theorem ne_percent_of_unreserved {c : Char} (h : unreserved c = true) : c ≠ '%' := by
  rintro rfl
  revert h
  decide

theorem percentDecodeFrom_encode (s rest : Str) :
    percentDecodeFrom 0 (encode s ++ rest) = utf8 s ++ percentDecodeFrom 0 rest := by
  induction s with
  | nil => rfl
  | cons c s ih =>
    show percentDecodeFrom 0 ((encodeOne c ++ encode s) ++ rest) = encodeChar c ++ utf8 s ++ _
    rw [List.append_assoc, List.append_assoc, ← ih, encodeOne]
    by_cases hc : unreserved c = true
    · rw [if_pos hc]
      exact percentDecodeFrom_cons_of_ne (ne_percent_of_unreserved hc) _
    · rw [if_neg hc, percentDecodeFrom_percentBytes]

theorem percentDecode_encode (s : Str) : percentDecode (encode s) = utf8 s := by
  have h := percentDecodeFrom_encode s []
  rw [List.append_nil] at h
  rw [percentDecode, h]
  exact List.append_nil _

/-- **Decoding undoes percent-encoding.** -/
theorem decode_encode (s : Str) : decode (encode s) = some s := by
  rw [decode, percentDecode_encode, fromUtf8_utf8]

/-! ### The characters of an encoding -/

/-- The characters that an encoding is made of. -/
def encodingChar (c : Char) : Bool := unreserved c || c = '%'

theorem encodingChar_upperHex {n : ℕ} (h : n < 16) : encodingChar (upperHex n) = true := by
  have hall : ∀ n < 16, encodingChar (upperHex n) = true := by decide
  exact hall n h

theorem encodingChar_of_mem_encode {s : Str} {c : Char} (h : c ∈ encode s) :
    encodingChar c = true := by
  obtain ⟨d, -, hd⟩ := List.mem_flatMap.mp h
  unfold encodeOne at hd
  split at hd
  · next hun =>
    rw [List.mem_singleton.mp hd, encodingChar, hun]
    rfl
  · obtain ⟨b, -, hb⟩ := List.mem_flatMap.mp hd
    have hlt : b.toNat < 256 := b.toNat_lt
    rcases List.mem_cons.mp hb with rfl | hb
    · rfl
    rcases List.mem_cons.mp hb with rfl | hb
    · exact encodingChar_upperHex (by omega)
    · rw [List.mem_singleton.mp hb]
      exact encodingChar_upperHex (by omega)

theorem not_mem_encode {c : Char} (h : encodingChar c = false) (s : Str) : c ∉ encode s := by
  intro hc
  rw [encodingChar_of_mem_encode hc] at h
  cases h

/-! ### Forms -/

def plusToSpace (c : Char) : Char := if c = '+' then ' ' else c

/-- A name or a value of a form-urlencoded text. -/
def formDecode (s : Str) : Str := fromUtf8Lossy (percentDecode (s.map plusToSpace))

/-- One segment of a form-urlencoded text. -/
def formPair (segment : Str) : Str × Str :=
  match splitOnce '=' segment with
  | some (k, v) => (formDecode k, formDecode v)
  | none => (formDecode segment, [])

/-- The pairs of a form-urlencoded text, in order; empty segments have none. -/
def formPairs (s : Str) : List (Str × Str) :=
  ((s.splitOn '&').filter (· ≠ [])).map formPair

/-- The value that a reader keeps for a name when the last pair of that name wins. -/
def lastValue (key : Str) (pairs : List (Str × Str)) : Option Str := pairs.reverse.lookup key

/-- **A form reads a percent-encoded component back.** -/
theorem formDecode_encode (s : Str) : formDecode (encode s) = s := by
  have hplus : (encode s).map plusToSpace = encode s := by
    refine (List.map_congr_left fun c hc => ?_).trans (List.map_id _)
    refine if_neg ?_
    rintro rfl
    exact not_mem_encode (by decide) s hc
  rw [formDecode, hplus, percentDecode_encode, fromUtf8Lossy_utf8]

/-! ### Segments -/

/-- The parts of a text that is split do without the separator, and are no longer than the text. -/
theorem spec_of_mem_splitOn {sep : Char} {s part : Str} (h : part ∈ s.splitOn sep) :
    sep ∉ part ∧ part.length ≤ s.length := by
  induction s generalizing part with
  | nil =>
    rw [List.splitOn_nil, List.mem_singleton] at h
    rw [h]
    exact ⟨List.not_mem_nil, le_rfl⟩
  | cons c s ih =>
    rw [List.splitOn_cons_eq_if_modifyHead] at h
    by_cases hc : (c == sep) = true
    · rw [if_pos hc] at h
      rcases List.mem_cons.mp h with rfl | h
      · exact ⟨List.not_mem_nil, Nat.zero_le _⟩
      · exact ⟨(ih h).1, Nat.le_succ_of_le (ih h).2⟩
    · -- the character goes to the first part
      rw [if_neg hc] at h
      obtain ⟨first, others, hsplit⟩ := List.exists_cons_of_ne_nil (List.splitOn_ne_nil sep s)
      rw [hsplit] at h ih
      rcases List.mem_cons.mp h with rfl | h
      · obtain ⟨hsep, hlength⟩ := ih List.mem_cons_self
        refine ⟨List.not_mem_cons_of_ne_of_not_mem ?_ hsep, Nat.succ_le_succ hlength⟩
        rintro rfl
        exact hc (beq_self_eq_true _)
      · obtain ⟨hsep, hlength⟩ := ih (List.mem_cons_of_mem _ h)
        exact ⟨hsep, Nat.le_succ_of_le hlength⟩

theorem not_mem_of_mem_splitOn {sep : Char} {s part : Str} (h : part ∈ s.splitOn sep) :
    sep ∉ part := (spec_of_mem_splitOn h).1

theorem length_of_mem_splitOn {sep : Char} {s part : Str} (h : part ∈ s.splitOn sep) :
    part.length ≤ s.length := (spec_of_mem_splitOn h).2

@[simp]
theorem formPairs_amp (a b : Str) : formPairs (a ++ '&' :: b) = formPairs a ++ formPairs b := by
  unfold formPairs
  rw [List.splitOn_append_cons_self, List.filter_append, List.map_append]

/-- **The pairs of joined segments are those of the segments.** -/
theorem formPairs_join (segments : List Str) :
    formPairs (['&'].intercalate segments) = segments.flatMap formPairs := by
  induction segments with
  | nil => rfl
  | cons a rest ih =>
    cases rest with
    | nil =>
      rw [List.flatMap_cons, List.flatMap_nil, List.append_nil]
      exact congrArg formPairs (by simp [List.intercalate])
    | cons b rest =>
      calc formPairs (['&'].intercalate (a :: b :: rest))
          = formPairs (a ++ '&' :: ['&'].intercalate (b :: rest)) := by
            rw [List.intercalate_cons_cons]
            simp
        _ = formPairs a ++ (b :: rest).flatMap formPairs := by rw [formPairs_amp, ih]
        _ = (a :: b :: rest).flatMap formPairs := List.flatMap_cons.symm

theorem formPairs_segment {segment : Str} (hamp : '&' ∉ segment) (hne : segment ≠ []) :
    formPairs segment = [formPair segment] := by
  unfold formPairs
  rw [List.splitOn_eq_singleton hamp, List.filter_singleton, decide_eq_true hne]
  rfl

/-- A name and a percent-encoded value. -/
theorem formPairs_encoded {name : Str} (hamp : '&' ∉ name) (heq : '=' ∉ name) (v : Str) :
    formPairs (name ++ '=' :: encode v) = [(formDecode name, v)] := by
  have hamp' : '&' ∉ name ++ '=' :: encode v := by
    intro h
    rcases List.mem_append.mp h with h | h
    · exact hamp h
    · rcases List.mem_cons.mp h with h | h
      · cases h
      · exact not_mem_encode (by decide) v h
  rw [formPairs_segment hamp' (by simp), formPair, splitOnce_of_not_mem heq]
  show [(formDecode name, formDecode (encode v))] = _
  rw [formDecode_encode]

/-! ### The last value of a name -/

theorem lastValue_append (key : Str) (a b : List (Str × Str)) :
    lastValue key (a ++ b) = (lastValue key b).or (lastValue key a) := by
  unfold lastValue
  rw [List.reverse_append, List.lookup_append]

theorem lastValue_eq_none_iff {key : Str} {pairs : List (Str × Str)} :
    lastValue key pairs = none ↔ ∀ p ∈ pairs, p.1 ≠ key := by
  unfold lastValue
  rw [List.lookup_eq_none_iff]
  constructor
  · intro h p hp heq
    have hne := h p (List.mem_reverse.mpr hp)
    rw [heq] at hne
    simp at hne
  · intro h p hp
    exact bne_iff_ne.mpr (Ne.symm (h p (List.mem_reverse.mp hp)))

/-- A value that is read is that of a pair. -/
theorem mem_of_lastValue {key v : Str} {pairs : List (Str × Str)}
    (h : lastValue key pairs = some v) : (key, v) ∈ pairs := by
  unfold lastValue at h
  obtain ⟨l₁, l₂, heq, -⟩ := List.lookup_eq_some_iff.mp h
  rw [← List.mem_reverse, heq]
  simp

/-- The value of a name that no other pair has. -/
theorem lastValue_of_mem {pairs : List (Str × Str)} (hnodup : (pairs.map Prod.fst).Nodup)
    {key v : Str} (h : (key, v) ∈ pairs) : lastValue key pairs = some v := by
  cases hlast : lastValue key pairs with
  | none => exact absurd rfl (lastValue_eq_none_iff.mp hlast _ h)
  | some w =>
    have hmem := mem_of_lastValue hlast
    -- two pairs of one name are one pair
    have hinj := List.inj_on_of_nodup_map hnodup hmem h rfl
    rw [(Prod.mk.inj hinj).2]

/-- Pairs with the same members read alike. -/
theorem lastValue_congr {a b : List (Str × Str)} (ha : (a.map Prod.fst).Nodup)
    (hb : (b.map Prod.fst).Nodup) (h : ∀ p, p ∈ a ↔ p ∈ b) (key : Str) :
    lastValue key a = lastValue key b := by
  ext v
  constructor
  · intro hv
    exact lastValue_of_mem hb ((h _).mp (mem_of_lastValue hv))
  · intro hv
    exact lastValue_of_mem ha ((h _).mpr (mem_of_lastValue hv))

/-- The first value of a name that one pair has. -/
theorem lookup_eq_some_iff_mem {β : Type*} {pairs : List (Str × β)}
    (hnodup : (pairs.map Prod.fst).Nodup) {key : Str} {v : β} :
    pairs.lookup key = some v ↔ (key, v) ∈ pairs := by
  induction pairs with
  | nil => simp
  | cons p pairs ih =>
    obtain ⟨k, w⟩ := p
    obtain ⟨hk, hrest⟩ := List.nodup_cons.mp hnodup
    by_cases hkey : key = k
    · subst hkey
      rw [List.lookup_cons_self, List.mem_cons]
      refine ⟨fun h => .inl (by rw [Option.some.inj h]), fun h => ?_⟩
      rcases h with h | h
      · rw [(Prod.mk.inj h).2]
      · exact absurd (List.mem_map_of_mem h) hk
    · rw [List.lookup_cons, beq_false_of_ne hkey, List.mem_cons, ih hrest]
      refine ⟨.inr, fun h => h.resolve_left fun heq => hkey (Prod.mk.inj heq).1⟩

/-! ### Decoding does not lengthen -/

/-- The bounds of a character that has begun are those of continuation bytes. -/
def Begun.Continues (p : Begun) : Prop := 0x80 ≤ p.lo ∧ p.hi ≤ 0xBF

theorem firstByte_continues {b : ℕ} {p : Begun} (h : firstByte b = .lead p) : p.Continues := by
  have hbounds : ∀ q : Begun, FirstByte.lead q = .lead p → q.Continues → p.Continues := by
    intro q hq hc
    cases hq
    exact hc
  unfold firstByte at h
  split_ifs at h
  all_goals exact hbounds _ h ⟨by simp, by simp⟩

/-- The first byte of a character is no continuation byte. -/
theorem encodeChar_first (c : Char) :
    ∃ n bs, encodeChar c = UInt8.ofNat n :: bs ∧ n < 256 ∧ (n < 0x80 ∨ 0xBF < n) := by
  have hvalid := toNat_valid c
  unfold encodeChar
  generalize c.toNat = n at hvalid
  simp only
  by_cases h1 : n < 0x80
  · exact ⟨n, [], if_pos h1, by omega, .inl h1⟩
  rw [if_neg h1]
  by_cases h2 : n < 0x800
  · exact ⟨_, _, if_pos h2, by omega, .inr (by omega)⟩
  rw [if_neg h2]
  by_cases h3 : n < 0x10000
  · exact ⟨_, _, if_pos h3, by omega, .inr (by omega)⟩
  · exact ⟨_, _, if_neg h3, by omega, .inr (by omega)⟩

/-- How many events are owed for what has begun. -/
def owed : Option Begun → ℕ
  | none => 0
  | some _ => 1

def Continues? : Option Begun → Prop
  | none => True
  | some p => p.Continues

/-- A literal character ends what has begun. -/
theorem length_utf8Events_encodeChar {st : Option Begun} (hst : Continues? st) (c : Char)
    (rest : Bytes) :
    (utf8Events st (encodeChar c ++ rest)).length
      = (utf8Events none rest).length + 1 + owed st := by
  cases st with
  | none =>
    rw [utf8Events_encodeChar]
    rfl
  | some p =>
    have hnone := utf8Events_encodeChar c rest
    obtain ⟨n, bs, hchar, hn, hfirst⟩ := encodeChar_first c
    obtain ⟨hlo, hhi⟩ := hst
    rw [hchar, List.cons_append, utf8Events] at hnone
    rw [hchar, List.cons_append, utf8Events, toNat_ofNat_of_lt hn, if_neg (by omega)]
    rw [toNat_ofNat_of_lt hn] at hnone
    rw [hnone]
    rfl

/-- An escaped byte makes at most one event, apart from the one that is owed. -/
theorem length_utf8Events_cons (st : Option Begun) (b : UInt8) (bs : Bytes) {n : ℕ}
    (h : ∀ st, Continues? st → (utf8Events st bs).length ≤ n + owed st) :
    (utf8Events st (b :: bs)).length ≤ n + 1 + owed st := by
  have hfirst : (atFirst (fun st => utf8Events st bs) b.toNat).length ≤ n + 1 := by
    unfold atFirst
    cases hb : firstByte b.toNat with
    | char c => exact Nat.succ_le_succ (h none trivial)
    | lead p => exact h (some p) (firstByte_continues hb)
    | bad => exact Nat.succ_le_succ (h none trivial)
  cases st with
  | none => exact hfirst
  | some p =>
    rw [utf8Events]
    split
    · simp only
      split
      · exact Nat.le_succ_of_le (Nat.succ_le_succ (h none trivial))
      · exact Nat.le_succ_of_le (h (some _) ⟨le_refl _, le_refl _⟩)
    · exact Nat.succ_le_succ hfirst

/-- Decoding makes at most one event of a character, and fewer when there is an escape. -/
theorem length_utf8Events_percentDecode (s : Str) (st : Option Begun) (hst : Continues? st) :
    (utf8Events st (percentDecodeFrom 0 s)).length ≤ s.length + owed st ∧
      ((utf8Events st (percentDecodeFrom 0 s)).length = s.length + owed st →
        percentDecodeFrom 0 s = utf8 s) := by
  induction hlen : s.length using Nat.strong_induction_on generalizing s st with
  | _ len ih =>
    subst hlen
    cases s with
    | nil =>
      refine ⟨?_, fun _ => rfl⟩
      cases st <;> exact le_refl _
    | cons c s =>
      rw [percentDecodeFrom]
      cases hesc : escaped c s with
      | none =>
        obtain ⟨hle, heq⟩ := ih s.length (Nat.lt_succ_self _) s none trivial rfl
        simp only [length_utf8Events_encodeChar hst, List.length_cons]
        refine ⟨by simp only [owed] at hle; omega, fun hall => ?_⟩
        show encodeChar c ++ percentDecodeFrom 0 s = encodeChar c ++ utf8 s
        rw [heq (by simp only [owed]; omega)]
      | some b =>
        -- three characters are read as one byte
        match s, hesc with
        | x :: y :: rest, _ =>
          have hrest : ∀ st, Continues? st →
              (utf8Events st (percentDecodeFrom 0 rest)).length ≤ rest.length + owed st :=
            fun st hst => (ih rest.length (by simp only [List.length_cons]; omega) rest st hst rfl).1
          have hbound := length_utf8Events_cons st b (percentDecodeFrom 0 rest) hrest
          have hskip : percentDecodeFrom 2 (x :: y :: rest) = percentDecodeFrom 0 rest := rfl
          simp only [hskip, List.length_cons]
          exact ⟨by omega, fun hall => by omega⟩

/-- **A form does not lengthen a name**, and leaves its length only when it has no escapes. -/
theorem length_formDecode (s : Str) :
    (formDecode s).length ≤ s.length ∧
      ((formDecode s).length = s.length → formDecode s = s.map plusToSpace) := by
  obtain ⟨hle, heq⟩ := length_utf8Events_percentDecode (s.map plusToSpace) none trivial
  have hlen : (formDecode s).length
      = (utf8Events none (percentDecodeFrom 0 (s.map plusToSpace))).length := by
    unfold formDecode fromUtf8Lossy
    exact List.length_map _
  rw [List.length_map] at hle heq
  rw [hlen]
  refine ⟨hle, fun h => ?_⟩
  unfold formDecode percentDecode
  rw [heq h, fromUtf8Lossy_utf8]

theorem length_formPair (segment : Str) : (formPair segment).1.length ≤ segment.length := by
  unfold formPair
  cases hsplit : splitOnce '=' segment with
  | none => exact (length_formDecode segment).1
  | some kv =>
    obtain ⟨k, v⟩ := kv
    obtain ⟨rfl, -⟩ := splitOnce_eq_some_iff.mp hsplit
    show (formDecode k).length ≤ (k ++ '=' :: v).length
    have hk := (length_formDecode k).1
    rw [List.length_append]
    omega

theorem length_of_mem_formPairs {s : Str} {p : Str × Str} (h : p ∈ formPairs s) :
    p.1.length ≤ s.length := by
  obtain ⟨segment, hmem, rfl⟩ := List.mem_map.mp h
  exact (length_formPair segment).trans (length_of_mem_splitOn (List.mem_of_mem_filter hmem))

/-- The names that a segment is read under are no longer than the name that is written, and as long
only when nothing in it separates. -/
theorem length_of_mem_segment {name v : Str} {p : Str × Str}
    (h : p ∈ formPairs (name ++ '=' :: encode v)) :
    p.1.length ≤ name.length ∧
      (p.1.length = name.length → '&' ∉ name ∧ '=' ∉ name ∧ p.1 = formDecode name) := by
  induction hlen : name.length using Nat.strong_induction_on generalizing name with
  | _ len ih =>
    subst hlen
    by_cases hamp : '&' ∈ name
    · -- the name falls apart at an ampersand
      obtain ⟨a, b, rfl⟩ := List.append_of_mem hamp
      have hlen : (a ++ '&' :: b).length = a.length + (b.length + 1) := by simp
      rw [List.append_assoc, List.cons_append, formPairs_amp] at h
      rcases List.mem_append.mp h with h | h
      · have hle := length_of_mem_formPairs h
        exact ⟨by omega, fun heq => by omega⟩
      · have hle := (ih b.length (by omega) h rfl).1
        exact ⟨by omega, fun heq => by omega⟩
    by_cases heq : '=' ∈ name
    · -- what follows the first equals sign belongs to the value
      obtain ⟨⟨k, r⟩, hsplit⟩ : ∃ kr, splitOnce '=' name = some kr := by
        cases hnone : splitOnce '=' name with
        | some kr => exact ⟨kr, rfl⟩
        | none => exact absurd heq (not_mem_of_splitOnce_eq_none hnone)
      obtain ⟨rfl, hk⟩ := splitOnce_eq_some_iff.mp hsplit
      have hlen : (k ++ '=' :: r).length = k.length + (r.length + 1) := by simp
      have hamp' : '&' ∉ (k ++ '=' :: r) ++ '=' :: encode v := by
        intro hmem
        rcases List.mem_append.mp hmem with hmem | hmem
        · exact hamp hmem
        · rcases List.mem_cons.mp hmem with hmem | hmem
          · cases hmem
          · exact not_mem_encode (by decide) v hmem
      rw [formPairs_segment hamp' (by simp), List.mem_singleton] at h
      rw [h, List.append_assoc, List.cons_append, formPair, splitOnce_of_not_mem hk]
      show (formDecode k).length ≤ _ ∧ ((formDecode k).length = _ → _)
      have hle := (length_formDecode k).1
      exact ⟨by omega, fun heq => by omega⟩
    rw [formPairs_encoded hamp heq, List.mem_singleton] at h
    rw [h]
    exact ⟨(length_formDecode name).1, fun _ => ⟨hamp, heq, rfl⟩⟩

end UrlCoding
