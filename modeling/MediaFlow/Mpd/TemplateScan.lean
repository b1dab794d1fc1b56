import MediaFlow.Lib.Holes
import MediaFlow.Mpd.Template

/-!
# Templates read once

A template is read from left to right, each identifier in it being a hole (`pieces`), and all holes
are filled at once (`expandOnce`): no text that is put in is read again. `expand_template` fills the
holes of one identifier after the other, with global replacements over what the ones before have
left, and of the padded numbers only the first.

* `fill_pieces`: the pieces are the template.
* `expandPaddedNumber_fill`: the pass over `$Number%..$`.
* `expandTemplate_eq`: what the passes come to, as long as each finds its identifier where the template
  has it, and nowhere else (`PassesClear`).
* `expandTemplate_eq_expandOnce_iff`: then the template has to have one padded number at most.
-/

open Text

namespace MediaFlow

/-! ### Identifiers -/

/-- The width of a padded number, as it is written. -/
structure PadWidth where
  digits : Str
  digits_ne : digits ≠ []
  isDigit : ∀ c ∈ digits, c.isDigit = true
deriving DecidableEq

/-- The number that is written. -/
def PadWidth.value (w : PadWidth) : ℕ := w.digits.foldl (fun n c => n * 10 + (c.toNat - 48)) 0

/-- How a padded number is written. -/
def PadWidth.text (w : PadWidth) : Str := "$Number%0".toList ++ (w.digits ++ "d$".toList)

/-- A number, padded to the width. -/
def PadWidth.pad (w : PadWidth) (number : ℕ) : Str :=
  List.replicate (w.value - (decimal number).length) '0' ++ decimal number

inductive Identifier
  | representationID
  | bandwidth
  /-- `$Number%0wd$` -/
  | paddedNumber (w : PadWidth)
  | number
  | time
deriving DecidableEq

namespace Identifier

/-- How an identifier is written. -/
def text : Identifier → Str
  | representationID => "$RepresentationID$".toList
  | bandwidth => "$Bandwidth$".toList
  | paddedNumber w => w.text
  | number => "$Number$".toList
  | time => "$Time$".toList

/-- What an identifier stands for. Without a time, `$Time$` stands for itself. -/
def value (representationId : Str) (bandwidth number : ℕ) (time : Option ℕ) : Identifier → Str
  | .representationID => representationId
  | .bandwidth => decimal bandwidth
  | .paddedNumber w => w.pad number
  | .number => decimal number
  | .time => (time.map decimal).getD "$Time$".toList

end Identifier

theorem isDigit_of_mem_takeWhile (s : Str) : ∀ c ∈ s.takeWhile Char.isDigit, c.isDigit = true :=
  fun _ => List.mem_takeWhile_imp

/-- A padded number at the beginning of a text. -/
def paddedNumberAt (s : Str) : Option Identifier :=
  (stripPrefix "$Number%0".toList s).bind fun rest =>
    if h : rest.takeWhile Char.isDigit ≠ [] then
      if "d$".toList <+: rest.dropWhile Char.isDigit then
        some (.paddedNumber ⟨rest.takeWhile Char.isDigit, h, isDigit_of_mem_takeWhile rest⟩)
      else none
    else none

/-- The identifier at the beginning of a text. -/
def identifierAt (s : Str) : Option Identifier :=
  if Identifier.representationID.text <+: s then some .representationID
  else if Identifier.bandwidth.text <+: s then some .bandwidth
  else if Identifier.number.text <+: s then some .number
  else if Identifier.time.text <+: s then some .time
  else paddedNumberAt s

/-! ### The scan -/

/-- The pieces of a text, after `skip` characters that belong to an identifier. -/
def piecesFrom : ℕ → Str → List (TextPiece Identifier)
  | _, [] => []
  | skip + 1, _ :: s => piecesFrom skip s
  | 0, c :: s =>
    match identifierAt (c :: s) with
    | some id => .hole id :: piecesFrom (id.text.length - 1) s
    | none => .char c :: piecesFrom 0 s

/-- The pieces of a template. -/
def pieces (template : Str) : List (TextPiece Identifier) := piecesFrom 0 template

/-- The template with all identifiers replaced at once. -/
def expandOnce (template representationId : Str) (bandwidth number : ℕ) (time : Option ℕ) : Str :=
  fill (Identifier.value representationId bandwidth number time) (pieces template)

theorem Identifier.text_ne_nil (id : Identifier) : id.text ≠ [] := by
  cases id <;> exact List.cons_ne_nil _ _

/-- What is found as a padded number is written so. -/
theorem paddedNumberAt_eq_some {s : Str} {id : Identifier} (h : paddedNumberAt s = some id) :
    ∃ w, id = .paddedNumber w ∧ w.text <+: s := by
  obtain ⟨rest, hrest, h⟩ := Option.bind_eq_some_iff.1 h
  by_cases hne : rest.takeWhile Char.isDigit ≠ []
  · rw [dif_pos hne] at h
    by_cases hd : "d$".toList <+: rest.dropWhile Char.isDigit
    · rw [if_pos hd] at h
      refine ⟨_, (Option.some.inj h).symm, ?_⟩
      obtain ⟨tail, htail⟩ := hd
      refine ⟨tail, ?_⟩
      have hdigits : rest.takeWhile Char.isDigit ++ "d$".toList ++ tail = rest :=
        (List.append_assoc _ _ _).trans (htail ▸ List.takeWhile_append_dropWhile)
      calc _ = "$Number%0".toList ++ (rest.takeWhile Char.isDigit ++ "d$".toList ++ tail) :=
            List.append_assoc _ _ _
        _ = s := by rw [hdigits, stripPrefix_eq_some_iff.1 hrest]
    · rw [if_neg hd] at h
      cases h
  · rw [dif_neg hne] at h
    cases h

theorem text_prefix_of_identifierAt {s : Str} {id : Identifier} (h : identifierAt s = some id) :
    id.text <+: s := by
  unfold identifierAt at h
  split at h
  · rename_i hs
    exact Option.some.inj h ▸ hs
  split at h
  · rename_i hs
    exact Option.some.inj h ▸ hs
  split at h
  · rename_i hs
    exact Option.some.inj h ▸ hs
  split at h
  · rename_i hs
    exact Option.some.inj h ▸ hs
  · obtain ⟨w, rfl, hw⟩ := paddedNumberAt_eq_some h
    exact hw

theorem piecesFrom_eq_drop (skip : ℕ) (s : Str) : piecesFrom skip s = piecesFrom 0 (s.drop skip) := by
  induction skip generalizing s with
  | zero => rfl
  | succ skip ih =>
    cases s with
    | nil => rfl
    | cons c s => exact ih s

/-- **The pieces are the template.** -/
theorem fill_pieces (template : Str) : fill Identifier.text (pieces template) = template := by
  unfold pieces
  induction h : template.length using Nat.strong_induction_on generalizing template with
  | _ n ih =>
    cases template with
    | nil => rfl
    | cons c s =>
      rw [piecesFrom]
      split
      · rename_i id hid
        obtain ⟨rest, hrest⟩ := text_prefix_of_identifierAt hid
        obtain ⟨d, name, hname⟩ := List.exists_cons_of_ne_nil id.text_ne_nil
        have hs : s = name ++ rest := by
          rw [hname] at hrest
          exact (List.cons.inj hrest).2.symm
        have hdrop : s.drop (id.text.length - 1) = rest := by
          rw [hname, hs]
          exact List.drop_left
        have hlength : rest.length < n := by
          rw [← h, hs, List.length_cons, List.length_append]
          omega
        change id.text ++ fill Identifier.text (piecesFrom (id.text.length - 1) s) = _
        rw [piecesFrom_eq_drop, hdrop, ih _ hlength rest rfl, hrest]
      · change c :: fill Identifier.text (piecesFrom 0 s) = _
        rw [ih s.length (by rw [← h]; exact Nat.lt_succ_self _) s rfl]

/-! ### The passes -/

/-- A padded number as a hole. -/
def isPaddedNumber : TextPiece Identifier → Bool
  | .hole (.paddedNumber _) => true
  | _ => false

/-- The pieces after the first padded number has been replaced. -/
def firstPaddedFilled (number : ℕ) : List (TextPiece Identifier) → List (TextPiece Identifier)
  | [] => []
  | .hole (.paddedNumber w) :: ps => (w.pad number).map .char ++ ps
  | p :: ps => p :: firstPaddedFilled number ps

/-- The first `$Number%` of the text that the pieces are filled to, if it has a `$` after it, begins the
first padded number, and this number's width is one that can be formatted. -/
def PaddedFoundFirst (v : Identifier → Str) (ps : List (TextPiece Identifier)) : Prop :=
  (ps.countP isPaddedNumber = 0 ∧ ∀ start, find "$Number%".toList (fill v ps) = some start →
      '$' ∉ (fill v ps).drop (start + "$Number%".toList.length)) ∨
    ∃ pre w post, ps = pre ++ .hole (.paddedNumber w) :: post ∧ pre.countP isPaddedNumber = 0 ∧
      find "$Number%".toList (fill v ps) = some (fill v pre).length ∧ w.value < 2 ^ 16

section Passes

variable (rep : Str) (bw n : ℕ) (t : Option ℕ)

/-- What the holes are filled with after the pass over `$RepresentationID$`. -/
def representationFilled : Identifier → Str := Function.update Identifier.text .representationID rep

/-- After the pass over `$Bandwidth$`. -/
def bandwidthFilled : Identifier → Str :=
  Function.update (representationFilled rep) .bandwidth (decimal bw)

/-- After the pass over `$Number$`. -/
def numberFilled : Identifier → Str :=
  Function.update (bandwidthFilled rep bw) .number (decimal n)

/-- After the pass over `$Time$`. -/
def timeFilled : Identifier → Str :=
  Function.update (numberFilled rep bw n) .time (Identifier.value rep bw n t .time)

/-- Each pass finds its identifier where the template has it, and nowhere else. -/
structure PassesClear (template : Str) : Prop where
  representationID : FoundOnlyAt Identifier.representationID.text .representationID Identifier.text
    (pieces template)
  bandwidth : FoundOnlyAt Identifier.bandwidth.text .bandwidth (representationFilled rep)
    (pieces template)
  padded : PaddedFoundFirst (bandwidthFilled rep bw) (pieces template)
  number : FoundOnlyAt Identifier.number.text .number (bandwidthFilled rep bw)
    (firstPaddedFilled n (pieces template))
  time : t.isSome = true → FoundOnlyAt Identifier.time.text .time (numberFilled rep bw n)
    (firstPaddedFilled n (pieces template))

end Passes

/-! ### The pass over `$Number%..$` -/

/-- What stands between `$Number%` and the `$` after it. -/
def PadWidth.format (w : PadWidth) : Str := '0' :: w.digits ++ ['d']

theorem PadWidth.text_eq (w : PadWidth) : w.text = "$Number%".toList ++ (w.format ++ ['$']) :=
  congrArg ("$Number%0".toList ++ ·) (List.append_assoc w.digits ['d'] ['$']).symm

theorem PadWidth.dollar_not_mem_format (w : PadWidth) : '$' ∉ w.format := by
  intro h
  rw [PadWidth.format, List.mem_append, List.mem_cons, List.mem_singleton] at h
  obtain (h | h) | h := h
  · exact absurd h (by decide)
  · exact absurd (w.isDigit _ h) (by decide)
  · exact absurd h (by decide)

theorem PadWidth.parse {w : PadWidth} (h : w.value < 2 ^ 64) :
    parseU64 ('0' :: w.digits) = some w.value := by
  have hall : ('0' :: w.digits).all Char.isDigit = true :=
    List.all_eq_true.mpr (List.forall_mem_cons.mpr ⟨rfl, w.isDigit⟩)
  have hplus : (stripPrefix ['+'] ('0' :: w.digits)).getD ('0' :: w.digits) = '0' :: w.digits := rfl
  unfold parseU64
  rw [hplus]
  exact if_pos ⟨List.cons_ne_nil _ _, hall, h⟩

theorem PadWidth.formatNumberWithSpec_format {w : PadWidth} (h : w.value < 2 ^ 16) (n : ℕ) :
    formatNumberWithSpec ('%' :: w.format) n = w.pad n := by
  have hpercent : ('%' :: w.format).dropWhile (· = '%') = w.format := rfl
  have hd : (w.format.reverse.dropWhile (· = 'd')).reverse = '0' :: w.digits := by
    have hdigits : ('0' :: w.digits).reverse.dropWhile (· = 'd') = ('0' :: w.digits).reverse := by
      refine List.dropWhile_eq_self_iff.mpr fun hlength hc => ?_
      -- the last character is a digit
      have hmem : 'd' ∈ '0' :: w.digits :=
        List.mem_reverse.mp (of_decide_eq_true hc ▸ List.getElem_mem hlength)
      obtain h | h := List.mem_cons.mp hmem
      · exact absurd h (by decide)
      · exact absurd (w.isDigit _ h) (by decide)
    have hreverse : w.format.reverse = 'd' :: ('0' :: w.digits).reverse := List.reverse_append
    calc (w.format.reverse.dropWhile (· = 'd')).reverse
        = (('0' :: w.digits).reverse.dropWhile (· = 'd')).reverse := by rw [hreverse]; rfl
      _ = '0' :: w.digits := by rw [hdigits, List.reverse_reverse]
  have hparse : parseU64 ('0' :: w.digits) = some w.value := PadWidth.parse (h.trans (by norm_num))
  unfold formatNumberWithSpec
  dsimp only
  rw [hpercent, hd, hparse]
  rfl

/-! ### The first padded number -/

variable {ps : List (TextPiece Identifier)} {v : Identifier → Str}

theorem exists_first_padded (h : ps.countP isPaddedNumber ≠ 0) :
    ∃ pre w post, ps = pre ++ .hole (.paddedNumber w) :: post ∧ pre.countP isPaddedNumber = 0 := by
  induction ps with
  | nil => exact absurd rfl h
  | cons p ps ih =>
    by_cases hp : isPaddedNumber p = true
    · obtain ⟨w, rfl⟩ : ∃ w, p = .hole (.paddedNumber w) := by
        unfold isPaddedNumber at hp
        split at hp
        · next w => exact ⟨w, rfl⟩
        · cases hp
      exact ⟨[], w, ps, rfl, rfl⟩
    · rw [List.countP_cons_of_neg hp] at h
      obtain ⟨pre, w, post, hps, hpre⟩ := ih h
      exact ⟨p :: pre, w, post, congrArg (p :: ·) hps, (List.countP_cons_of_neg hp).trans hpre⟩

theorem firstPaddedFilled_append {n : ℕ} {pre : List (TextPiece Identifier)}
    (hpre : pre.countP isPaddedNumber = 0) :
    firstPaddedFilled n (pre ++ ps) = pre ++ firstPaddedFilled n ps := by
  induction pre with
  | nil => rfl
  | cons p pre ih =>
    obtain ⟨hp, hrest⟩ : ¬ isPaddedNumber p = true ∧ pre.countP isPaddedNumber = 0 := by
      rw [List.countP_eq_zero, List.forall_mem_cons] at hpre
      exact ⟨hpre.1, List.countP_eq_zero.mpr hpre.2⟩
    rw [List.cons_append, firstPaddedFilled, ih hrest, List.cons_append]
    rintro w rfl
    exact hp rfl

theorem firstPaddedFilled_of_none {n : ℕ} (h : ps.countP isPaddedNumber = 0) :
    firstPaddedFilled n ps = ps := by
  have happend : firstPaddedFilled n (ps ++ []) = ps ++ [] := firstPaddedFilled_append h
  rwa [List.append_nil] at happend

/-- **The pass over `$Number%..$`** fills the first padded number. -/
theorem expandPaddedNumber_fill {n : ℕ} (hv : ∀ w, v (.paddedNumber w) = w.text)
    (h : PaddedFoundFirst v ps) :
    expandPaddedNumber (fill v ps) n = fill v (firstPaddedFilled n ps) := by
  obtain ⟨hnone, hopen⟩ | ⟨pre, w, post, rfl, hpre, hfind, hw⟩ := h
  · rw [firstPaddedFilled_of_none hnone, expandPaddedNumber]
    cases hstart : find "$Number%".toList (fill v ps) with
    | none => rfl
    | some start =>
      -- nothing closes it
      have hclose : find ['$'] ((fill v ps).drop (start + "$Number%".toList.length)) = none :=
        find_singleton_of_not_mem (hopen start hstart)
      dsimp only
      rw [hclose]
  · have hfilled : fill v (firstPaddedFilled n (pre ++ .hole (.paddedNumber w) :: post))
        = fill v pre ++ (w.pad n ++ fill v post) := by
      rw [firstPaddedFilled_append hpre, fill_append, firstPaddedFilled, fill_append, fill_map_char]
    rw [hfilled, expandPaddedNumber, hfind]
    -- the text around the format
    have htext : fill v (pre ++ .hole (.paddedNumber w) :: post)
        = fill v pre ++ ("$Number%".toList ++ (w.format ++ '$' :: fill v post)) := by
      rw [fill_append]
      change fill v pre ++ (v (.paddedNumber w) ++ fill v post) = _
      rw [hv, PadWidth.text_eq]
      exact congrArg (fill v pre ++ ·) ((List.append_assoc _ _ _).trans
        (congrArg ("$Number%".toList ++ ·) (List.append_assoc _ _ _)))
    have hdrop : (fill v (pre ++ .hole (.paddedNumber w) :: post)).drop
        ((fill v pre).length + "$Number%".toList.length) = w.format ++ '$' :: fill v post := by
      rw [htext, List.drop_length_add_append]
      exact List.drop_left
    have htake : (fill v (pre ++ .hole (.paddedNumber w) :: post)).take (fill v pre).length
        = fill v pre := by
      rw [htext]
      exact List.take_left
    have hrest : (fill v (pre ++ .hole (.paddedNumber w) :: post)).drop
        ((fill v pre).length + "$Number%".toList.length + w.format.length + 1) = fill v post := by
      rw [Nat.add_assoc, ← List.drop_drop, hdrop, ← List.drop_drop, List.drop_left]
      rfl
    dsimp only
    rw [hdrop, find_singleton_append w.dollar_not_mem_format]
    dsimp only
    rw [htake, hrest, List.take_left, PadWidth.formatNumberWithSpec_format hw]
    exact List.append_assoc _ _ _

/-! ### All passes -/

section AllPasses

variable {rep : Str} {bw n : ℕ} {t : Option ℕ} {template : Str}

/-- After all passes the holes have their values, but for the padded numbers. -/
theorem timeFilled_eq_value {a : Identifier} (h : ∀ w, a ≠ .paddedNumber w) :
    timeFilled rep bw n t a = Identifier.value rep bw n t a := by
  cases a with
  | paddedNumber w => exact absurd rfl (h w)
  | _ => rfl

theorem timeFilled_paddedNumber (w : PadWidth) : timeFilled rep bw n t (.paddedNumber w) = w.text := rfl

/-- **What the passes come to**, if each finds its own identifiers only. -/
theorem expandTemplate_eq (h : PassesClear rep bw n t template) :
    expandTemplate template rep bw n t
      = fill (timeFilled rep bw n t) (firstPaddedFilled n (pieces template)) := by
  have hrep : replace "$RepresentationID$".toList rep template
      = fill (representationFilled rep) (pieces template) := by
    conv_lhs => rw [← fill_pieces template]
    exact replace_fill (List.cons_ne_nil _ _) rfl h.representationID
  have hbw : replace "$Bandwidth$".toList (decimal bw) (fill (representationFilled rep) (pieces template))
      = fill (bandwidthFilled rep bw) (pieces template) :=
    replace_fill (List.cons_ne_nil _ _) rfl h.bandwidth
  have hpadded : expandPaddedNumber (fill (bandwidthFilled rep bw) (pieces template)) n
      = fill (bandwidthFilled rep bw) (firstPaddedFilled n (pieces template)) :=
    expandPaddedNumber_fill (fun w => rfl) h.padded
  have hnumber : replace "$Number$".toList (decimal n)
      (fill (bandwidthFilled rep bw) (firstPaddedFilled n (pieces template)))
        = fill (numberFilled rep bw n) (firstPaddedFilled n (pieces template)) :=
    replace_fill (List.cons_ne_nil _ _) rfl h.number
  unfold expandTemplate
  dsimp only
  rw [hrep, hbw, hpadded, hnumber]
  cases t with
  | none =>
    refine fill_congr fun a _ => ?_
    cases a <;> rfl
  | some time => exact replace_fill (List.cons_ne_nil _ _) rfl (h.time rfl)

theorem PadWidth.dollar_not_mem_pad (w : PadWidth) : '$' ∉ w.pad n := by
  intro h
  obtain h | h := List.mem_append.mp h
  · exact absurd (List.eq_of_mem_replicate h) (by decide)
  · exact absurd (Nat.isDigit_of_mem_toDigits (by decide) (by decide) h) (by decide)

/-- A padded number that is left standing has dollars that its value does not have. -/
theorem count_value_lt (w : PadWidth) :
    (Identifier.value rep bw n t (.paddedNumber w)).count '$'
      < (timeFilled rep bw n t (.paddedNumber w)).count '$' := by
  have hvalue : (Identifier.value rep bw n t (.paddedNumber w)).count '$' = 0 :=
    List.count_eq_zero.mpr w.dollar_not_mem_pad
  rw [hvalue, timeFilled_paddedNumber]
  exact List.count_pos_iff.mpr List.mem_cons_self

theorem count_value_le (a : Identifier) :
    (Identifier.value rep bw n t a).count '$' ≤ (timeFilled rep bw n t a).count '$' := by
  by_cases h : ∀ w, a ≠ .paddedNumber w
  · rw [timeFilled_eq_value h]
  · obtain ⟨w, hw⟩ := not_forall.mp h
    rw [not_not.mp hw]
    exact (count_value_lt w).le

/-- Without a padded number the pieces are filled with the values. -/
theorem fill_timeFilled (h : ps.countP isPaddedNumber = 0) :
    fill (timeFilled rep bw n t) ps = fill (Identifier.value rep bw n t) ps := by
  refine fill_congr fun a ha => timeFilled_eq_value ?_
  rintro w rfl
  exact List.countP_eq_zero.mp h _ ha rfl

/-- **The passes against one scan.** Where each pass finds its identifier where the template has it and
nowhere else, the result is that of one scan exactly if the template has one padded number at most. -/
theorem expandTemplate_eq_expandOnce_iff (h : PassesClear rep bw n t template) :
    expandTemplate template rep bw n t = expandOnce template rep bw n t
      ↔ (pieces template).countP isPaddedNumber ≤ 1 := by
  rw [expandTemplate_eq h, expandOnce]
  by_cases hnone : (pieces template).countP isPaddedNumber = 0
  · rw [firstPaddedFilled_of_none hnone, fill_timeFilled hnone]
    exact iff_of_true rfl (hnone ▸ Nat.zero_le 1)
  · obtain ⟨pre, w, post, hps, hpre⟩ := exists_first_padded hnone
    have hcode : fill (timeFilled rep bw n t) (firstPaddedFilled n (pieces template))
        = fill (Identifier.value rep bw n t) pre
          ++ (w.pad n ++ fill (timeFilled rep bw n t) post) := by
      rw [hps, firstPaddedFilled_append hpre, firstPaddedFilled, fill_append, fill_append,
        fill_map_char, fill_timeFilled hpre]
    have honce : fill (Identifier.value rep bw n t) (pieces template)
        = fill (Identifier.value rep bw n t) pre
          ++ (w.pad n ++ fill (Identifier.value rep bw n t) post) := by
      rw [hps, fill_append]
      rfl
    have hcount : (pieces template).countP isPaddedNumber = post.countP isPaddedNumber + 1 := by
      rw [hps, List.countP_append, hpre, Nat.zero_add, List.countP_cons_of_pos rfl]
    rw [hcode, honce, hcount, List.append_cancel_left_eq, List.append_cancel_left_eq]
    constructor
    · intro heq
      by_contra hpost
      -- a padded number after the first keeps its dollars
      have hsecond : post.countP isPaddedNumber ≠ 0 := fun hzero => hpost (hzero ▸ le_rfl)
      obtain ⟨mid, w', last, hmid, -⟩ := exists_first_padded hsecond
      have hmem : .hole (.paddedNumber w') ∈ post := hmid ▸ List.mem_append_right _ List.mem_cons_self
      have hlt : (fill (Identifier.value rep bw n t) post).count '$'
          < (fill (timeFilled rep bw n t) post).count '$' :=
        count_fill_lt hmem (count_value_lt w') fun a _ => count_value_le a
      exact hlt.ne (congrArg (List.count '$') heq).symm
    · intro hpost
      exact fill_timeFilled (Nat.le_zero.mp (Nat.le_of_succ_le_succ hpost))

theorem expandTemplate_eq_expandOnce_representation :
    expandTemplate "$RepresentationID$/seg$Number%05d$.m4s".toList "v1".toList 1000000 5 none
      = expandOnce "$RepresentationID$/seg$Number%05d$.m4s".toList "v1".toList 1000000 5 none :=
  (expandTemplate_eq_expandOnce_iff {
    representationID := by decide +kernel
    bandwidth := by decide +kernel
    padded := .inr ⟨[.hole .representationID, .char '/', .char 's', .char 'e', .char 'g'],
      ⟨['5'], List.cons_ne_nil _ _, List.forall_mem_singleton.mpr rfl⟩, ".m4s".toList.map .char,
      by decide +kernel⟩
    number := by decide +kernel
    time := fun htime => absurd htime (by decide) }).2 (by decide +kernel)

/-- Of two padded numbers the second is left in the address. -/
theorem not_expandTemplate_eq_expandOnce :
    ¬ expandTemplate "$Number%02d$/$Number%03d$.m4s".toList "v1".toList 1000000 5 none
      = expandOnce "$Number%02d$/$Number%03d$.m4s".toList "v1".toList 1000000 5 none := by
  decide +kernel

end AllPasses

end MediaFlow
