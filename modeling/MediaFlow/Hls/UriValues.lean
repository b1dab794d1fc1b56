import MediaFlow.Hls.Routing

/-!
# URIs in the attributes of a tag

The processor rewrites the value of the first `URI="..."` in a text (`rewriteUriValue`). A text may
have others (`rewriteAllUris`); `rewriteUriValue_eq_all` and `loneUri_of_eq_all`: the first is all of
them just if no other follows it.
-/

open Text

namespace MediaFlow

open ManifestProcessor

/-! ### URIs in attribute texts -/

/-- A text up to its first `URI="`, the value, and the rest from the closing quote on. -/
def splitFirstUri (s : Str) : Option (Str × Str × Str) :=
  match find uriMark s with
  | none => none
  | some start =>
    let rest := s.drop (start + 5)
    match find ['"'] rest with
    | none => none
    | some stop => some (s.take (start + 5), rest.take stop, rest.drop stop)

/-- The text with the values of its first `n` URIs replaced. -/
def rewriteFirstUris (newUri : Str → Piece) : ℕ → Str → Written
  | 0, s => [.text s]
  | n + 1, s =>
    match splitFirstUri s with
    | none => [.text s]
    | some (before, uri, after) => .text before :: newUri uri :: rewriteFirstUris newUri n after

/-- The text with the value of each `URI="..."` replaced. -/
def rewriteAllUris (newUri : Str → Piece) (s : Str) : Written := rewriteFirstUris newUri s.length s

/-- Nothing that follows the first URI is another one. -/
def LoneUri (s : Str) : Prop :=
  ∀ before uri after, splitFirstUri s = some (before, uri, after) → splitFirstUri after = none

/-! ### The first URI and the others -/

section Attributes

variable {newUri newUri' : Str → Piece} {s : Str}

theorem rewriteUriValue_eq (newUri : Str → Piece) (s : Str) : rewriteUriValue newUri s =
    ((splitFirstUri s).elim [.text s] fun parts =>
      [.text parts.1, newUri parts.2.1, .text parts.2.2]) := by
  unfold rewriteUriValue splitFirstUri uriMark
  cases find "URI=\"".toList s with
  | none => rfl
  | some start =>
    dsimp only
    cases find ['"'] (s.drop (start + 5)) with
    | none => rfl
    | some stop => rfl

theorem rewriteUriValue_of_none (h : splitFirstUri s = none) :
    rewriteUriValue newUri s = [.text s] := by
  rw [rewriteUriValue_eq, h, Option.elim_none]

theorem rewriteUriValue_of_some {before uri after : Str}
    (h : splitFirstUri s = some (before, uri, after)) :
    rewriteUriValue newUri s = [.text before, newUri uri, .text after] := by
  rw [rewriteUriValue_eq, h, Option.elim_some]

theorem splitFirstUri_of_not_contains (h : ¬ contains s "URI=\"".toList = true) :
    splitFirstUri s = none := by
  have hfind : find uriMark s = none := Option.not_isSome_iff_eq_none.mp h
  unfold splitFirstUri
  rw [hfind]

theorem splitFirstUri_eq_some_iff {before uri after : Str} :
    splitFirstUri s = some (before, uri, after) ↔
      ∃ start stop, find uriMark s = some start ∧ find ['"'] (s.drop (start + 5)) = some stop ∧
        s.take (start + 5) = before ∧ (s.drop (start + 5)).take stop = uri ∧
        (s.drop (start + 5)).drop stop = after := by
  unfold splitFirstUri
  cases find uriMark s with
  | none => simp
  | some start =>
    dsimp only
    cases hstop : find ['"'] (s.drop (start + 5)) with
    | none => simp [hstop]
    | some stop => simp [hstop]

theorem length_after_lt {before uri after : Str}
    (h : splitFirstUri s = some (before, uri, after)) : after.length < s.length := by
  obtain ⟨start, stop, hstart, -, -, -, rfl⟩ := splitFirstUri_eq_some_iff.mp h
  have hle : start + 5 ≤ s.length := length_le_of_find hstart
  rw [List.length_drop, List.length_drop]
  omega

theorem splitFirstUri_append {before uri after : Str}
    (h : splitFirstUri s = some (before, uri, after)) : before ++ (uri ++ after) = s := by
  obtain ⟨start, stop, -, -, rfl, rfl, rfl⟩ := splitFirstUri_eq_some_iff.mp h
  rw [List.take_append_drop, List.take_append_drop]

theorem rewriteFirstUris_of_none (h : splitFirstUri s = none) (n : ℕ) :
    rewriteFirstUris newUri n s = [.text s] := by
  cases n with
  | zero => rfl
  | succ n => rw [rewriteFirstUris, h]

/-- A text with a URI in it has more than one character. -/
theorem two_le_length_of_split {parts : Str × Str × Str} (h : splitFirstUri s = some parts) :
    2 ≤ s.length := by
  unfold splitFirstUri at h
  cases hfind : find uriMark s with
  | none =>
    rw [hfind] at h
    cases h
  | some start =>
    have hlen : start + 5 ≤ s.length := length_le_of_find hfind
    omega

/-- The first URI is replaced, and what follows is rewritten with one step less. -/
theorem rewriteFirstUris_of_some {before uri after : Str}
    (h : splitFirstUri s = some (before, uri, after)) {n : ℕ} (hn : n ≠ 0) :
    rewriteFirstUris newUri n s =
      .text before :: newUri uri :: rewriteFirstUris newUri (n - 1) after := by
  cases n with
  | zero => exact absurd rfl hn
  | succ n => rw [rewriteFirstUris, h, Nat.add_sub_cancel]

/-- There are no more URIs than characters. -/
theorem rewriteFirstUris_eq_all {n : ℕ} (hn : s.length ≤ n) :
    rewriteFirstUris newUri n s = rewriteAllUris newUri s := by
  unfold rewriteAllUris
  induction hlength : s.length using Nat.strong_induction_on generalizing s n with
  | _ length ih =>
    cases hsplit : splitFirstUri s with
    | none => rw [rewriteFirstUris_of_none hsplit, rewriteFirstUris_of_none hsplit]
    | some parts =>
      obtain ⟨before, uri, after⟩ := parts
      have hafter := length_after_lt hsplit
      have hrest (m : ℕ) (hm : after.length ≤ m) :
          rewriteFirstUris newUri m after = rewriteFirstUris newUri after.length after :=
        ih after.length (by omega) hm rfl
      rw [rewriteFirstUris_of_some hsplit (by omega), rewriteFirstUris_of_some hsplit (by omega),
        hrest (n - 1) (by omega), hrest (length - 1) (by omega)]

theorem rewriteAllUris_of_none (h : splitFirstUri s = none) :
    rewriteAllUris newUri s = [.text s] := rewriteFirstUris_of_none h _

theorem rewriteAllUris_of_some {before uri after : Str}
    (h : splitFirstUri s = some (before, uri, after)) :
    rewriteAllUris newUri s = .text before :: newUri uri :: rewriteAllUris newUri after := by
  have hafter := length_after_lt h
  rw [rewriteAllUris, rewriteFirstUris_of_some h (by omega), rewriteFirstUris_eq_all (by omega)]

/-- The text is kept only if it has no URI. -/
theorem rewriteFirstUris_eq_text_iff {n : ℕ} (hn : n ≠ 0) :
    [.text s] = rewriteFirstUris newUri n s ↔ splitFirstUri s = none := by
  constructor
  · intro h
    cases hsplit : splitFirstUri s with
    | none => rfl
    | some parts =>
      rw [rewriteFirstUris_of_some hsplit hn] at h
      cases (List.cons.inj h).2
  · intro h
    rw [rewriteFirstUris_of_none h]

theorem text_eq_rewriteAllUris_iff : [.text s] = rewriteAllUris newUri s ↔ splitFirstUri s = none := by
  constructor
  · intro h
    cases hsplit : splitFirstUri s with
    | none => rfl
    | some parts =>
      have hlen : s.length ≠ 0 := by
        have htwo := two_le_length_of_split hsplit
        omega
      rw [← hsplit]
      exact (rewriteFirstUris_eq_text_iff hlen).mp h
  · intro h
    exact (rewriteFirstUris_of_none h _).symm

theorem loneUri_iff {before uri after : Str} (h : splitFirstUri s = some (before, uri, after)) :
    LoneUri s ↔ splitFirstUri after = none := by
  constructor
  · intro hlone
    exact hlone before uri after h
  · intro hnone before' uri' after' h'
    cases h.symm.trans h'
    exact hnone

theorem loneUri_of_none (h : splitFirstUri s = none) : LoneUri s := by
  intro before uri after hsome
  rw [h] at hsome
  cases hsome

/-- **The first URI is all URIs** if no other follows it. -/
theorem rewriteUriValue_eq_all (h : LoneUri s) :
    rewriteUriValue newUri s = rewriteAllUris newUri s := by
  rw [rewriteUriValue_eq]
  cases hsplit : splitFirstUri s with
  | none => exact text_eq_rewriteAllUris_iff.mpr hsplit
  | some parts =>
    have htwo := two_le_length_of_split hsplit
    unfold rewriteAllUris
    rw [Option.elim_some, rewriteFirstUris_of_some hsplit (by omega),
      rewriteFirstUris_of_none ((loneUri_iff hsplit).mp h)]

/-- If all URIs are rewritten, wherever to, the first is the only one. -/
theorem loneUri_of_eq_all (h : rewriteUriValue newUri s = rewriteAllUris newUri' s) : LoneUri s := by
  rw [rewriteUriValue_eq] at h
  cases hsplit : splitFirstUri s with
  | none => exact loneUri_of_none hsplit
  | some parts =>
    have htwo := two_le_length_of_split hsplit
    unfold rewriteAllUris at h
    rw [hsplit, Option.elim_some, rewriteFirstUris_of_some hsplit (by omega)] at h
    -- what follows the first URI is a text in both
    have hafter := (List.cons.inj (List.cons.inj h).2).2
    exact (loneUri_iff hsplit).mpr ((rewriteFirstUris_eq_text_iff (by omega)).mp hafter)

end Attributes

end MediaFlow
