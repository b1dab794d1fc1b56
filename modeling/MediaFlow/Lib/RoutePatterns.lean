import MediaFlow.Lib.Routing

/-!
# Texts that fit a pattern

What it means that a path is a pattern with its placeholders filled in (`Fits`), and that the
matcher decides it: what it captures fits (`fits_of_captures`), and what fits is captured
(`exists_captures_of_fits`). The characters in front of the first placeholder have to be there
(`captures_eq_none_of_clash`).
-/

namespace Routing

open Text

/-- The text is the pattern, with these values for its placeholders. -/
inductive Fits : List Piece → Str → List Str → Prop
  | nil : Fits [] [] []
  | char {c : Char} {ps : List Piece} {s : Str} {vs : List Str} :
      Fits ps s vs → Fits (.char c :: ps) (c :: s) vs
  | segment {v : Str} {ps : List Piece} {s : Str} {vs : List Str} :
      v ≠ [] → '/' ∉ v → Fits ps s vs → Fits (.segment :: ps) (v ++ s) (v :: vs)
  | tail {v : Str} {ps : List Piece} {s : Str} {vs : List Str} :
      Fits ps s vs → Fits (.tail :: ps) (v ++ s) (v :: vs)

variable {ps : List Piece} {s : Str} {vs : List Str}

theorem mem_downFrom {k n : ℕ} : k ∈ downFrom n ↔ 1 ≤ k ∧ k ≤ n := by
  induction n with
  | zero => exact iff_of_false List.not_mem_nil fun h => absurd (h.1.trans h.2) (by decide)
  | succ n ih =>
    rw [downFrom, List.mem_cons, ih]
    omega

/-- **What is captured fits.** -/
theorem fits_of_captures (h : captures ps s = some vs) : Fits ps s vs := by
  induction ps generalizing s vs with
  | nil =>
    rw [captures] at h
    obtain ⟨rfl, hvs⟩ := Option.ite_none_right_eq_some.mp h
    cases hvs
    exact .nil
  | cons p ps ih =>
    cases p with
    | char c =>
      cases s with
      | nil => cases h
      | cons d s =>
        rw [captures] at h
        obtain ⟨rfl, hrest⟩ := Option.ite_none_right_eq_some.mp h
        exact .char (ih hrest)
    | segment =>
      rw [captures] at h
      obtain ⟨k, hk, h⟩ := List.exists_of_findSome?_eq_some h
      obtain ⟨ws, hws, rfl⟩ := Option.map_eq_some_iff.mp h
      obtain ⟨hpos, hle⟩ := mem_downFrom.mp hk
      -- the value is part of the text before the first slash
      have hvalue : s.take k <+: s.takeWhile (· ≠ '/') :=
        List.prefix_of_prefix_length_le (List.take_prefix k s) (List.takeWhile_prefix _)
          ((List.length_take_le k s).trans hle)
      have hlength : k ≤ s.length := hle.trans (List.takeWhile_prefix _).length_le
      have hne : s.take k ≠ [] := by
        apply List.ne_nil_of_length_pos
        rw [List.length_take, Nat.min_eq_left hlength]
        exact hpos
      have hslash : '/' ∉ s.take k := by
        intro hmem
        have hne := List.mem_takeWhile_imp (p := fun c => decide (c ≠ '/')) (hvalue.subset hmem)
        exact of_decide_eq_true hne rfl
      have hfits := Fits.segment hne hslash (ih hws)
      rwa [List.take_append_drop] at hfits
    | tail =>
      rw [captures] at h
      obtain ⟨k, -, h⟩ := List.exists_of_findSome?_eq_some h
      obtain ⟨ws, hws, rfl⟩ := Option.map_eq_some_iff.mp h
      have hfits := Fits.tail (v := s.take k) (ih hws)
      rwa [List.take_append_drop] at hfits

/-- **What fits is captured**, maybe with other values. -/
theorem exists_captures_of_fits (h : Fits ps s vs) : ∃ ws, captures ps s = some ws := by
  induction h with
  | nil => exact ⟨[], rfl⟩
  | char _ ih =>
    obtain ⟨ws, hws⟩ := ih
    exact ⟨ws, by rw [captures, if_pos rfl, hws]⟩
  | @segment v ps s vs hne hslash _ ih =>
    obtain ⟨ws, hws⟩ := ih
    rw [captures]
    refine Option.isSome_iff_exists.mp (List.findSome?_isSome_iff.mpr ⟨v.length, ?_, ?_⟩)
    · have hprefix : v <+: (v ++ s).takeWhile (· ≠ '/') := by
        have hall : ∀ c ∈ v, decide (c ≠ '/') = true := by
          intro c hc
          refine decide_eq_true ?_
          rintro rfl
          exact hslash hc
        rw [List.takeWhile_append_of_pos hall]
        exact List.prefix_append v _
      exact mem_downFrom.mpr ⟨List.length_pos_of_ne_nil hne, hprefix.length_le⟩
    · rw [List.drop_left, hws]
      rfl
  | @tail v ps s vs _ ih =>
    obtain ⟨ws, hws⟩ := ih
    rw [captures]
    refine Option.isSome_iff_exists.mp (List.findSome?_isSome_iff.mpr ⟨v.length, ?_, ?_⟩)
    · rw [List.mem_append, mem_downFrom, List.mem_singleton, List.length_append]
      omega
    · rw [List.drop_left, hws]
      rfl

/-! ### Reading a pattern off -/

/-- The values are parts of the text. -/
theorem Fits.subset (h : Fits ps s vs) : ∀ v ∈ vs, v ⊆ s := by
  induction h with
  | nil => exact fun _ hv => absurd hv List.not_mem_nil
  | char _ ih => exact fun v hv => List.Subset.trans (ih v hv) (List.subset_cons_self _ _)
  | segment _ _ _ ih =>
    refine List.forall_mem_cons.mpr ⟨List.subset_append_left _ _, fun v hv => ?_⟩
    exact List.Subset.trans (ih v hv) (List.subset_append_right _ _)
  | tail _ ih =>
    refine List.forall_mem_cons.mpr ⟨List.subset_append_left _ _, fun v hv => ?_⟩
    exact List.Subset.trans (ih v hv) (List.subset_append_right _ _)

theorem fits_nil_iff : Fits [] s vs ↔ s = [] ∧ vs = [] := by
  constructor
  · intro h
    cases h
    exact ⟨rfl, rfl⟩
  · rintro ⟨rfl, rfl⟩
    exact .nil

theorem fits_char_iff {c : Char} : Fits (.char c :: ps) s vs ↔ ∃ t, s = c :: t ∧ Fits ps t vs := by
  constructor
  · intro h
    cases h with
    | char h => exact ⟨_, rfl, h⟩
  · rintro ⟨t, rfl, h⟩
    exact .char h

theorem fits_segment_iff : Fits (.segment :: ps) s vs ↔
    ∃ v t ws, s = v ++ t ∧ vs = v :: ws ∧ v ≠ [] ∧ '/' ∉ v ∧ Fits ps t ws := by
  constructor
  · intro h
    cases h with
    | segment hne hslash h => exact ⟨_, _, _, rfl, rfl, hne, hslash, h⟩
  · rintro ⟨v, t, ws, rfl, rfl, hne, hslash, h⟩
    exact .segment hne hslash h

theorem fits_text_iff {t : Str} :
    Fits (t.map .char ++ ps) s vs ↔ ∃ rest, s = t ++ rest ∧ Fits ps rest vs := by
  induction t generalizing s with
  | nil =>
    constructor
    · exact fun h => ⟨s, rfl, h⟩
    · rintro ⟨_, rfl, h⟩
      exact h
  | cons c t ih =>
    rw [List.map_cons, List.cons_append, fits_char_iff]
    constructor
    · rintro ⟨u, rfl, h⟩
      obtain ⟨rest, rfl, hrest⟩ := ih.mp h
      exact ⟨rest, rfl, hrest⟩
    · rintro ⟨rest, rfl, h⟩
      exact ⟨t ++ rest, rfl, ih.mpr ⟨rest, rfl, h⟩⟩

/-- A placeholder in front of a slash stands for a segment of the path. -/
theorem fits_segment_slash_iff {u rest : Str} (hne : u ≠ []) (hslash : '/' ∉ u) :
    Fits (.segment :: .char '/' :: ps) (u ++ '/' :: rest) vs ↔
      ∃ ws, vs = u :: ws ∧ Fits ps rest ws := by
  rw [fits_segment_iff]
  constructor
  · rintro ⟨v, t, ws, heq, rfl, -, hv, h⟩
    obtain ⟨t, rfl, htail⟩ := fits_char_iff.mp h
    have hu := splitOnce_of_not_mem hslash rest
    rw [heq, splitOnce_of_not_mem hv] at hu
    cases hu
    exact ⟨ws, rfl, htail⟩
  · rintro ⟨ws, rfl, h⟩
    exact ⟨u, '/' :: rest, ws, rfl, rfl, hne, hslash, .char h⟩

theorem fits_last_iff : Fits [.segment] s vs ↔ vs = [s] ∧ s ≠ [] ∧ '/' ∉ s := by
  rw [fits_segment_iff]
  constructor
  · rintro ⟨v, t, ws, rfl, rfl, hne, hslash, h⟩
    obtain ⟨rfl, rfl⟩ := fits_nil_iff.mp h
    rw [List.append_nil]
    exact ⟨rfl, hne, hslash⟩
  · rintro ⟨rfl, hne, hslash⟩
    exact ⟨s, [], [], (List.append_nil s).symm, rfl, hne, hslash, .nil⟩

/-- A last segment in two parts. -/
theorem fits_parts_iff {sep : Char} (hsep : sep ≠ '/') :
    Fits [.segment, .char sep, .segment] s vs ↔
      ∃ a b, vs = [a, b] ∧ s = a ++ sep :: b ∧ a ≠ [] ∧ b ≠ [] ∧ '/' ∉ s := by
  rw [fits_segment_iff]
  constructor
  · rintro ⟨a, t, ws, rfl, rfl, hne, hslash, h⟩
    obtain ⟨b, rfl, hlast⟩ := fits_char_iff.mp h
    obtain ⟨rfl, hb, hbslash⟩ := fits_last_iff.mp hlast
    refine ⟨a, b, rfl, rfl, hne, hb, ?_⟩
    rw [List.mem_append, List.mem_cons]
    rintro (h | h | h)
    · exact hslash h
    · exact hsep h.symm
    · exact hbslash h
  · rintro ⟨a, b, rfl, rfl, ha, hb, hslash⟩
    refine ⟨a, sep :: b, [b], rfl, rfl, ha, fun h => hslash (List.mem_append_left _ h), .char ?_⟩
    exact fits_last_iff.mpr ⟨rfl, hb,
      fun h => hslash (List.mem_append_right _ (List.mem_cons_of_mem _ h))⟩

/-- A last segment that ends in a text. -/
theorem fits_suffix_iff {t : Str} (ht : '/' ∉ t) :
    Fits (.segment :: t.map .char) s vs ↔ ∃ a, vs = [a] ∧ s = a ++ t ∧ a ≠ [] ∧ '/' ∉ s := by
  have htext {r : Str} {ws : List Str} : Fits (t.map .char) r ws ↔ r = t ∧ ws = [] := by
    rw [← List.append_nil (t.map Piece.char), fits_text_iff]
    constructor
    · rintro ⟨rest, rfl, h⟩
      obtain ⟨rfl, rfl⟩ := fits_nil_iff.mp h
      exact ⟨List.append_nil t, rfl⟩
    · rintro ⟨rfl, rfl⟩
      exact ⟨[], (List.append_nil r).symm, .nil⟩
  rw [fits_segment_iff]
  constructor
  · rintro ⟨a, r, ws, rfl, rfl, hne, hslash, h⟩
    obtain ⟨rfl, rfl⟩ := htext.mp h
    exact ⟨a, rfl, rfl, hne, fun hmem => (List.mem_append.mp hmem).elim hslash ht⟩
  · rintro ⟨a, rfl, rfl, hne, hslash⟩
    exact ⟨a, t, [], rfl, rfl, hne, fun h => hslash (List.mem_append_left _ h),
      htext.mpr ⟨rfl, rfl⟩⟩

/-! ### The characters at the beginning -/

/-- The characters of a pattern in front of its first placeholder. -/
def literal : List Piece → Str
  | .char c :: ps => c :: literal ps
  | _ => []

theorem Fits.literal_begins (h : Fits ps s vs) : literal ps <+: s := by
  induction h with
  | nil => exact List.nil_prefix
  | char _ ih => exact List.cons_prefix_cons.mpr ⟨rfl, ih⟩
  | segment _ _ _ _ => exact List.nil_prefix
  | tail _ _ => exact List.nil_prefix

/-- Two texts differ where both have a character. -/
def clash : Str → Str → Bool
  | c :: s, d :: t => c ≠ d || clash s t
  | _, _ => false

theorem not_prefix_of_clash {t u : Str} (h : clash t u = true)
    (rest : Str) : ¬ t <+: u ++ rest := by
  induction t generalizing u with
  | nil => cases h
  | cons c t ih =>
    cases u with
    | nil => cases h
    | cons d u =>
      rw [clash, Bool.or_eq_true, decide_eq_true_iff] at h
      intro hprefix
      obtain ⟨heq, htail⟩ := List.cons_prefix_cons.mp hprefix
      exact h.elim (fun hne => hne heq) fun hclash => ih hclash htail

theorem captures_eq_none_of_clash {known : Str} (h : clash (literal ps) known = true) (rest : Str) :
    captures ps (known ++ rest) = none := by
  rw [← Option.not_isSome_iff_eq_none, Option.isSome_iff_exists]
  rintro ⟨vs, hvs⟩
  exact not_prefix_of_clash h rest (fits_of_captures hvs).literal_begins

end Routing
