import MediaFlow.Mpd.Sidx

/-!
# Usable ranges

For which buffers the fragments of `parseSidxFragments` are usable: no sum wraps, the ranges are
in order and do not overlap, each has a first byte not after its last, and the timescale is not
zero. `expand_segment_base_segments` makes `Range` headers and durations of them without another
check.

* `mem_fragmentsOf_usable_iff`, `pairwise_fragmentsOf`: the fragments of a list of references;
* `usableRanges_iff`: for which buffers the fragments are usable.
-/

open ByteString

namespace MediaFlow

/-- Nothing wraps on the way (a build with overflow checks does not abort), and the fragments are
ranges that a player can ask for and give a duration. -/
def UsableRanges (data : Bytes) (indexRangeStart : ℕ) : Prop :=
  (sidxInner .checked data indexRangeStart).isSome ∧
    (parseSidxFragments data indexRangeStart).Pairwise (fun a b => a.last < b.start) ∧
    ∀ f ∈ parseSidxFragments data indexRangeStart, f.start ≤ f.last ∧ 0 < f.timescale

/-- The fields of the box that is found are in range: every sum of them fits, and a media reference
stands for one byte or more and has a timescale. -/
def SidxInRange (data : Bytes) (indexRangeStart : ℕ) : Prop :=
  ∀ pos, sidxAt data = some pos →
    indexRangeStart + pos + beAt data pos 4 < 2 ^ 64 ∧
    ∀ header, readSidxHeader data (pos + 8) = some header →
      indexRangeStart + pos + beAt data pos 4 + header.firstOffset
          + totalSize (readReferences data header.referenceCount header.refsAt) < 2 ^ 64 ∧
      ∀ r ∈ readReferences data header.referenceCount header.refsAt,
        r.isIndex = false → 0 < r.size ∧ 0 < header.timescale

/-! ### The fragments of a list of references -/

section Fragments

variable {timescale : ℕ} {refs : List SidxReference} {fragStart : ℕ}

theorem le_start_of_mem_fragmentsOf {f : SidxFragment}
    (hf : f ∈ fragmentsOf timescale refs fragStart) : fragStart ≤ f.start := by
  induction refs generalizing fragStart with
  | nil => exact absurd hf List.not_mem_nil
  | cons r rs ih =>
    rw [fragmentsOf] at hf
    split at hf
    · exact (Nat.le_add_right _ _).trans (ih hf)
    · rcases List.mem_cons.mp hf with rfl | hf
      · exact le_rfl
      · exact (Nat.le_add_right _ _).trans (ih hf)

/-- The ranges follow one another. -/
theorem pairwise_fragmentsOf (hpos : 0 < fragStart) 
    (hsize : ∀ r ∈ refs, r.isIndex = false → 0 < r.size) :
    (fragmentsOf timescale refs fragStart).Pairwise fun a b => a.last < b.start := by
  induction refs generalizing fragStart with
  | nil => exact List.Pairwise.nil
  | cons r rs ih =>
    have hrest := @ih (fragStart + r.size) (by omega)
      fun q hq => hsize q (List.mem_cons_of_mem r hq)
    rw [fragmentsOf]
    split
    · exact hrest
    · refine List.pairwise_cons.mpr ⟨fun f hf => ?_, hrest⟩
      have hle := le_start_of_mem_fragmentsOf hf
      show fragStart + r.size - 1 < f.start
      omega

/-- Every fragment is usable exactly when every media reference has a size and a timescale. -/
theorem mem_fragmentsOf_usable_iff (hpos : 0 < fragStart) :
    (∀ f ∈ fragmentsOf timescale refs fragStart, f.start ≤ f.last ∧ 0 < f.timescale) ↔
      ∀ r ∈ refs, r.isIndex = false → 0 < r.size ∧ 0 < timescale := by
  induction refs generalizing fragStart with
  | nil =>
    exact iff_of_true (fun _ hf => absurd hf List.not_mem_nil)
      (fun _ hr => absurd hr List.not_mem_nil)
  | cons r rs ih =>
    have hrest := @ih (fragStart + r.size) (by omega)
    rw [fragmentsOf, List.forall_mem_cons]
    cases r.isIndex with
    | true => simpa using hrest
    | false =>
      rw [if_neg Bool.false_ne_true, List.forall_mem_cons, hrest]
      refine and_congr_left fun _ => ?_
      show (fragStart ≤ fragStart + r.size - 1 ∧ 0 < timescale) ↔
        (false = false → 0 < r.size ∧ 0 < timescale)
      constructor
      · rintro ⟨hle, hts⟩ -
        exact ⟨by omega, hts⟩
      · intro h
        obtain ⟨hsz, hts⟩ := h rfl
        exact ⟨by omega, hts⟩

end Fragments

/-! ### The buffer -/

section Buffer

variable {data : Bytes} {indexRangeStart : ℕ}

theorem parseSidxFragments_of_none (hlen : data.length < 2 ^ 63) (h : sidxAt data = none) :
    parseSidxFragments data indexRangeStart = [] := by
  rw [parseSidxFragments, sidxInner_of_none U64Arith.exact_wrapping hlen h]
  rfl

theorem parseSidxFragments_of_header_none (hlen : data.length < 2 ^ 63) {pos : ℕ}
    (h : sidxAt data = some pos) (hheader : readSidxHeader data (pos + 8) = none) :
    parseSidxFragments data indexRangeStart = [] := by
  rw [parseSidxFragments, sidxInner_of_some U64Arith.exact_wrapping hlen h, hheader]
  rfl

/-- **Where no sum is too large the fragments are those of the references.** -/
theorem parseSidxFragments_of_sum (indexRangeStart : ℕ) (hlen : data.length < 2 ^ 63) {pos : ℕ}
    {header : SidxHeader} (h : sidxAt data = some pos) (hheader : readSidxHeader data (pos + 8) = some header)
    (hsum : indexRangeStart + pos + beAt data pos 4 + header.firstOffset
      + totalSize (readReferences data header.referenceCount header.refsAt) < 2 ^ 64) :
    parseSidxFragments data indexRangeStart
      = fragmentsOf header.timescale (readReferences data header.referenceCount header.refsAt)
        (indexRangeStart + pos + beAt data pos 4 + header.firstOffset) := by
  obtain ⟨-, hsize, -⟩ := sidxAtFrom_some h
  have hadd := U64Arith.exact_wrapping
  rw [parseSidxFragments, sidxInner_of_some hadd hlen h, hadd _ _ (by omega), Option.bind_some,
    hadd _ _ (by omega), Option.bind_some, hheader, Option.elim_some, hadd _ _ (by omega),
    Option.bind_some, buildFragments_wrapping _ _ (by omega) hsum]
  rfl

/-- With overflow checks the parser has a result exactly where every sum fits. -/
theorem isSome_sidxInner_checked_iff (hlen : data.length < 2 ^ 63) {pos : ℕ}
    (h : sidxAt data = some pos) :
    (sidxInner .checked data indexRangeStart).isSome ↔
      indexRangeStart + pos + beAt data pos 4 < 2 ^ 64 ∧
      ∀ header, readSidxHeader data (pos + 8) = some header →
        indexRangeStart + pos + beAt data pos 4 + header.firstOffset
          + totalSize (readReferences data header.referenceCount header.refsAt) < 2 ^ 64 := by
  obtain ⟨-, hsize, -⟩ := sidxAtFrom_some h
  have hadd := U64Arith.exact_checked
  have hnone : ∀ a b, ¬ a + b < 2 ^ 64 → U64Arith.checked.add a b = none :=
    fun _ _ hab => if_neg hab
  rw [sidxInner_of_some hadd hlen h]
  by_cases hstart : indexRangeStart + pos < 2 ^ 64
  · rw [hadd _ _ hstart, Option.bind_some]
    by_cases hend : indexRangeStart + pos + beAt data pos 4 < 2 ^ 64
    · rw [hadd _ _ hend, Option.bind_some]
      cases hheader : readSidxHeader data (pos + 8) with
      | none => exact iff_of_true rfl ⟨hend, fun header hh => by cases hh⟩
      | some header =>
        rw [Option.elim_some]
        by_cases hfirst : indexRangeStart + pos + beAt data pos 4 + header.firstOffset < 2 ^ 64
        · rw [hadd _ _ hfirst, Option.bind_some, Option.isSome_map,
            buildFragments_checked _ _ (by omega) hfirst]
          constructor
          · intro hsome
            refine ⟨hend, fun header' hh => ?_⟩
            cases hh
            by_contra htotal
            rw [if_neg htotal] at hsome
            exact Bool.false_ne_true hsome
          · rintro ⟨-, htotal⟩
            rw [if_pos (htotal header rfl)]
            rfl
        · rw [hnone _ _ hfirst]
          refine iff_of_false Bool.false_ne_true fun ⟨_, htotal⟩ => ?_
          have := htotal header rfl
          omega
    · rw [hnone _ _ hend]
      exact iff_of_false Bool.false_ne_true fun hall => hend hall.1
  · rw [hnone _ _ hstart]
    exact iff_of_false Bool.false_ne_true fun hall => by omega

/-- **The fragments are usable exactly when the fields of the box are in range.** -/
theorem usableRanges_iff (hlen : data.length < 2 ^ 63) :
    UsableRanges data indexRangeStart ↔ SidxInRange data indexRangeStart := by
  unfold UsableRanges SidxInRange
  cases h : sidxAt data with
  | none =>
    rw [sidxInner_of_none U64Arith.exact_checked hlen h, parseSidxFragments_of_none hlen h]
    exact iff_of_true ⟨rfl, List.Pairwise.nil, fun f hf => absurd hf List.not_mem_nil⟩
      fun pos hpos => by cases hpos
  | some pos =>
    rw [isSome_sidxInner_checked_iff hlen h]
    obtain ⟨-, hsize, -⟩ := sidxAtFrom_some h
    cases hheader : readSidxHeader data (pos + 8) with
    | none =>
      rw [parseSidxFragments_of_header_none hlen h hheader]
      constructor
      · rintro ⟨⟨hend, -⟩, -⟩ _ hpos
        cases hpos
        exact ⟨hend, fun header hh => by rw [hheader] at hh; cases hh⟩
      · intro hrange
        exact ⟨⟨(hrange pos rfl).1, fun header hh => by cases hh⟩, List.Pairwise.nil,
          fun f hf => absurd hf List.not_mem_nil⟩
    | some header =>
      constructor
      · rintro ⟨⟨hend, htotal⟩, -, hall⟩ _ hpos
        cases hpos
        have hsum := htotal header rfl
        rw [parseSidxFragments_of_sum _ hlen h hheader hsum, mem_fragmentsOf_usable_iff (by omega)]
          at hall
        refine ⟨hend, fun header' hh => ?_⟩
        rw [hheader] at hh
        cases hh
        exact ⟨hsum, hall⟩
      · intro hrange
        obtain ⟨hend, hfields⟩ := hrange pos rfl
        obtain ⟨hsum, hall⟩ := hfields header hheader
        rw [parseSidxFragments_of_sum _ hlen h hheader hsum, mem_fragmentsOf_usable_iff (by omega)]
        refine ⟨⟨hend, fun header' hh => ?_⟩, pairwise_fragmentsOf (by omega)
          fun r hr hr' => (hall r hr hr').1, hall⟩
        cases hh
        exact hsum

end Buffer

/-- A `sidx` of version 0 at 1000 ticks a second, with one media reference of this size. -/
def oneReference (size : ℕ) : Bytes :=
  toBe 4 44 ++ FourCC.sidx.bytes ++ toBe 4 0 ++ toBe 4 1 ++ toBe 4 1000 ++ toBe 4 0 ++ toBe 4 0
    ++ toBe 2 0 ++ toBe 2 1 ++ toBe 4 size ++ toBe 4 2000 ++ toBe 4 0

theorem usableRanges_oneReference : UsableRanges (oneReference 100) 0 :=
  (usableRanges_iff (by decide)).mpr (by
    intro pos hpos
    have hzero : sidxAt (oneReference 100) = some 0 := by decide +kernel
    rw [hzero] at hpos
    cases hpos
    refine ⟨by decide +kernel, fun header hheader => ?_⟩
    have hread : readSidxHeader (oneReference 100) 8 = some ⟨1000, 0, 1, 32⟩ := by decide +kernel
    rw [hread] at hheader
    cases hheader
    decide +kernel)

/-- A media reference of no bytes becomes a range that ends before it starts. -/
theorem not_usableRanges :
    ¬ ∀ (data : Bytes) (indexRangeStart : ℕ), data.length < 2 ^ 63 → indexRangeStart < 2 ^ 64 →
      UsableRanges data indexRangeStart := by
  intro h
  have hall := (h (oneReference 0) 0 (by decide) (by norm_num)).2.2
  exact absurd hall (by decide +kernel)

end MediaFlow
