import MediaFlow.Hls.SkipFilter

/-!
# Which segments are kept

A filter is given the durations of segments one by one and keeps a running time. `keptSegments` says
the same of the places in the list: a segment goes if a range overlaps it, and one that stays is
marked if the segment before it goes. `keptFrom` is the loop that every playlist writer makes with the
filter; `keptFrom_eq_keptSegments`.
-/

namespace MediaFlow

section Plan

variable {β : Type} (ranges : List SkipRange) (dur : β → ℚ)

/-- When the segment at place `i` begins, from the beginning of the list. -/
def startOf (segs : List β) (i : ℕ) : ℚ := ((segs.take i).map dur).sum

/-- A range overlaps the segment at place `i`. -/
def Overlapped (segs : List β) (i : ℕ) : Prop :=
  ∃ r ∈ ranges, startOf dur segs i < r.stop ∧ startOf dur segs (i + 1) > r.start

instance (segs : List β) (i : ℕ) : Decidable (Overlapped ranges dur segs i) :=
  inferInstanceAs (Decidable (∃ r ∈ ranges, _))

/-- What becomes of the segment at place `i`: nothing if it is overlapped, else it stays, with a mark
if the one before it does not. -/
def keptAt (segs : List β) (p : β × ℕ) : Option (Bool × β) :=
  if Overlapped ranges dur segs p.2 then none
  else some (decide (0 < p.2 ∧ Overlapped ranges dur segs (p.2 - 1)), p.1)

/-- The segments that no range overlaps, with their marks. -/
def keptSegments (segs : List β) : List (Bool × β) :=
  segs.zipIdx.filterMap (keptAt ranges dur segs)

/-- The loop, over the segments from here on. The flag says that the one before was skipped. -/
def keptFrom : SkipSegmentFilter → Bool → List β → List (Bool × β)
  | _, _, [] => []
  | f, skipped, seg :: rest =>
    match f.checkAndAdvance (dur seg) with
    | (true, f) => keptFrom f true rest
    | (false, f) => (skipped, seg) :: keptFrom f false rest

variable {ranges dur}

theorem startOf_append_cons (pre : List β) (seg : β) (rest : List β) :
    startOf dur (pre ++ seg :: rest) (pre.length + 1) =
      startOf dur (pre ++ seg :: rest) pre.length + dur seg := by
  unfold startOf
  rw [List.take_length_add_append, List.take_left, List.take_succ_cons, List.take_zero,
    List.map_append, List.sum_append]
  simp

/-- The filter after the segments of `pre`. -/
def filterAt (ranges : List SkipRange) (dur : β → ℚ) (segs : List β) (i : ℕ) : SkipSegmentFilter where
  ranges
  currentTime := startOf dur segs i

/-- One step: the filter says whether the segment is overlapped, and its clock is at the next one. -/
theorem checkAndAdvance_filterAt (pre : List β) (seg : β) (rest : List β) :
    (filterAt ranges dur (pre ++ seg :: rest) pre.length).checkAndAdvance (dur seg) =
      (decide (Overlapped ranges dur (pre ++ seg :: rest) pre.length),
        filterAt ranges dur (pre ++ seg :: rest) (pre.length + 1)) := by
  have hnext : startOf dur (pre ++ seg :: rest) (pre.length + 1) = _ := startOf_append_cons pre seg rest
  refine Prod.ext ?_ ?_
  · rw [Bool.eq_iff_iff, decide_eq_true_iff]
    unfold Overlapped
    rw [hnext]
    show List.any _ _ = true ↔ _
    rw [List.any_eq_true]
    simp only [decide_eq_true_iff]
    rfl
  · show SkipSegmentFilter.mk _ _ = filterAt ..
    unfold filterAt
    rw [hnext]

/-- The loop from any place on. -/
theorem keptFrom_filterAt (pre rest : List β) :
    keptFrom dur (filterAt ranges dur (pre ++ rest) pre.length)
        (decide (0 < pre.length ∧ Overlapped ranges dur (pre ++ rest) (pre.length - 1))) rest =
      (rest.zipIdx pre.length).filterMap (keptAt ranges dur (pre ++ rest)) := by
  induction rest generalizing pre with
  | nil => rfl
  | cons seg rest ih =>
    have ih := ih (pre ++ [seg])
    rw [List.append_assoc, List.singleton_append, List.length_append, List.length_singleton,
      Nat.add_sub_cancel] at ih
    rw [List.zipIdx_cons, keptFrom, checkAndAdvance_filterAt]
    by_cases h : Overlapped ranges dur (pre ++ seg :: rest) pre.length
    · have hkept : keptAt ranges dur (pre ++ seg :: rest) (seg, pre.length) = none := if_pos h
      rw [List.filterMap_cons_none hkept, decide_eq_true h, ← ih]
      simp [h]
    · have hkept : keptAt ranges dur (pre ++ seg :: rest) (seg, pre.length) = some _ := if_neg h
      rw [List.filterMap_cons_some hkept, decide_eq_false h, ← ih]
      simp [h]

/-- The loop keeps what it should. -/
theorem keptFrom_eq_keptSegments (segs : List β) :
    keptFrom dur { ranges } false segs = keptSegments ranges dur segs :=
  keptFrom_filterAt [] segs

theorem keptFrom_skip {f f' : SkipSegmentFilter} {skipped : Bool} {seg : β} {rest : List β}
    (h : f.checkAndAdvance (dur seg) = (true, f')) :
    keptFrom dur f skipped (seg :: rest) = keptFrom dur f' true rest := by
  rw [keptFrom, h]

theorem keptFrom_keep {f f' : SkipSegmentFilter} {skipped : Bool} {seg : β} {rest : List β}
    (h : f.checkAndAdvance (dur seg) = (false, f')) :
    keptFrom dur f skipped (seg :: rest) = (skipped, seg) :: keptFrom dur f' false rest := by
  rw [keptFrom, h]

/-- Without ranges, all segments are kept. -/
theorem keptSegments_no_ranges (segs : List β) :
    keptSegments [] dur segs = segs.map fun seg => (false, seg) := by
  have hloop : ∀ t, keptFrom dur ⟨[], t⟩ false segs = segs.map fun seg => (false, seg) := by
    induction segs with
    | nil => exact fun _ => rfl
    | cons seg rest ih => exact fun t => congrArg _ (ih (t + dur seg))
  rw [← keptFrom_eq_keptSegments]
  exact hloop 0

/-! ### A filter that there may be -/

/-- What a writer holds: the filter, or nothing if there are no ranges. -/
def Holds (held : Option SkipSegmentFilter) (f : SkipSegmentFilter) : Prop :=
  held = some f ∨ held = none ∧ f.ranges = []

theorem holds_first (ranges : List SkipRange) :
    Holds (if ranges = [] then none else some { ranges }) { ranges } := by
  by_cases h : ranges = []
  · exact .inr ⟨if_pos h, h⟩
  · exact .inl (if_neg h)

/-- Without a filter nothing is skipped. -/
theorem Holds.none_keeps {f f' : SkipSegmentFilter} {skip : Bool} {d : ℚ} (h : Holds none f)
    (hf : f.checkAndAdvance d = (skip, f')) : skip = false ∧ Holds none f' := by
  obtain h | ⟨-, h⟩ := h
  · cases h
  · have hskip := congrArg Prod.fst hf
    have hranges := congrArg (SkipSegmentFilter.ranges ∘ Prod.snd) hf
    unfold SkipSegmentFilter.checkAndAdvance at hskip hranges
    dsimp only [Function.comp_apply] at hskip hranges
    rw [h] at hskip hranges
    exact ⟨hskip.symm, .inr ⟨rfl, hranges.symm⟩⟩

/-! ### The segments under another form -/

variable {γ : Type}

theorem startOf_map (form : γ → β) (segs : List γ) (i : ℕ) :
    startOf dur (segs.map form) i = startOf (dur ∘ form) segs i := by
  unfold startOf
  rw [← List.map_take, List.map_map]

theorem overlapped_map (form : γ → β) (segs : List γ) (i : ℕ) :
    Overlapped ranges dur (segs.map form) i ↔ Overlapped ranges (dur ∘ form) segs i := by
  unfold Overlapped
  rw [startOf_map, startOf_map]

theorem keptAt_map (form : γ → β) (segs : List γ) (seg : γ) (i : ℕ) :
    keptAt ranges dur (segs.map form) (form seg, i) =
      (keptAt ranges (dur ∘ form) segs (seg, i)).map fun p => (p.1, form p.2) := by
  unfold keptAt
  simp only [overlapped_map]
  by_cases h : Overlapped ranges (dur ∘ form) segs i
  · rw [if_pos h, if_pos h, Option.map_none]
  · rw [if_neg h, if_neg h, Option.map_some]

/-- Only the durations decide. -/
theorem keptSegments_map (form : γ → β) (segs : List γ) :
    keptSegments ranges dur (segs.map form) =
      (keptSegments ranges (dur ∘ form) segs).map fun p => (p.1, form p.2) := by
  unfold keptSegments
  rw [List.zipIdx_map, List.filterMap_map, List.map_filterMap]
  congr 1
  ext1 p
  exact keptAt_map form segs p.1 p.2

end Plan

end MediaFlow
