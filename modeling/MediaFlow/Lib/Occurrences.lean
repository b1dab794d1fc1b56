import Mathlib.Data.List.Infix
import Mathlib.Data.Nat.Find

/-!
# Occurrences

Where a list occurs in another one (`OccursAt`), and what lies between the occurrences that are
taken from left to right without an overlap: `LeftmostGaps`. Each is the first one in what the
occurrence before it has left over.

* `existsUnique_leftmostGaps`: there is one way to take them, for a needle that is not empty;
* `LeftmostGaps.intercalate_eq`: with the needle in the gaps, the list is as it was.
-/

namespace Occurrences

universe u

variable {α : Type u}

/-- The needle stands at a position of the list. -/
def OccursAt (needle s : List α) (i : ℕ) : Prop := needle <+: s.drop i

/-- The slices of a length, from left to right: `slice::windows`. -/
def windows (n : ℕ) (s : List α) : List (List α) :=
  (List.range (s.length + 1 - n)).map fun i => (s.drop i).take n

/-- The gaps before, between and behind the occurrences of a needle. -/
inductive LeftmostGaps (needle : List α) : List α → List (List α) → Prop
  | last {s : List α} (habsent : ∀ i, ¬ OccursAt needle s i) : LeftmostGaps needle s [s]
  | occurrence {gap rest : List α} {gaps : List (List α)}
      (hfirst : ∀ i < gap.length, ¬ OccursAt needle (gap ++ (needle ++ rest)) i)
      (hrest : LeftmostGaps needle rest gaps) :
      LeftmostGaps needle (gap ++ (needle ++ rest)) (gap :: gaps)

variable {needle s : List α}

theorem occursAt_append (gap rest : List α) :
    OccursAt needle (gap ++ (needle ++ rest)) gap.length := by
  rw [OccursAt, List.drop_left]
  exact List.prefix_append needle rest

/-- An occurrence of a needle that is not empty takes some of the list. -/
theorem OccursAt.exists_eq {i : ℕ} (hneedle : needle ≠ []) (h : OccursAt needle s i) :
    ∃ rest, s = s.take i ++ (needle ++ rest) ∧ (s.take i).length = i ∧ rest.length < s.length := by
  obtain ⟨rest, hrest⟩ := h
  have hpos : 0 < needle.length := List.length_pos_of_ne_nil hneedle
  have hlength : needle.length + rest.length = s.length - i := by
    rw [← List.length_append, hrest, List.length_drop]
  refine ⟨rest, ?_, ?_, ?_⟩
  · rw [hrest, List.take_append_drop]
  · rw [List.length_take]
    omega
  · omega

/-- **The windows** of the length of the needle show whether it occurs. -/
theorem mem_windows_iff (hneedle : needle ≠ []) :
    needle ∈ windows needle.length s ↔ ∃ i, OccursAt needle s i := by
  rw [windows, List.mem_map]
  constructor
  · rintro ⟨i, -, htake⟩
    exact ⟨i, List.prefix_iff_eq_take.mpr htake.symm⟩
  · rintro ⟨i, hi⟩
    have hle := hi.length_le
    have hpos : 0 < needle.length := List.length_pos_of_ne_nil hneedle
    rw [List.length_drop] at hle
    refine ⟨i, List.mem_range.mpr ?_, (List.prefix_iff_eq_take.mp hi).symm⟩
    omega

namespace LeftmostGaps

variable {gaps gaps' : List (List α)}

theorem ne_nil (h : LeftmostGaps needle s gaps) : gaps ≠ [] := by
  cases h with
  | last habsent => exact List.cons_ne_nil _ _
  | occurrence hfirst hrest => exact List.cons_ne_nil _ _

/-- **The gaps and the needles** make up the list. -/
theorem intercalate_eq (h : LeftmostGaps needle s gaps) : needle.intercalate gaps = s := by
  induction h with
  | last habsent => exact List.intercalate_singleton
  | occurrence hfirst hrest ih =>
    rw [List.intercalate_cons_of_ne_nil hrest.ne_nil, ih, List.append_assoc]

/-- **The gaps are unique**, as of two first occurrences none is before the other. -/
theorem unique (h : LeftmostGaps needle s gaps)
    (h' : LeftmostGaps needle s gaps') : gaps = gaps' := by
  induction h generalizing gaps' with
  | @last s habsent =>
    cases h' with
    | last habsent' => rfl
    | @occurrence gap rest gaps hfirst hrest => exact absurd (occursAt_append gap rest) (habsent _)
  | @occurrence gap rest gaps hfirst hrest ih =>
    generalize hs : gap ++ (needle ++ rest) = s at h' hfirst
    cases h' with
    | last habsent' => exact absurd (hs ▸ occursAt_append gap rest) (habsent' _)
    | @occurrence gap' rest' gaps' hfirst' hrest' =>
      have hle : gap'.length ≤ gap.length :=
        not_lt.mp fun hlt => hfirst' _ hlt (hs ▸ occursAt_append gap rest)
      have hge : gap.length ≤ gap'.length :=
        not_lt.mp fun hlt => hfirst _ hlt (occursAt_append gap' rest')
      obtain ⟨rfl, htail⟩ := List.append_inj hs (le_antisymm hge hle)
      cases List.append_cancel_left htail
      rw [ih hrest']

end LeftmostGaps

/-- Taking the first occurrence, and going on behind it. -/
theorem exists_leftmostGaps (hneedle : needle ≠ []) (s : List α) :
    ∃ gaps, LeftmostGaps needle s gaps := by
  classical
  induction hlength : s.length using Nat.strongRecOn generalizing s with
  | ind n ih =>
    subst hlength
    by_cases hoccurs : ∃ i, OccursAt needle s i
    · obtain ⟨rest, hs, htake, hlt⟩ := (Nat.find_spec hoccurs).exists_eq hneedle
      obtain ⟨gaps, hgaps⟩ := ih rest.length hlt rest rfl
      refine ⟨s.take (Nat.find hoccurs) :: gaps, ?_⟩
      generalize hgap : s.take (Nat.find hoccurs) = gap at hs htake ⊢
      have hfirst : ∀ i < gap.length, ¬ OccursAt needle s i := fun i hi =>
        Nat.find_min hoccurs (htake ▸ hi)
      rw [hs] at hfirst ⊢
      exact .occurrence hfirst hgaps
    · exact ⟨[s], .last (not_exists.mp hoccurs)⟩

theorem existsUnique_leftmostGaps (hneedle : needle ≠ []) (s : List α) :
    ∃! gaps, LeftmostGaps needle s gaps := by
  obtain ⟨gaps, hgaps⟩ := exists_leftmostGaps hneedle s
  exact ⟨gaps, hgaps, fun gaps' hgaps' => hgaps'.unique hgaps⟩

end Occurrences
