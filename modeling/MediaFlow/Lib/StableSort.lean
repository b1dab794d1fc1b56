import Mathlib

/-!
# Sorting by a key

`sortDesc key` sorts a list by falling keys and keeps the order of elements with the same key
(`filter_mergeSort`): what is found first in it, or last, is told by the list as it was
(`find?_sortDesc`, `getLast?_sortDesc`).
-/

namespace StableSort

variable {α : Type*}

/-! ### Stability -/

/-- Elements that compare as equal stay in their order. -/
theorem filter_mergeSort {le : α → α → Bool} (trans : ∀ a b c, le a b → le b c → le a c)
    (total : ∀ a b, le a b || le b a) {p : α → Bool} (hp : ∀ a b, p a → p b → le a b)
    (l : List α) : (l.mergeSort le).filter p = l.filter p := by
  have hpairwise : (l.filter p).Pairwise fun a b => le a b = true :=
    List.pairwise_of_forall_mem_list fun a ha b hb =>
      hp a b (List.of_mem_filter ha) (List.of_mem_filter hb)
  have hsublist : (l.filter p).Sublist ((l.mergeSort le).filter p) := by
    have h := (List.sublist_mergeSort trans total hpairwise List.filter_sublist).filter p
    simpa only [List.filter_filter, Bool.and_self] using h
  exact (hsublist.eq_of_length ((List.mergeSort_perm l le).filter p).length_eq.symm).symm

/-! ### Falling keys -/

section Key

variable (key : α → ℕ)

def sortDesc (l : List α) : List α := l.mergeSort fun a b => key b ≤ key a

theorem mem_sortDesc {l : List α} {a : α} : a ∈ sortDesc key l ↔ a ∈ l := List.mem_mergeSort

theorem decide_le_trans (a b c : α) (hab : decide (key b ≤ key a) = true)
    (hbc : decide (key c ≤ key b) = true) : decide (key c ≤ key a) = true :=
  decide_eq_true ((of_decide_eq_true hbc).trans (of_decide_eq_true hab))

theorem decide_le_total (a b : α) : (decide (key b ≤ key a) || decide (key a ≤ key b)) = true := by
  simpa using Nat.le_total (key b) (key a)

theorem pairwise_sortDesc (l : List α) : (sortDesc key l).Pairwise fun a b => key b ≤ key a :=
  (List.pairwise_mergeSort (decide_le_trans key) (decide_le_total key) l).imp of_decide_eq_true

theorem filter_sortDesc (k : ℕ) (l : List α) :
    (sortDesc key l).filter (key · = k) = l.filter (key · = k) := by
  refine filter_mergeSort (decide_le_trans key) (decide_le_total key) (fun a b ha hb => ?_) l
  rw [of_decide_eq_true ha, of_decide_eq_true hb]
  exact decide_eq_true le_rfl

variable {key}

/-- The first one below a bound is the first of the greatest key that is. -/
theorem find?_sortDesc {bound : ℕ} {l : List α} {a : α}
    (h : (sortDesc key l).find? (key · ≤ bound) = some a) :
    key a ≤ bound ∧ (∀ b ∈ l, key b ≤ bound → key b ≤ key a) ∧
      l.find? (key · = key a) = some a := by
  obtain ⟨hle, before, after, hl, hbefore⟩ := List.find?_eq_some_iff_append.mp h
  have hle : key a ≤ bound := of_decide_eq_true hle
  have hpairwise := pairwise_sortDesc key l
  rw [hl, List.pairwise_append, List.pairwise_cons] at hpairwise
  refine ⟨hle, fun b hb hbound => ?_, ?_⟩
  · rw [← mem_sortDesc key, hl, List.mem_append, List.mem_cons] at hb
    obtain hb | rfl | hb := hb
    · have hnot := hbefore b hb
      rw [Bool.not_eq_true', decide_eq_false_iff_not] at hnot
      exact absurd hbound hnot
    · exact le_rfl
    · exact hpairwise.2.1.1 b hb
  · have hself : (a :: after).filter (key · = key a) = a :: after.filter (key · = key a) :=
      List.filter_cons_of_pos (decide_eq_true rfl)
    -- nothing before it in the sorted list has its key
    have hnone : before.filter (key · = key a) = [] := by
      refine List.filter_eq_nil_iff.mpr fun b hb hkey => ?_
      have hnot := hbefore b hb
      rw [Bool.not_eq_true', decide_eq_false_iff_not] at hnot
      exact hnot (of_decide_eq_true hkey ▸ hle)
    rw [← List.head?_filter, ← filter_sortDesc, hl, List.filter_append, hnone, List.nil_append,
      hself, List.head?_cons]

/-- The last one is the last of the least key. -/
theorem getLast?_sortDesc {l : List α} {a : α} (h : (sortDesc key l).getLast? = some a) :
    (∀ b ∈ l, key a ≤ key b) ∧ (l.filter (key · = key a)).getLast? = some a := by
  obtain ⟨before, hl⟩ := List.getLast?_eq_some_iff.mp h
  have hpairwise := pairwise_sortDesc key l
  rw [hl, List.pairwise_append] at hpairwise
  refine ⟨fun b hb => ?_, ?_⟩
  · rw [← mem_sortDesc key, hl, List.mem_append, List.mem_singleton] at hb
    obtain hb | rfl := hb
    · exact hpairwise.2.2 b hb a (List.mem_singleton_self a)
    · exact le_rfl
  · have hself : [a].filter (key · = key a) = [a] :=
      List.filter_cons_of_pos (decide_eq_true rfl)
    rw [← filter_sortDesc, hl, List.filter_append, hself, List.getLast?_concat]

end Key

end StableSort
