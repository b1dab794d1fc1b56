import Mathlib.Data.List.Induction

/-!
# What elements of a list inherit

A list is walked with a state: `view` is what an element sees of it, together with what the element
says itself, and `next` is what the element leaves to those after it. When some elements are dropped,
the others may see something else. `unchanged_iff_bridged`: they do not exactly if each run of
dropped elements leaves to the next one what it would see without the run.
-/

namespace Inherit

variable {σ α β : Type*} (view : σ → α → β) (next : β → α → σ)

/-- The state after the elements of `l`. -/
def after (st : σ) (l : List α) : σ := l.foldl (fun st a => next (view st a) a) st

/-- The elements that are not marked. -/
def kept (l : List (α × Bool)) : List α := (l.filter fun p => !p.2).map Prod.fst

/-- Each unmarked element sees the same whether the marked ones are dropped or not. -/
def Unchanged (st : σ) (l : List (α × Bool)) : Prop :=
  ∀ pre a post, l = pre ++ (a, false) :: post →
    view (after view next st (kept pre)) a = view (after view next st (pre.map Prod.fst)) a

/-- Each unmarked element sees the same with and without the run of marked ones before it. -/
def Bridged (st : σ) (l : List (α × Bool)) : Prop :=
  ∀ pre run a post, l = pre ++ run ++ (a, false) :: post → (∀ p ∈ run, p.2 = true) →
    pre.getLast?.map Prod.snd ≠ some true →
    view (after view next st (pre.map Prod.fst)) a =
      view (after view next st ((pre ++ run).map Prod.fst)) a

section Kept

variable {view next}

theorem after_append_singleton (st : σ) (l : List α) (a : α) :
    after view next st (l ++ [a]) = next (view (after view next st l) a) a := by
  unfold after
  rw [List.foldl_append]
  rfl

/-- A change of the elements that nobody sees. -/
theorem after_map {f : α → α} (hview : ∀ st a, view st (f a) = view st a)
    (hnext : ∀ b a, next b (f a) = next b a) (st : σ) (l : List α) :
    after view next st (l.map f) = after view next st l := by
  unfold after
  rw [List.foldl_map]
  congr 1
  ext st a
  rw [hview, hnext]

theorem kept_append (l l' : List (α × Bool)) : kept (l ++ l') = kept l ++ kept l' := by
  unfold kept
  rw [List.filter_append, List.map_append]

theorem kept_eq_nil_of_marked {run : List (α × Bool)} (h : ∀ p ∈ run, p.2 = true) :
    kept run = [] := by
  unfold kept
  rw [List.filter_eq_nil_iff.mpr fun p hp => by simp [h p hp]]
  rfl

/-- What stands before an element splits into the run of marked ones and the rest. -/
theorem exists_run (l : List (α × Bool)) :
    ∃ pre run, l = pre ++ run ∧ (∀ p ∈ run, p.2 = true) ∧
      pre.getLast?.map Prod.snd ≠ some true := by
  induction l using List.reverseRecOn with
  | nil => exact ⟨[], [], rfl, nofun, nofun⟩
  | append_singleton l p ih =>
    obtain ⟨pre, run, rfl, hrun, hpre⟩ := ih
    by_cases hp : p.2 = true
    · refine ⟨pre, run ++ [p], (List.append_assoc ..), ?_, hpre⟩
      intro q hq
      rcases List.mem_append.mp hq with hq | hq
      · exact hrun q hq
      · rw [List.mem_singleton.mp hq]
        exact hp
    · refine ⟨pre ++ run ++ [p], [], (List.append_nil _).symm, nofun, ?_⟩
      rw [List.getLast?_append]
      simpa using hp

variable {st : σ}

theorem Unchanged.of_append {l l' : List (α × Bool)} (h : Unchanged view next st (l ++ l')) :
    Unchanged view next st l := by
  rintro pre a post rfl
  exact h pre a (post ++ l') (by simp)

theorem Bridged.of_append {l l' : List (α × Bool)} (h : Bridged view next st (l ++ l')) :
    Bridged view next st l := by
  rintro pre run a post rfl
  exact h pre run a (post ++ l') (by simp)

/-- Where the last element stays, the state after it is the same: it is what the element leaves. -/
theorem Unchanged.after_kept {pre : List (α × Bool)} (h : Unchanged view next st pre)
    (hpre : pre.getLast?.map Prod.snd ≠ some true) :
    after view next st (kept pre) = after view next st (pre.map Prod.fst) := by
  induction pre using List.reverseRecOn with
  | nil => rfl
  | append_singleton pre p _ =>
    obtain ⟨a, marked⟩ := p
    cases marked with
    | true => exact absurd (by simp) hpre
    | false =>
      have hsame := h pre a [] rfl
      rw [kept_append, List.map_append]
      calc after view next st (kept pre ++ [a])
          = next (view (after view next st (kept pre)) a) a := after_append_singleton ..
        _ = next (view (after view next st (pre.map Prod.fst)) a) a := by rw [hsame]
        _ = after view next st (pre.map Prod.fst ++ [a]) := (after_append_singleton ..).symm

/-- **Dropping the marked elements changes nothing** for the others exactly if every run of them is
bridged. -/
theorem unchanged_iff_bridged {l : List (α × Bool)} :
    Unchanged view next st l ↔ Bridged view next st l := by
  constructor
  · rintro h pre run a post rfl hrun hpre
    have hsame := h (pre ++ run) a post rfl
    rw [List.append_assoc] at h
    rw [kept_append, kept_eq_nil_of_marked hrun, List.append_nil,
      h.of_append.after_kept hpre] at hsame
    exact hsame
  · intro h
    -- along the list: the prefixes are unchanged, which gives the state after the last one that stays
    induction l using List.reverseRecOn with
    | nil =>
      intro pre a post hl
      exact absurd hl.symm (by simp)
    | append_singleton l p ih =>
      have hl := ih h.of_append
      intro pre a post hsplit
      rcases List.eq_nil_or_concat post with rfl | ⟨post, q, rfl⟩
      · obtain ⟨rfl, hp⟩ := List.append_inj' hsplit rfl
        obtain rfl := (List.cons.inj hp).1
        obtain ⟨first, run, rfl, hrun, hfirst⟩ := exists_run l
        rw [kept_append, kept_eq_nil_of_marked hrun, List.append_nil,
          hl.of_append.after_kept hfirst]
        exact h first run a [] rfl hrun hfirst
      · rw [List.concat_eq_append, ← List.cons_append, ← List.append_assoc] at hsplit
        exact hl pre a post (List.append_inj' hsplit rfl).1

end Kept

end Inherit
