import MediaFlow.Lib.Runs

/-!
# Refinement between machines

A machine `C` refines a machine `A` along a relation of their states if each step of `C` is matched
by steps of `A`, none or several. Each state that `C` reaches is then related to one that `A`
reaches (`Refines.exists_reaches`), so what holds in every state of `A` can be read in the states
of `C`.
-/

universe u v

namespace Machine

variable {σ τ : Type u} {ε δ : Type v}

/-- The state after some events, from `s` on. -/
def steps (M : Machine σ ε) (s : σ) (events : List ε) : Option σ := events.foldlM M.step s

@[simp] theorem steps_nil (M : Machine σ ε) (s : σ) : M.steps s [] = some s := rfl

theorem steps_cons (M : Machine σ ε) (s : σ) (e : ε) (events : List ε) :
    M.steps s (e :: events) = (M.step s e).bind fun s' => M.steps s' events := rfl

/-- One event alone. -/
theorem steps_singleton (M : Machine σ ε) (s : σ) (e : ε) : M.steps s [e] = M.step s e := by
  rw [steps_cons]
  cases M.step s e <;> rfl

/-- A run goes on. -/
theorem Reaches.steps {M : Machine σ ε} {s s' : σ} {events : List ε} (h : M.Reaches Anyhow s)
    (hs : M.steps s events = some s') : M.Reaches Anyhow s' := by
  induction events generalizing s with
  | nil => exact Option.some.inj hs ▸ h
  | cons e events ih =>
    rw [steps_cons, Option.bind_eq_some_iff] at hs
    obtain ⟨t, ht, hs⟩ := hs
    exact ih (h.step trivial ht) hs

/-- Each step of `C` is matched by steps of `A`. -/
structure Refines (C : Machine σ ε) (A : Machine τ δ) (R : σ → τ → Prop) : Prop where
  init : R C.init A.init
  step : ∀ s t e s', R s t → C.step s e = some s' → ∃ ds t', A.steps t ds = some t' ∧ R s' t'

namespace Refines

variable {C : Machine σ ε} {A : Machine τ δ} {R : σ → τ → Prop}

/-- **What the refining machine reaches**, the other one reaches as well. -/
theorem exists_reaches (h : Refines C A R) {ok : σ → ε → Prop} {s : σ} (hs : C.Reaches ok s) :
    ∃ t, A.Reaches Anyhow t ∧ R s t := by
  refine hs.invariant (P := fun s => ∃ t, A.Reaches Anyhow t ∧ R s t) ⟨_, .init, h.init⟩ ?_
  rintro s e s' ⟨t, ht, hR⟩ - hstep
  obtain ⟨ds, t', hds, hR'⟩ := h.step s t e s' hR hstep
  exact ⟨t', ht.steps hds, hR'⟩

end Refines

end Machine
