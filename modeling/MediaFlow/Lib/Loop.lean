import Mathlib.Order.Nat

/-!
# Loops

A loop is given by its body: a pass goes on with a new state, leaves the loop, or aborts. A program
with loops is run for a number of passes (`Run`, `iterate`), and it returns a value if every number
that is large enough gives this value (`Returns`). So a program that does not end returns nothing,
and one that aborts does not either.

* `iterate_returns`: the rule for a loop, with the value that it is on the way to and a variant;
* `Returns.bind`: one part of a program after the other.
-/

namespace Loop

universe u v

/-- What has become of a program after some passes. -/
inductive Run (α : Type u)
  | running
  | aborted
  | left (value : α)
deriving DecidableEq

namespace Run

variable {α β : Type u}

def bind (r : Run α) (f : α → Run β) : Run β :=
  match r with
  | running => running
  | aborted => aborted
  | left a => f a

instance : Monad Run where
  pure := left
  bind := bind

instance : LawfulMonad Run := LawfulMonad.mk' Run
  (fun r => by cases r <;> rfl) (fun _ _ => rfl) (fun r _ _ => by cases r <;> rfl)

/-- An operation that aborts where it has no value. -/
def ofOption : Option α → Run α
  | some a => left a
  | none => aborted

@[simp] theorem ofOption_some (a : α) : ofOption (some a) = pure a := rfl

end Run

/-- What a pass of a loop does; `none` where it aborts. -/
abbrev Body (σ : Type v) (α : Type u) := σ → Option (σ ⊕ α)

section Iterate

variable {σ : Type v} {α β : Type u}

/-- The loop, for a number of passes at most. -/
def iterate (body : Body σ α) : ℕ → σ → Run α
  | 0, _ => .running
  | passes + 1, s =>
    match body s with
    | none => .aborted
    | some (.inl s') => iterate body passes s'
    | some (.inr a) => .left a

/-- The program ends with this value, however many passes more it is given. -/
def Returns (program : ℕ → Run α) (value : α) : Prop :=
  ∃ enough, ∀ passes ≥ enough, program passes = .left value

theorem returns_pure (a : α) : Returns (fun _ => (pure a : Run α)) a := ⟨0, fun _ _ => rfl⟩

/-- One part of a program after the other. -/
theorem Returns.bind {program : ℕ → Run α} {next : ℕ → α → Run β} {a : α} {b : β}
    (ha : Returns program a) (hb : Returns (fun passes => next passes a) b) :
    Returns (fun passes => program passes >>= next passes) b := by
  obtain ⟨m, hm⟩ := ha
  obtain ⟨n, hn⟩ := hb
  refine ⟨max m n, fun passes hpasses => ?_⟩
  show (program passes).bind (next passes) = .left b
  rw [hm passes ((le_max_left m n).trans hpasses)]
  exact hn passes ((le_max_right m n).trans hpasses)

/-- **The loop rule.** A value is pending in each state. Where a pass goes on with the same value
pending and a smaller rank, or leaves with it, the loop returns this value. -/
theorem iterate_returns {body : Body σ α} {pending : σ → α} (rank : σ → ℕ)
    (hpass : ∀ s, (∃ s', body s = some (.inl s') ∧ pending s' = pending s ∧ rank s' < rank s) ∨
      body s = some (.inr (pending s))) (s : σ) :
    Returns (fun passes => iterate body passes s) (pending s) := by
  -- strong induction on the rank, as a pass may lower it by any amount
  induction hrank : rank s using Nat.strongRecOn generalizing s with
  | ind n ih =>
    subst hrank
    obtain ⟨s', hbody, hpending, hlt⟩ | hbody := hpass s
    · obtain ⟨enough, hreturns⟩ := ih (rank s') hlt s' rfl
      refine ⟨enough + 1, fun passes hpasses => ?_⟩
      obtain ⟨passes, rfl⟩ := Nat.exists_eq_add_of_le' (Nat.one_le_of_lt hpasses)
      show iterate body (passes + 1) s = _
      rw [iterate, hbody, ← hpending]
      exact hreturns passes (Nat.le_of_succ_le_succ hpasses)
    · refine ⟨1, fun passes hpasses => ?_⟩
      obtain ⟨passes, rfl⟩ := Nat.exists_eq_add_of_le' hpasses
      show iterate body (passes + 1) s = _
      rw [iterate, hbody]

end Iterate

end Loop
