import Mathlib.Data.List.Induction

/-!
# Runs of a machine

A machine has a state and takes a step for each event that is enabled. `Reaches M ok s` says that
some run of `M` all of whose steps meet `ok` ends in `s`. `Reaches.invariant` is the induction over
such runs, and `reaches_run` turns the replay of a list of events into a run.
-/

universe u v

/-! ### The parties of a machine, in a list -/

section Parties

variable {α : Type u} {l : List α}

/-- How many meet `p`, when the one at `i` changes from `a` to `b`. -/
theorem List.countP_set_add {p : α → Bool} {i : ℕ} {a : α} (hi : l[i]? = some a) (b : α) :
    (l.set i b).countP p + (if p a then 1 else 0) = l.countP p + if p b then 1 else 0 := by
  obtain ⟨hlt, rfl⟩ := List.getElem?_eq_some_iff.mp hi
  rw [List.countP_set hlt]
  by_cases hp : p l[i]
  · have hpos : 0 < l.countP p := List.countP_pos_iff.mpr ⟨_, List.getElem_mem hlt, hp⟩
    rw [if_pos hp]
    omega
  · rw [if_neg hp]
    rfl

/-- All but the one at `i` are what they were. -/
theorem List.forall_mem_set {P : α → Prop} {i : ℕ} {b : α} (h : ∀ a ∈ l, P a) (h' : P b) :
    ∀ a ∈ l.set i b, P a := by
  intro a ha
  rcases List.mem_or_eq_of_mem_set ha with ha | rfl
  · exact h a ha
  · exact h'

end Parties

/-! ### Machines -/

/-- `Duration::from_secs`, in nanoseconds, as all times of the machines. -/
def fromSecs (secs : ℕ) : ℕ := secs * 1000000000

/-- A machine: a first state, and what an event does in a state (`none` where it cannot happen). -/
structure Machine (σ : Type u) (ε : Type v) where
  init : σ
  step : σ → ε → Option σ

namespace Machine

variable {σ : Type u} {ε : Type v} (M : Machine σ ε)

/-- The states at the end of a run whose steps all meet `ok`, a condition on the event and the state
before it. -/
inductive Reaches (ok : σ → ε → Prop) : σ → Prop
  | init : Reaches ok M.init
  | step {s s' : σ} {e : ε} : Reaches ok s → ok s e → M.step s e = some s' → Reaches ok s'

/-- Every run, without a condition. -/
abbrev Anyhow : σ → ε → Prop := fun _ _ => True

/-- **Induction over runs.** What holds at first and is kept by the steps that meet `ok` holds at
the end of each run of such steps. -/
theorem Reaches.invariant {M : Machine σ ε} {ok : σ → ε → Prop} {P : σ → Prop}
    (first : P M.init)
    (next : ∀ s e s', P s → ok s e → M.step s e = some s' → P s')
    {s : σ} (h : M.Reaches ok s) : P s := by
  induction h with
  | init => exact first
  | step _ hok hstep ih => exact next _ _ _ ih hok hstep

theorem Reaches.mono {M : Machine σ ε} {ok ok' : σ → ε → Prop} (h : ∀ s e, ok s e → ok' s e) {s : σ}
    (hs : M.Reaches ok s) : M.Reaches ok' s :=
  hs.invariant (P := M.Reaches ok') .init fun _ _ _ ih hok hstep => .step ih (h _ _ hok) hstep

/-- The events one after the other. -/
def run (events : List ε) : Option σ := events.foldlM M.step M.init

/-- A replay that goes through is a run. -/
theorem reaches_run {M : Machine σ ε} {events : List ε} {s : σ} (h : M.run events = some s) :
    M.Reaches Anyhow s := by
  unfold run at h
  -- from the end, as a run is built
  induction events using List.reverseRecOn generalizing s with
  | nil => cases h; exact .init
  | append_singleton events e ih =>
    rw [List.foldlM_append] at h
    cases hs : events.foldlM M.step M.init with
    | none => rw [hs] at h; cases h
    | some s' =>
      rw [hs] at h
      refine .step (ih hs) trivial (e := e) ?_
      simpa using h

end Machine
