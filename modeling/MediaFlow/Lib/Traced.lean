import MediaFlow.Lib.Emit

/-!
# Traced steps

A step that may abort and that changes a state in passing is *traced* by a list of events when,
from whatever state it starts, it succeeds exactly when there is such a list, and then has changed
the state by these events in order. The events do not depend on the state, so what a traced step
does can be read off its input.

The state is seen through `p` before the step and through `q` after it: steps may carry more than
the state that is traced. `Traced` is closed under sequencing and under the loops over lists.
-/

namespace Emit

variable {σ ε τ ρ ρ' α β : Type*}

/-- From every state, `f` succeeds exactly when there is a trace, and then changes the state by its
events. -/
def Traced (apply : σ → ε → σ) (p : τ → σ) (q : ρ → σ) (f : τ → Option ρ)
    (trace : Option (List ε)) : Prop :=
  ∀ t, (f t).map q = trace.map fun events => events.foldl apply (p t)

/-- The traces of the elements of a list, one after the other. -/
def traceAll (trace : α → Option (List ε)) : List α → Option (List ε)
  | [] => some []
  | a :: as => do return (← trace a) ++ (← traceAll trace as)

namespace Traced

variable {apply : σ → ε → σ} {p : τ → σ} {q : ρ → σ} {q' : ρ' → σ}

theorem intro {f : τ → Option ρ} {tr : Option (List ε)}
    (h : ∀ t, (f t).map q = tr.map fun events => events.foldl apply (p t)) :
    Traced apply p q f tr := h

theorem eq {f : τ → Option ρ} {tr : Option (List ε)} (hf : Traced apply p q f tr) (t : τ) :
    (f t).map q = tr.map fun events => events.foldl apply (p t) := hf t

/-- A step without an event. -/
theorem skip {f : τ → ρ} (h : ∀ t, q (f t) = p t) :
    Traced apply p q (fun t => some (f t)) (some []) :=
  fun t => congrArg some (h t)

/-- A step with one event. -/
theorem event {f : τ → ρ} {e : ε} (h : ∀ t, q (f t) = apply (p t) e) :
    Traced apply p q (fun t => some (f t)) (some [e]) :=
  fun t => congrArg some (h t)

theorem bind {f : τ → Option ρ} {g : ρ → Option ρ'} {tr tr' : Option (List ε)}
    (hf : Traced apply p q f tr) (hg : Traced apply q q' g tr') :
    Traced apply p q' (fun t => (f t).bind g) (do return (← tr) ++ (← tr')) := by
  intro t
  have h := hf t
  simp only [Option.bind_eq_bind, Option.pure_def]
  cases hft : f t with
  | none =>
    cases tr with
    | none => rfl
    | some es => rw [hft] at h; cases h
  | some r =>
    cases tr with
    | none => rw [hft] at h; cases h
    | some es =>
      rw [hft, Option.map_some, Option.map_some, Option.some.injEq] at h
      rw [Option.bind_some, Option.bind_some, hg r]
      cases tr' with
      | none => rfl
      | some es' =>
        rw [Option.map_some, Option.bind_some, Option.map_some, List.foldl_append, h]

/-- A part that only changes what is carried beside the state. -/
theorem map {f : τ → Option ρ} {g : ρ → ρ'} {tr : Option (List ε)}
    (hf : Traced apply p q f tr) (hg : ∀ r, q' (g r) = q r) :
    Traced apply p q' (fun t => (f t).map g) tr := by
  intro t
  rw [Option.map_map, ← hf t]
  exact congrArg (fun k => (f t).map k) (funext hg)

theorem emitAll {step : τ → α → Option (List β × τ)} {trace : α → Option (List ε)}
    (h : ∀ a, Traced apply p (fun r => p r.2) (fun t => step t a) (trace a)) (as : List α) :
    Traced apply p (fun r => p r.2) (fun t => emitAll step t as) (traceAll trace as) := by
  induction as with
  | nil => exact skip fun _ => rfl
  | cons a as ih =>
    -- the rest of the loop, run from what the first element has left
    have hrest : Traced apply (fun r : List β × τ => p r.2) (fun r : List β × τ => p r.2)
        (fun r => (Emit.emitAll step r.2 as).map fun out => (r.1 ++ out.1, out.2))
        (traceAll trace as) := by
      intro r
      rw [← ih r.2, Option.map_map]
      rfl
    intro t
    rw [traceAll, ← (h a).bind hrest t]
    cases hstep : step t a with
    | none => simp only [Emit.emitAll, hstep]; rfl
    | some r =>
      cases hloop : Emit.emitAll step r.2 as <;> simp [Emit.emitAll, hstep, hloop]

theorem foldlM {step : τ → α → Option τ} {trace : α → Option (List ε)}
    (h : ∀ a, Traced apply p p (fun t => step t a) (trace a)) (as : List α) :
    Traced apply p p (fun t => as.foldlM step t) (traceAll trace as) := by
  induction as with
  | nil => exact skip fun _ => rfl
  | cons a as ih => exact (h a).bind ih

/-- A traced step that succeeds has a trace. -/
theorem eq_some {f : τ → Option ρ} {tr : Option (List ε)} (hf : Traced apply p q f tr) {t : τ}
    {r : ρ} (h : f t = some r) : ∃ es, tr = some es ∧ q r = es.foldl apply (p t) := by
  have hft := hf t
  rw [h] at hft
  cases tr with
  | none => cases hft
  | some es => exact ⟨es, rfl, Option.some.inj hft⟩

end Traced

/-- The last value that an event of the list gives. -/
def lastGiven (give : ε → Option α) (events : List ε) : Option α := (events.filterMap give).getLast?

/-- A part of the state that every event either gives or leaves is what the last event that gives it
gives. -/
theorem foldl_lastGiven {apply : σ → ε → σ} (part : σ → α) {give : ε → Option α}
    (h : ∀ s e, part (apply s e) = (give e).getD (part s)) (events : List ε) (s : σ) :
    part (events.foldl apply s) = (lastGiven give events).getD (part s) := by
  induction events generalizing s with
  | nil => rfl
  | cons e rest ih =>
    rw [List.foldl_cons, ih, h]
    unfold lastGiven
    cases hgive : give e with
    | none => rw [List.filterMap_cons_none hgive, Option.getD_none]
    | some a =>
      rw [List.filterMap_cons_some hgive, List.getLast?_cons, Option.getD_some, Option.getD_some]

end Emit
