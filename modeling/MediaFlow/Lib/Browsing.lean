import Mathlib.Data.List.Basic
import MediaFlow.Lib.Refinement

/-!
# Following links

A client has links, and follows any of them at any time; what it does for that is noted, and what it
gets holds further links. `browsing_refines`: one client does what another does, if each visit of it is
one of the other, or is nothing, with links that stand for links of the other. The argument is about
one visit; how far the client goes does not matter.
-/

universe u v w

variable {ℓ ℓ' : Type u} {ε ε' : Type v} {α : Type w}

/-- What following a link gives. -/
structure Visited (ℓ : Type u) (α : Type w) where
  noted : List α
  links : List ℓ

/-- A client: the links that it has, and what it did. -/
structure Browser (ℓ : Type u) (α : Type w) where
  known : List ℓ
  log : List α

/-- A visit that gives nothing. -/
def Visited.nothing : Visited ℓ α := ⟨[], []⟩

def Browser.after (s : Browser ℓ α) (r : Visited ℓ α) : Browser ℓ α where
  known := s.known ++ r.links
  log := s.log ++ r.noted

/-- The client that has one link at first. An event is the number of a link, with how it is
followed. -/
def browsing (first : ℓ) (visit : ℓ → ε → Visited ℓ α) : Machine (Browser ℓ α) (ℕ × ε) where
  init := ⟨[first], []⟩
  step s e := (s.known[e.1]?).map fun link => s.after (visit link e.2)

/-- Each link stands for one of the other client, and both did the same. -/
structure Browser.Follows (R : ℓ → ℓ' → Prop) (s : Browser ℓ α) (t : Browser ℓ' α) : Prop where
  known : ∀ link ∈ s.known, ∃ link' ∈ t.known, R link link'
  log : s.log = t.log

/-- A visit that may be one of the other client. -/
structure Visited.Follows (R : ℓ → ℓ' → Prop) (r : Visited ℓ α) (r' : Visited ℓ' α) : Prop where
  links : ∀ link ∈ r.links, ∃ link' ∈ r'.links, R link link'
  noted : r.noted = r'.noted

variable {R : ℓ → ℓ' → Prop} {first : ℓ} {first' : ℓ'} {visit : ℓ → ε → Visited ℓ α}
  {visit' : ℓ' → ε' → Visited ℓ' α}

theorem Browser.Follows.after {s : Browser ℓ α} {t : Browser ℓ' α} (h : s.Follows R t)
    {r : Visited ℓ α} {r' : Visited ℓ' α} (hr : r.Follows R r') :
    (s.after r).Follows R (t.after r') where
  known link hlink := by
    rcases List.mem_append.mp hlink with hlink | hlink
    · exact (h.known link hlink).imp fun _ h' => h'.imp_left (List.mem_append_left _)
    · exact (hr.links link hlink).imp fun _ h' => h'.imp_left (List.mem_append_right _)
  log := congrArg₂ (· ++ ·) h.log hr.noted

/-- **Both clients do the same**, if each visit of one is a visit of the other, or is nothing. -/
theorem browsing_refines (hfirst : R first first')
    (hvisit : ∀ link link' e, R link link' →
      visit link e = .nothing ∨ ∃ e', (visit link e).Follows R (visit' link' e')) :
    (browsing first visit).Refines (browsing first' visit') (Browser.Follows R) where
  init :=
    { known := fun link hlink => by
        rw [List.mem_singleton.mp hlink]
        exact ⟨first', List.mem_singleton_self _, hfirst⟩
      log := rfl }
  step s t e s' hst hstep := by
    obtain ⟨link, hlink, rfl⟩ := Option.map_eq_some_iff.mp hstep
    obtain ⟨link', hmem, hR⟩ := hst.known link (List.mem_of_getElem? hlink)
    rcases hvisit link link' e.2 hR with hnothing | ⟨e', hfollows⟩
    · -- the other client does nothing either
      refine ⟨[], t, rfl, ?_⟩
      rw [hnothing]
      unfold Browser.after Visited.nothing
      rw [List.append_nil, List.append_nil]
      exact hst
    · obtain ⟨n, hn⟩ := List.mem_iff_getElem?.mp hmem
      refine ⟨[(n, e')], t.after (visit' link' e'), ?_, hst.after hfollows⟩
      rw [Machine.steps_singleton]
      exact congrArg (Option.map _) hn
