import Mathlib.Logic.Function.Basic
import Mathlib.Order.Nat
import MediaFlow.Lib.Refinement

/-!
# Stores that are filled from elsewhere

What a cache is for, whoever fills it and whoever reads it. Requests of a type `ρ` are answered from
elsewhere with values of a type `β`, and each answer is noted (`Load`). An answer may be kept in the
store, at once or later, under the key of its request; it may be dropped at any time; and a request
that finds something under its own key, not too old, is answered from the store (`Hit`).

`filledStore_hits`: each hit is an earlier answer to a request with the same key, kept less than the
time to live before. A cache is shown to behave so by a refinement (`Machine.Refines`).
-/

open Function (update)

variable {ρ κ β : Type*}

/-- An answer from elsewhere. -/
structure Load (ρ β : Type*) where
  request : ρ
  value : β
  atTime : ℕ

/-- An answer from the store, kept there since `stored`. -/
structure Hit (ρ β : Type*) where
  request : ρ
  value : β
  stored : ℕ
  atTime : ℕ

structure FilledStore (ρ κ β : Type*) where
  now : ℕ
  /-- With the time at which it was kept. -/
  entries : κ → Option (β × ℕ)
  loads : List (Load ρ β)
  hits : List (Hit ρ β)

inductive FillEvent (ρ κ β : Type*)
  | elapse (d : ℕ)
  | load (request : ρ) (value : β)
  /-- The answer with this number is kept. -/
  | keep (n : ℕ)
  | drop (key : κ)
  | hit (request : ρ)

/-- Not older than it may be; `none` for no limit. -/
def Live (timeToLive : Option ℕ) (stored now : ℕ) : Prop := ∀ d ∈ timeToLive, now < stored + d

theorem live_none (stored now : ℕ) : Live none stored now := fun _ h => nomatch h

instance (timeToLive : Option ℕ) (stored now : ℕ) : Decidable (Live timeToLive stored now) := by
  unfold Live
  infer_instance

namespace FilledStore

variable [DecidableEq κ] (key : ρ → κ) (timeToLive : Option ℕ) (s : FilledStore ρ κ β)

/-- What an event does, `none` where it cannot happen now. -/
def step : FillEvent ρ κ β → Option (FilledStore ρ κ β)
  | .elapse d => some { s with now := s.now + d }
  | .load r v => some { s with loads := s.loads ++ [⟨r, v, s.now⟩] }
  | .keep n =>
    (s.loads[n]?).map fun l => { s with entries := update s.entries (key l.request) (some (l.value, s.now)) }
  | .drop k => some { s with entries := update s.entries k none }
  | .hit r =>
    ((s.entries (key r)).filter fun e => Live timeToLive e.2 s.now).map fun e =>
      { s with hits := s.hits ++ [⟨r, e.1, e.2, s.now⟩] }

/-- An answer from elsewhere to a request with the key `k`, at or before `t`. -/
def Loaded (k : κ) (v : β) (t : ℕ) : Prop :=
  ∃ l ∈ s.loads, key l.request = k ∧ l.value = v ∧ l.atTime ≤ t

/-- A hit is what it should be. -/
def Sound (h : Hit ρ β) : Prop :=
  s.Loaded key (key h.request) h.value h.stored ∧ h.stored ≤ h.atTime ∧
    Live timeToLive h.stored h.atTime

/-- The invariant. -/
structure Filled : Prop where
  past : ∀ l ∈ s.loads, l.atTime ≤ s.now
  kept : ∀ k v t, s.entries k = some (v, t) → s.Loaded key k v t ∧ t ≤ s.now
  hits : ∀ h ∈ s.hits, s.Sound key timeToLive h

variable {key timeToLive s} {s' : FilledStore ρ κ β}

omit [DecidableEq κ] in
/-- Answers stay noted. -/
theorem Loaded.mono (hl : ∀ l ∈ s.loads, l ∈ s'.loads) {k : κ} {v : β} {t : ℕ}
    (h : s.Loaded key k v t) : s'.Loaded key k v t := by
  obtain ⟨l, hmem, hrest⟩ := h
  exact ⟨l, hl l hmem, hrest⟩

omit [DecidableEq κ] in
theorem Sound.mono (hl : ∀ l ∈ s.loads, l ∈ s'.loads) {h : Hit ρ β}
    (hs : s.Sound key timeToLive h) : s'.Sound key timeToLive h :=
  ⟨hs.1.mono hl, hs.2⟩

omit [DecidableEq κ] in
theorem filled_new :
    (⟨0, fun _ => none, [], []⟩ : FilledStore ρ κ β).Filled key timeToLive where
  past _ h := nomatch h
  kept _ _ _ h := nomatch h
  hits _ h := nomatch h

theorem Filled.step {e : FillEvent ρ κ β} (h : s.Filled key timeToLive)
    (hstep : s.step key timeToLive e = some s') : s'.Filled key timeToLive := by
  cases e with
  | elapse d =>
    cases hstep
    exact {
      past := fun l hl => (h.past l hl).trans (Nat.le_add_right _ _)
      kept := fun k v t ht =>
        (h.kept k v t ht).imp_right fun hle => hle.trans (Nat.le_add_right _ _)
      hits := h.hits }
  | load r v =>
    cases hstep
    have hmono : ∀ l ∈ s.loads, l ∈ s.loads ++ [⟨r, v, s.now⟩] := fun l => List.mem_append_left _
    refine ⟨?_, fun k v' t ht => (h.kept k v' t ht).imp_left fun hl => hl.mono hmono,
      fun x hx => (h.hits x hx).mono hmono⟩
    intro l hl
    rcases List.mem_append.mp hl with hl | hl
    · exact h.past l hl
    · obtain rfl := List.mem_singleton.mp hl
      exact le_refl s.now
  | keep n =>
    obtain ⟨l, hl, rfl⟩ := Option.map_eq_some_iff.mp hstep
    have hmem := List.mem_of_getElem? hl
    refine ⟨h.past, fun k v t ht => ?_, h.hits⟩
    by_cases hk : k = key l.request
    · -- the answer that is kept is noted, and not later than now
      subst hk
      cases (Function.update_self ..).symm.trans ht
      exact ⟨⟨l, hmem, rfl, rfl, h.past l hmem⟩, le_refl s.now⟩
    · exact h.kept k v t ((Function.update_of_ne hk _ _).symm.trans ht)
  | drop k =>
    cases hstep
    refine ⟨h.past, fun k' v t ht => ?_, h.hits⟩
    by_cases hk : k' = k
    · subst hk
      exact absurd ((Function.update_self ..).symm.trans ht) nofun
    · exact h.kept k' v t ((Function.update_of_ne hk _ _).symm.trans ht)
  | hit r =>
    obtain ⟨e, he, rfl⟩ := Option.map_eq_some_iff.mp hstep
    obtain ⟨hentry, hlive⟩ := Option.filter_eq_some_iff.mp he
    refine ⟨h.past, h.kept, fun x hx => ?_⟩
    rcases List.mem_append.mp hx with hx | hx
    · exact h.hits x hx
    · obtain rfl := List.mem_singleton.mp hx
      obtain ⟨hloaded, hle⟩ := h.kept _ e.1 e.2 hentry
      exact ⟨hloaded, hle, of_decide_eq_true hlive⟩

end FilledStore

/-- The store, empty at first. -/
def filledStore [DecidableEq κ] (key : ρ → κ) (timeToLive : Option ℕ) :
    Machine (FilledStore ρ κ β) (FillEvent ρ κ β) :=
  ⟨⟨0, fun _ => none, [], []⟩, fun s e => s.step key timeToLive e⟩

section Steps

variable [DecidableEq κ] {key : ρ → κ} {timeToLive : Option ℕ} {s : FilledStore ρ κ β}

theorem filledStore_keep {l : Load ρ β} {n : ℕ} (h : s.loads[n]? = some l) :
    (filledStore key timeToLive).step s (.keep n) =
      some { s with entries := update s.entries (key l.request) (some (l.value, s.now)) } :=
  congrArg (Option.map _) h

theorem filledStore_hit {r : ρ} {v : β} {t : ℕ} (h : s.entries (key r) = some (v, t))
    (hl : Live timeToLive t s.now) :
    (filledStore key timeToLive).step s (.hit r) =
      some { s with hits := s.hits ++ [⟨r, v, t, s.now⟩] } :=
  congrArg (Option.map _) (Option.filter_eq_some_iff.mpr ⟨h, decide_eq_true hl⟩)

end Steps

theorem filledStore_filled [DecidableEq κ] {key : ρ → κ} {timeToLive : Option ℕ}
    {s : FilledStore ρ κ β} (h : (filledStore key timeToLive).Reaches Machine.Anyhow s) :
    s.Filled key timeToLive :=
  h.invariant (P := FilledStore.Filled key timeToLive) FilledStore.filled_new
    fun _ _ _ ih _ hstep => FilledStore.Filled.step ih hstep

/-- **What a hit is.** -/
theorem filledStore_hits [DecidableEq κ] {key : ρ → κ} {timeToLive : Option ℕ}
    {s : FilledStore ρ κ β} (h : (filledStore key timeToLive).Reaches Machine.Anyhow s) :
    ∀ x ∈ s.hits, s.Sound key timeToLive x :=
  (filledStore_filled h).hits
