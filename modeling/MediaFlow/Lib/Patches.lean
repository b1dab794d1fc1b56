import MediaFlow.Lib.Bytes

/-!
# Lists of patches

Patches applied to a byte string one after the other. A byte that no patch covers is kept
(`getElem?_applyAll_outside`), a byte that exactly one of them covers is that patch's
(`getElem?_applyAll_inside`), in whatever order the patches are applied.
-/

namespace ByteString

/-- Bytes to be written at an offset. -/
structure Patch where
  start : ℕ
  bytes : Bytes
deriving DecidableEq

namespace Patch

/-- The patch writes byte `i`. -/
def Covers (p : Patch) (i : ℕ) : Prop := p.start ≤ i ∧ i < p.start + p.bytes.length

instance (p : Patch) (i : ℕ) : Decidable (p.Covers i) := inferInstanceAs (Decidable (_ ∧ _))

/-- The patch lies inside a string of length `n`. -/
def Inside (n : ℕ) (p : Patch) : Prop := p.start + p.bytes.length ≤ n

/-- Apply patches in order. -/
def applyAll (l : Bytes) (ps : List Patch) : Bytes :=
  ps.foldl (fun l p => patch l p.start p.bytes) l

@[simp] theorem applyAll_nil (l : Bytes) : applyAll l [] = l := rfl

@[simp] theorem applyAll_cons (l : Bytes) (p : Patch) (ps : List Patch) :
    applyAll l (p :: ps) = applyAll (patch l p.start p.bytes) ps := rfl

theorem applyAll_append (l : Bytes) (ps qs : List Patch) :
    applyAll l (ps ++ qs) = applyAll (applyAll l ps) qs := by
  unfold applyAll
  rw [List.foldl_append]

theorem patch_nil (l : Bytes) (pos : ℕ) : patch l pos [] = l := by
  unfold patch
  rw [List.append_nil, List.length_nil, Nat.add_zero, List.take_append_drop]

theorem length_applyAll {l : Bytes} {ps : List Patch} (h : ∀ p ∈ ps, p.Inside l.length) :
    (applyAll l ps).length = l.length := by
  induction ps generalizing l with
  | nil => rfl
  | cons p ps ih =>
    have hp : (patch l p.start p.bytes).length = l.length :=
      length_patch (h p List.mem_cons_self)
    rw [applyAll_cons, ih, hp]
    intro q hq
    rw [hp]
    exact h q (List.mem_cons_of_mem p hq)

/-- A byte that no patch covers is kept. -/
theorem getElem?_applyAll_outside {l : Bytes} {ps : List Patch}
    (h : ∀ p ∈ ps, p.Inside l.length) {i : ℕ} (hout : ∀ p ∈ ps, ¬ p.Covers i) :
    (applyAll l ps)[i]? = l[i]? := by
  induction ps generalizing l with
  | nil => rfl
  | cons p ps ih =>
    have hp := h p List.mem_cons_self
    rw [applyAll_cons, ih]
    · exact (getElem?_patch hp i).trans (if_neg (hout p List.mem_cons_self))
    · intro q hq
      rw [length_patch hp]
      exact h q (List.mem_cons_of_mem p hq)
    · exact fun q hq => hout q (List.mem_cons_of_mem p hq)

/-- **A byte that exactly one patch covers** is the byte of that patch. -/
theorem getElem?_applyAll_inside {l : Bytes} {ps : List Patch}
    (h : ∀ p ∈ ps, p.Inside l.length) {i : ℕ} (hone : ps.countP (fun p => p.Covers i) = 1)
    {p : Patch} (hp : p ∈ ps) (hcov : p.Covers i) :
    (applyAll l ps)[i]? = p.bytes[i - p.start]? := by
  induction ps generalizing l with
  | nil => cases hp
  | cons q qs ih =>
    have hq := h q List.mem_cons_self
    have hqs : ∀ r ∈ qs, r.Inside (patch l q.start q.bytes).length := by
      intro r hr
      rw [length_patch hq]
      exact h r (List.mem_cons_of_mem q hr)
    rw [applyAll_cons]
    by_cases hqi : q.Covers i
    · -- the first patch is the one, no later patch writes the byte again
      rw [List.countP_cons_of_pos (by simpa using hqi)] at hone
      have hrest : ∀ r ∈ qs, ¬ r.Covers i := by
        have hzero : qs.countP (fun p => p.Covers i) = 0 := by omega
        intro r hr
        simpa using List.countP_eq_zero.mp hzero r hr
      have hpq : p = q := by
        rcases List.mem_cons.mp hp with rfl | hp
        · rfl
        · exact absurd hcov (hrest p hp)
      rw [getElem?_applyAll_outside hqs hrest, hpq]
      exact (getElem?_patch hq i).trans (if_pos hqi)
    · rw [List.countP_cons_of_neg (by simpa using hqi)] at hone
      have hpqs : p ∈ qs := by
        rcases List.mem_cons.mp hp with rfl | hp
        · exact absurd hcov hqi
        · exact hp
      exact ih hqs hone hpqs

end Patch

end ByteString
