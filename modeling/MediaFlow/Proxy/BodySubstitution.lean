import MediaFlow.Lib.Loop
import MediaFlow.Lib.Occurrences
import MediaFlow.Proxy.ForwardResponse

/-!
# Substitution in request bodies

The loop of `proxy_forward` over the bytes of a request body, with the indices that it goes along:
`runSubstitution`. It ends on every body without an index out of bounds, and gives the body of
`substituteIp` (`runSubstitution_returns`).

* `substitution_exact`: the result has the address in place of the leftmost occurrences of the
  placeholder, and nothing else is changed.
-/

open Text UrlCoding ByteString Occurrences Loop

namespace MediaFlow

/-! ### The code, with its indices -/

/-- A pass of the loop. The state has the index `i` and the bytes of `out`. -/
def substitutionPass (needle replacement body : Bytes) : Body (ℕ × Bytes) Bytes
  | (i, out) =>
    if i < body.length then do
      let rest ← slice? body i body.length
      if needle.isPrefixOf rest then return .inl (i + needle.length, out ++ replacement)
      else
        let b ← body[i]?
        return .inl (i + 1, out ++ [b])
    else return .inr out

/-- The body that is sent, for a number of passes of the loop at most. -/
def runSubstitution (publicIp : Option Str) (body : Bytes) (passes : ℕ) : Run Bytes :=
  match publicIp with
  | none => pure body
  | some ip =>
    let needle := utf8 ipPlaceholder
    if body ≠ [] ∧ (windows needle.length body).any (· = needle) then
      iterate (substitutionPass needle (utf8 ip) body) passes (0, [])
    else pure body

example :
    runSubstitution (some "1.2.3.4".toList)
        (utf8 "\x7bmediaflow_\x7bmediaflow_ip\x7d\x7bmediaflow_ip".toList) 50
      = .left (utf8 "\x7bmediaflow_1.2.3.4\x7bmediaflow_ip".toList) := by
  decide +kernel

/-! ### Replacing from left to right -/

section ReplaceBytes

variable {needle replacement : Bytes}

/-- What belongs to an occurrence is passed over. -/
theorem replaceBytes_skip (skip : ℕ) (s : Bytes) :
    replaceBytes needle replacement skip s = replaceBytes needle replacement 0 (s.drop skip) := by
  induction skip generalizing s with
  | zero => rfl
  | succ skip ih =>
    cases s with
    | nil => rfl
    | cons b s => exact ih s

theorem replaceBytes_occurrence (hneedle : needle ≠ []) {s : Bytes} (h : needle <+: s) :
    replaceBytes needle replacement 0 s
      = replacement ++ replaceBytes needle replacement 0 (s.drop needle.length) := by
  obtain ⟨n, hn⟩ := Nat.exists_eq_add_of_le' (List.length_pos_of_ne_nil hneedle)
  cases s with
  | nil => exact absurd (List.prefix_nil.mp h) hneedle
  | cons b s =>
    rw [replaceBytes, if_pos (List.isPrefixOf_iff_prefix.mpr h), replaceBytes_skip, hn]
    rfl

theorem replaceBytes_cons {b : UInt8} {s : Bytes} (h : ¬ needle <+: b :: s) :
    replaceBytes needle replacement 0 (b :: s) = b :: replaceBytes needle replacement 0 s := by
  rw [replaceBytes, if_neg (mt List.isPrefixOf_iff_prefix.mp h)]

/-- Where the needle does not occur, nothing is replaced. -/
theorem replaceBytes_of_absent {s : Bytes} (h : ∀ i, ¬ OccursAt needle s i) :
    replaceBytes needle replacement 0 s = s := by
  induction s with
  | nil => rfl
  | cons b s ih => rw [replaceBytes_cons (h 0), ih fun i => h (i + 1)]

/-- What comes before the first occurrence stays. -/
theorem replaceBytes_append {gap s : Bytes}
    (h : ∀ i < gap.length, ¬ OccursAt needle (gap ++ s) i) :
    replaceBytes needle replacement 0 (gap ++ s)
      = gap ++ replaceBytes needle replacement 0 s := by
  induction gap with
  | nil => rfl
  | cons b gap ih =>
    have hfirst : ¬ needle <+: b :: (gap ++ s) := h 0 (Nat.succ_pos _)
    have hrest : ∀ i < gap.length, ¬ OccursAt needle (gap ++ s) i := fun i hi =>
      h (i + 1) (Nat.succ_lt_succ hi)
    rw [List.cons_append, replaceBytes_cons hfirst, ih hrest, List.cons_append]

/-- **The replacement is in the gaps** where the needle was. -/
theorem replaceBytes_eq_intercalate (hneedle : needle ≠ []) {s : Bytes} {gaps : List Bytes}
    (h : LeftmostGaps needle s gaps) :
    replaceBytes needle replacement 0 s = replacement.intercalate gaps := by
  induction h with
  | last habsent => rw [replaceBytes_of_absent habsent, List.intercalate_singleton]
  | @occurrence gap rest gaps hfirst hrest ih =>
    have hprefix : needle <+: needle ++ rest := List.prefix_append needle rest
    rw [replaceBytes_append hfirst, replaceBytes_occurrence hneedle hprefix, List.drop_left, ih,
      List.intercalate_cons_of_ne_nil hrest.ne_nil, List.append_assoc]

end ReplaceBytes

/-! ### The loop -/

/-- What has been written, and what the rest of the body will give. -/
def pendingBody (needle replacement body : Bytes) (st : ℕ × Bytes) : Bytes :=
  st.2 ++ replaceBytes needle replacement 0 (body.drop st.1)

/-- **A pass** goes on behind what it has read, and the result stays the same. -/
theorem substitutionPass_step {needle : Bytes} (hneedle : needle ≠ []) (replacement body : Bytes)
    (st : ℕ × Bytes) :
    (∃ st', substitutionPass needle replacement body st = some (.inl st') ∧
        pendingBody needle replacement body st' = pendingBody needle replacement body st ∧
        body.length - st'.1 < body.length - st.1) ∨
      substitutionPass needle replacement body st
        = some (.inr (pendingBody needle replacement body st)) := by
  obtain ⟨i, out⟩ := st
  have hpos : 0 < needle.length := List.length_pos_of_ne_nil hneedle
  unfold substitutionPass pendingBody
  dsimp only
  by_cases hi : i < body.length
  · left
    have hslice : slice? body i body.length = some (body.drop i) := by
      rw [slice?_of_le hi.le le_rfl, List.take_of_length_le List.length_drop.le]
    rw [if_pos hi, hslice]
    simp only [Option.bind_eq_bind, Option.bind_some]
    by_cases hprefix : needle <+: body.drop i
    · rw [if_pos (List.isPrefixOf_iff_prefix.mpr hprefix)]
      refine ⟨(i + needle.length, out ++ replacement), rfl, ?_, by dsimp only; omega⟩
      rw [replaceBytes_occurrence hneedle hprefix, List.drop_drop, List.append_assoc]
    · rw [if_neg (mt List.isPrefixOf_iff_prefix.mp hprefix), List.getElem?_eq_getElem hi]
      refine ⟨(i + 1, out ++ [body[i]]), rfl, ?_, by dsimp only; omega⟩
      rw [List.drop_eq_getElem_cons hi] at hprefix ⊢
      rw [replaceBytes_cons hprefix, List.append_assoc, List.singleton_append]
  · right
    rw [if_neg hi, List.drop_eq_nil_of_le (not_lt.mp hi), replaceBytes, List.append_nil]
    rfl

/-- **The loop** ends, with all occurrences replaced. -/
theorem iterate_substitutionPass {needle : Bytes} (hneedle : needle ≠ [])
    (replacement body : Bytes) :
    Returns (fun passes => iterate (substitutionPass needle replacement body) passes (0, []))
      (replaceBytes needle replacement 0 body) := by
  exact iterate_returns (fun st => body.length - st.1)
    (substitutionPass_step hneedle replacement body) (0, [])

theorem utf8_ipPlaceholder_ne_nil : utf8 ipPlaceholder ≠ [] := by decide

/-- **The code ends** on every body, with the one that `proxyForward` sends. -/
theorem runSubstitution_returns (publicIp : Option Str) (destination : Str) (body : Bytes) :
    Returns (runSubstitution publicIp body) (substituteIp publicIp destination body).2 := by
  cases publicIp with
  | none => exact returns_pure body
  | some ip =>
    show Returns (runSubstitution (some ip) body)
      (replaceBytes (utf8 ipPlaceholder) (utf8 ip) 0 body)
    unfold runSubstitution
    dsimp only
    split
    · exact iterate_substitutionPass utf8_ipPlaceholder_ne_nil (utf8 ip) body
    · next hguard =>
      have habsent : ∀ i, ¬ OccursAt (utf8 ipPlaceholder) body i := by
        intro i hi
        obtain ⟨rest, hbody, -, -⟩ := hi.exists_eq utf8_ipPlaceholder_ne_nil
        have hne : body ≠ [] := by
          rw [hbody]
          simp [utf8_ipPlaceholder_ne_nil]
        have hwindow := (mem_windows_iff utf8_ipPlaceholder_ne_nil).mpr ⟨i, hi⟩
        exact hguard ⟨hne, List.any_eq_true.mpr ⟨_, hwindow, decide_eq_true rfl⟩⟩
      rw [replaceBytes_of_absent habsent]
      exact returns_pure body

/-- **The substitution is exact.** There is one way to take the occurrences of the placeholder from
left to right; the code ends with the address in their places, and with the same body where there
are none. -/
theorem substitution_exact (ip : Str) (body : Bytes) :
    (∃! gaps, LeftmostGaps (utf8 ipPlaceholder) body gaps) ∧
      (∀ gaps, LeftmostGaps (utf8 ipPlaceholder) body gaps →
        (utf8 ipPlaceholder).intercalate gaps = body ∧
          Returns (runSubstitution (some ip) body) ((utf8 ip).intercalate gaps)) ∧
      ((∀ i, ¬ OccursAt (utf8 ipPlaceholder) body i) →
        Returns (runSubstitution (some ip) body) body) := by
  have hreturns : Returns (runSubstitution (some ip) body)
      (replaceBytes (utf8 ipPlaceholder) (utf8 ip) 0 body) :=
    runSubstitution_returns (some ip) [] body
  refine ⟨existsUnique_leftmostGaps utf8_ipPlaceholder_ne_nil body, ?_, ?_⟩
  · intro gaps hgaps
    rw [replaceBytes_eq_intercalate utf8_ipPlaceholder_ne_nil hgaps] at hreturns
    exact ⟨hgaps.intercalate_eq, hreturns⟩
  · intro habsent
    rwa [replaceBytes_of_absent habsent] at hreturns

end MediaFlow
