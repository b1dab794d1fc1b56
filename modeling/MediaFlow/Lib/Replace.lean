import MediaFlow.Lib.Text

/-!
# Replacing in texts

`Text.replace` for a single character is a pass over the characters; and where a text is written in
tokens, one of them a fixed text and the others plain characters, the occurrences of a pattern
without the first character of the fixed text are found among the plain ones (`render_eq_append`).
So a replacement keeps the number of the fixed texts (`exists_replace_render`), and they can be
counted in what is written (`countMatches_render`).
-/

namespace Text

/-! ### Rules for `replace` -/

section Replace

variable {pat new : Str}

/-- What belongs to an occurrence is passed over. -/
theorem replaceFrom_append (u s : Str) :
    replaceFrom pat new u.length (u ++ s) = replaceFrom pat new 0 s := by
  induction u with
  | nil => rfl
  | cons c u ih => exact ih

theorem replace_append (h : pat ≠ []) (s : Str) : replace pat new (pat ++ s) = new ++ replace pat
    new s := by
  cases pat with
  | nil => exact absurd rfl h
  | cons c pat =>
    have hfirst : (c :: pat).isPrefixOf (c :: (pat ++ s)) = true :=
      List.isPrefixOf_iff_prefix.mpr (List.prefix_append (c :: pat) s)
    unfold replace
    rw [List.cons_append, replaceFrom, if_pos hfirst]
    exact congrArg (new ++ ·) (replaceFrom_append pat s)

theorem replace_cons {c : Char} {s : Str} (h : ¬ pat <+: c :: s) :
    replace pat new (c :: s) = c :: replace pat new s := by
  unfold replace
  rw [replaceFrom, if_neg (mt List.isPrefixOf_iff_prefix.mp h)]

theorem replace_of_absent {s : Str} (h : ¬ pat <:+: s) : replace pat new s = s := by
  induction s with
  | nil => rfl
  | cons c s ih =>
    rw [List.infix_cons_iff, not_or] at h
    rw [replace_cons h.1, ih h.2]

theorem length_lt_length_append (hpat : pat ≠ []) (s : Str) : s.length < (pat ++ s).length := by
  rw [List.length_append]
  exact Nat.lt_add_of_pos_left (List.length_pos_of_ne_nil hpat)

/-- Replacing a pattern with itself changes nothing. -/
theorem replace_self (hpat : pat ≠ []) (s : Str) : replace pat pat s = s := by
  by_cases hprefix : pat <+: s
  · obtain ⟨s, rfl⟩ := hprefix
    have hshorter := length_lt_length_append hpat s
    rw [replace_append hpat, replace_self hpat s]
  · cases s with
    | nil => rfl
    | cons c s => rw [replace_cons hprefix, replace_self hpat s]
termination_by s.length

theorem replace_singleton {c : Char} (s : Str) :
    replace [c] new s = s.flatMap fun d => if d = c then new else [d] := by
  induction s with
  | nil => rfl
  | cons d s ih =>
    rw [List.flatMap_cons, ← ih]
    by_cases hd : d = c
    · rw [if_pos hd, hd]
      exact replace_append (List.cons_ne_nil c []) s
    · rw [if_neg hd]
      refine replace_cons fun h => hd ?_
      exact ((List.cons_prefix_cons.mp h).1).symm

end Replace

/-! ### Counting -/

/-- `str::matches(pat).count()` for a pattern that is not empty, after `skip` characters that belong
to an occurrence. -/
def countMatchesFrom (pat : Str) : ℕ → Str → ℕ
  | _, [] => 0
  | skip + 1, _ :: s => countMatchesFrom pat skip s
  | 0, c :: s =>
    if pat.isPrefixOf (c :: s) then 1 + countMatchesFrom pat (pat.length - 1) s
    else countMatchesFrom pat 0 s

def countMatches (pat s : Str) : ℕ := countMatchesFrom pat 0 s

section Count

variable {pat : Str}

theorem countMatchesFrom_append (u s : Str) :
    countMatchesFrom pat u.length (u ++ s) = countMatchesFrom pat 0 s := by
  induction u with
  | nil => rfl
  | cons c u ih => exact ih

theorem countMatches_append (h : pat ≠ []) (s : Str) :
    countMatches pat (pat ++ s) = 1 + countMatches pat s := by
  cases pat with
  | nil => exact absurd rfl h
  | cons c pat =>
    have hfirst : (c :: pat).isPrefixOf (c :: (pat ++ s)) = true :=
      List.isPrefixOf_iff_prefix.mpr (List.prefix_append (c :: pat) s)
    unfold countMatches
    rw [List.cons_append, countMatchesFrom, if_pos hfirst]
    exact congrArg (1 + ·) (countMatchesFrom_append pat s)

theorem countMatches_cons {c : Char} {s : Str} (h : ¬ pat <+: c :: s) :
    countMatches pat (c :: s) = countMatches pat s := by
  unfold countMatches
  rw [countMatchesFrom, if_neg (mt List.isPrefixOf_iff_prefix.mp h)]

end Count

/-! ### Texts in tokens -/

/-- The text of a list of tokens: `none` is `wild`, all others stand for themselves. -/
def render (wild : Str) (ts : List (Option Char)) : Str :=
  ts.flatMap fun t => t.elim wild fun c => [c]

section Render

variable {wild : Str} {ts : List (Option Char)}

@[simp] theorem render_cons_none : render wild (none :: ts) = wild ++ render wild ts := rfl

@[simp] theorem render_cons_some {c : Char} : render wild (some c :: ts) = c :: render wild ts :=
    rfl

theorem render_map_some {s : Str} : render wild (s.map some ++ ts) = s ++ render wild ts := by
  induction s with
  | nil => rfl
  | cons c s ih => exact congrArg (c :: ·) ih

variable {w p : Char} {rest pat new : Str}

/-- A beginning without the first character of `wild` is written in plain characters. -/
theorem render_eq_append (hpat : w ∉ pat) {s : Str} (h : render (w :: rest) ts = pat ++ s) :
    ∃ ts', ts = pat.map some ++ ts' ∧ s = render (w :: rest) ts' := by
  induction pat generalizing ts with
  | nil => exact ⟨ts, rfl, h.symm⟩
  | cons c pat ih =>
    obtain ⟨hc, hrest⟩ : w ≠ c ∧ w ∉ pat := by
      rwa [List.mem_cons, not_or] at hpat
    match ts, h with
    | none :: ts, h => exact absurd (List.cons.inj h).1 hc
    | some d :: ts, h =>
      obtain ⟨hd, hts⟩ := List.cons.inj h
      obtain ⟨ts', rfl, hs⟩ := ih hrest hts
      exact ⟨ts', hd ▸ rfl, hs⟩

/-- No occurrence begins where the first character of the pattern does not occur. -/
theorem replace_append_of_not_mem {u : Str} (hu : p ∉ u) (s : Str) :
    replace (p :: pat) new (u ++ s) = u ++ replace (p :: pat) new s := by
  induction u with
  | nil => rfl
  | cons d u ih =>
    obtain ⟨hd, hrest⟩ : p ≠ d ∧ p ∉ u := by
      rwa [List.mem_cons, not_or] at hu
    have hnot : ¬ p :: pat <+: d :: (u ++ s) := fun h => hd (List.cons_prefix_cons.mp h).1
    exact (replace_cons hnot).trans (congrArg (d :: ·) (ih hrest))

/-- A pattern with a character that is not among the tokens does not occur. -/
theorem replace_render_of_not_mem (hpat : w ∉ p :: pat) (hp : p ∉ w :: rest) {c : Char}
    (hc : c ∈ p :: pat) (hts : some c ∉ ts) :
    replace (p :: pat) new (render (w :: rest) ts) = render (w :: rest) ts := by
  induction ts with
  | nil => rfl
  | cons t ts ih =>
    have hrest : some c ∉ ts := fun h => hts (List.mem_cons_of_mem t h)
    cases t with
    | none => rw [render_cons_none, replace_append_of_not_mem hp, ih hrest]
    | some d =>
      rw [render_cons_some, replace_cons, ih hrest]
      rintro ⟨s, hs⟩
      have hrender : render (w :: rest) (some d :: ts) = p :: pat ++ s := hs.symm
      obtain ⟨ts', heq, -⟩ := render_eq_append hpat hrender
      rw [heq] at hts
      exact hts (List.mem_append_left _ (List.mem_map_of_mem hc))

/-- **A replacement** changes only plain characters, to those of the new text. -/
theorem exists_replace_render (hpat : w ∉ p :: pat) (hp : p ∉ w :: rest) (ts : List (Option Char)) :
    ∃ ts', replace (p :: pat) new (render (w :: rest) ts) = render (w :: rest) ts' ∧
      ts'.count none = ts.count none ∧ ∀ c, some c ∈ ts' → some c ∈ ts ∨ c ∈ new := by
  by_cases hfirst : p :: pat <+: render (w :: rest) ts
  · obtain ⟨s, hs⟩ := hfirst
    obtain ⟨ts₀, hts, rfl⟩ := render_eq_append hpat hs.symm
    obtain ⟨ts', heq, hcount, hmem⟩ := exists_replace_render hpat hp ts₀
    refine ⟨new.map some ++ ts', ?_, ?_, ?_⟩
    · rw [← hs, replace_append (List.cons_ne_nil p pat), heq, render_map_some]
    · have hplain (u : Str) : (u.map some).count none = 0 :=
        List.count_eq_zero.mpr fun h => by simp at h
      rw [hts, List.count_append, List.count_append, hplain, hplain, hcount]
    · intro c hc
      obtain hc | hc := List.mem_append.mp hc
      · exact .inr (by simpa using hc)
      · exact (hmem c hc).imp_left fun h => hts ▸ List.mem_append_right _ h
  -- else a token stays, a fixed text as a whole
  · match ts, hfirst with
    | [], _ => exact ⟨[], rfl, rfl, fun c hc => nomatch hc⟩
    | none :: ts, _ =>
      obtain ⟨ts', heq, hcount, hmem⟩ := exists_replace_render hpat hp ts
      refine ⟨none :: ts', ?_, ?_, fun c hc => ?_⟩
      · rw [render_cons_none, replace_append_of_not_mem hp, heq, render_cons_none]
      · rw [List.count_cons_self, List.count_cons_self, hcount]
      · obtain hc | hc := List.mem_cons.mp hc
        · cases hc
        · exact (hmem c hc).imp_left (List.mem_cons_of_mem none)
    | some d :: ts, hfirst =>
      obtain ⟨ts', heq, hcount, hmem⟩ := exists_replace_render hpat hp ts
      refine ⟨some d :: ts', ?_, ?_, fun c hc => ?_⟩
      · exact (replace_cons hfirst).trans (congrArg (d :: ·) heq)
      · have hd : some d ≠ none := Option.some_ne_none d
        rw [List.count_cons_of_ne hd, List.count_cons_of_ne hd, hcount]
      · obtain hc | hc := List.mem_cons.mp hc
        · exact .inl (hc ▸ List.mem_cons_self)
        · exact (hmem c hc).imp_left (List.mem_cons_of_mem (some d))
termination_by ts.length
decreasing_by
  · rw [hts, List.length_append, List.length_map, List.length_cons]
    omega
  · exact Nat.lt_succ_self _
  · exact Nat.lt_succ_self _

/-- **The number of wildcards** can be read off the text, if the last character of `wild` is not
among the plain ones. -/
theorem countMatches_render (hw : w ∉ rest) {c : Char} (hc : c ∈ rest) (hts : some c ∉ ts) :
    countMatches (w :: rest) (render (w :: rest) ts) = ts.count none := by
  induction ts with
  | nil => rfl
  | cons t ts ih =>
    have hrest : some c ∉ ts := fun h => hts (List.mem_cons_of_mem t h)
    cases t with
    | none =>
      rw [render_cons_none, countMatches_append (List.cons_ne_nil w rest), ih hrest,
        List.count_cons_self, Nat.add_comm]
    | some d =>
      rw [render_cons_some, countMatches_cons, ih hrest,
        List.count_cons_of_ne (Option.some_ne_none d)]
      -- after its first character an occurrence would go on among the plain ones
      rintro ⟨s, hs⟩
      obtain ⟨ts', heq, -⟩ := render_eq_append hw (List.cons.inj hs).2.symm
      rw [heq] at hrest
      exact hrest (List.mem_append_left _ (List.mem_map_of_mem hc))

end Render

end Text
