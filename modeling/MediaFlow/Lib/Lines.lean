import MediaFlow.Lib.Text

/-!
# Lines of a text

`lines` takes a text apart at its line breaks, as `str::lines` does, and `unlines` ends each line
with one. `lines_unlines`: lines without line breaks come back.
-/

namespace Text

/-- `str::lines`. A carriage return belongs to the line break only if a line feed follows. -/
def lines : Str → List Str
  | [] => []
  | c :: s =>
    if c = '\n' then [] :: lines s
    else if c = '\r' ∧ s.head? = some '\n' then lines s
    else
      match lines s with
      | [] => [[c]]
      | l :: ls => (c :: l) :: ls

def unlines (ls : List Str) : Str := ls.flatMap fun l => l ++ ['\n']

/-- A line as it stands between line breaks. -/
structure IsLine (l : Str) : Prop where
  noBreak : '\n' ∉ l
  noReturn : l.getLast? ≠ some '\r'

@[simp] theorem lines_newline (s : Str) : lines ('\n' :: s) = [] :: lines s := by
  rw [lines, if_pos rfl]

theorem IsLine.tail {c : Char} {l : Str} (h : IsLine (c :: l)) : IsLine l where
  noBreak hl := h.noBreak (List.mem_cons_of_mem c hl)
  noReturn hl := by
    refine h.noReturn ?_
    cases l with
    | nil => cases hl
    | cons d l => rw [List.getLast?_cons_cons, hl]

/-- The first line, and what follows its line break. -/
theorem lines_append_newline {l : Str} (h : IsLine l) (s : Str) :
    lines (l ++ '\n' :: s) = l :: lines s := by
  induction l with
  | nil => exact lines_newline s
  | cons c l ih =>
    have hc : c ≠ '\n' := by
      rintro rfl
      exact h.noBreak List.mem_cons_self
    -- a carriage return that ends the line is excluded, and before others no line feed stands
    have hr : ¬ (c = '\r' ∧ (l ++ '\n' :: s).head? = some '\n') := by
      rintro ⟨rfl, hhead⟩
      cases l with
      | nil => exact h.noReturn rfl
      | cons d l =>
        have hd : d = '\n' := Option.some.inj hhead
        exact h.noBreak (hd ▸ List.mem_cons_of_mem _ List.mem_cons_self)
    rw [List.cons_append, lines, if_neg hc, if_neg hr, ih h.tail]

theorem lines_unlines {ls : List Str} (h : ∀ l ∈ ls, IsLine l) : lines (unlines ls) = ls := by
  induction ls with
  | nil => rfl
  | cons l ls ih =>
    have hcons : unlines (l :: ls) = l ++ '\n' :: unlines ls := by simp [unlines]
    rw [hcons, lines_append_newline (h l List.mem_cons_self),
      ih fun l' hl' => h l' (List.mem_cons_of_mem l hl')]

end Text
