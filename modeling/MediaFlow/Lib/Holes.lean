import MediaFlow.Lib.Replace

/-!
# Texts with holes

A text that is written with holes (`TextPiece`), each filled with a text for its name (`fill`).
Filling the holes one name after the other, by replacing the text that stands for a name, is filling
them at once as long as a replacement finds its pattern in the holes of its name only
(`FoundOnlyAt`, `replace_fill`). What a hole has of a character more than its value, the text has
more (`count_fill_lt`).
-/

namespace Text

/-- A piece of a text with holes of the names `α`. -/
inductive TextPiece (α : Type*)
  | char (c : Char)
  | hole (a : α)
deriving DecidableEq

section Fill

variable {α : Type*}

/-- The text with the holes filled in. -/
def fill (v : α → Str) : List (TextPiece α) → Str
  | [] => []
  | .char c :: ps => c :: fill v ps
  | .hole a :: ps => v a ++ fill v ps

theorem fill_append (v : α → Str) (ps qs : List (TextPiece α)) :
    fill v (ps ++ qs) = fill v ps ++ fill v qs := by
  induction ps with
  | nil => rfl
  | cons p ps ih =>
    cases p with
    | char c => exact congrArg (c :: ·) ih
    | hole a =>
      change v a ++ fill v (ps ++ qs) = v a ++ fill v ps ++ fill v qs
      rw [ih, List.append_assoc]

/-- Only the holes that are there matter. -/
theorem fill_congr {v w : α → Str} {ps : List (TextPiece α)} (h : ∀ a, .hole a ∈ ps → v a = w a) :
    fill v ps = fill w ps := by
  induction ps with
  | nil => rfl
  | cons p ps ih =>
    have ih := ih fun a ha => h a (List.mem_cons_of_mem _ ha)
    cases p with
    | char c => exact congrArg (c :: ·) ih
    | hole a =>
      change v a ++ fill v ps = w a ++ fill w ps
      rw [ih, h a List.mem_cons_self]

@[simp] theorem fill_map_char (v : α → Str) (s : Str) : fill v (s.map TextPiece.char) = s := by
  induction s with
  | nil => rfl
  | cons c s ih => exact congrArg (c :: ·) ih

/-- With the holes filled by `v`, the pattern begins nowhere but at the holes named `a`. -/
def FoundOnlyAt (pat : Str) (a : α) (v : α → Str) : List (TextPiece α) → Prop
  | [] => True
  | .char c :: ps => ¬ pat <+: c :: fill v ps ∧ FoundOnlyAt pat a v ps
  | .hole b :: ps =>
    (b ≠ a → ∀ u ∈ (v b).tails, u ≠ [] → ¬ pat <+: u ++ fill v ps) ∧ FoundOnlyAt pat a v ps

instance decidableFoundOnlyAt [DecidableEq α] (pat : Str) (a : α) (v : α → Str) :
    (ps : List (TextPiece α)) → Decidable (FoundOnlyAt pat a v ps)
  | [] => isTrue trivial
  | .char c :: ps =>
    have := decidableFoundOnlyAt pat a v ps
    inferInstanceAs (Decidable (¬ pat <+: c :: fill v ps ∧ FoundOnlyAt pat a v ps))
  | .hole b :: ps =>
    have := decidableFoundOnlyAt pat a v ps
    inferInstanceAs (Decidable ((b ≠ a → ∀ u ∈ (v b).tails, u ≠ [] → ¬ pat <+: u ++ fill v ps) ∧
      FoundOnlyAt pat a v ps))

variable {pat new : Str}

/-- A replacement passes over a text in which the pattern does not begin. -/
theorem replace_append_of_not_begins {u s : Str}
    (h : ∀ u' ∈ u.tails, u' ≠ [] → ¬ pat <+: u' ++ s) :
    replace pat new (u ++ s) = u ++ replace pat new s := by
  induction u with
  | nil => rfl
  | cons c u ih =>
    rw [List.tails_cons, List.forall_mem_cons] at h
    have hhere := h.1 (List.cons_ne_nil c u)
    rw [List.cons_append] at hhere
    rw [List.cons_append, replace_cons hhere, ih h.2, List.cons_append]

/-- Replacing the text that stands for a name fills the holes of this name. -/
theorem replace_fill [DecidableEq α] {a : α} {v : α → Str} {ps : List (TextPiece α)}
    (hpat : pat ≠ [])
    (hv : v a = pat) (h : FoundOnlyAt pat a v ps) :
    replace pat new (fill v ps) = fill (Function.update v a new) ps := by
  induction ps with
  | nil => rfl
  | cons p ps ih =>
    cases p with
    | char c =>
      obtain ⟨hhere, hrest⟩ := h
      change replace pat new (c :: fill v ps) = c :: fill (Function.update v a new) ps
      rw [replace_cons hhere, ih hrest]
    | hole b =>
      obtain ⟨hhere, hrest⟩ := h
      change replace pat new (v b ++ fill v ps)
        = Function.update v a new b ++ fill (Function.update v a new) ps
      by_cases hb : b = a
      · rw [hb, hv, replace_append hpat, Function.update_self, ih hrest]
      · rw [replace_append_of_not_begins (hhere hb), Function.update_of_ne hb, ih hrest]

/-! ### Counting in what is filled in -/

variable {c : Char} {v w : α → Str} {ps : List (TextPiece α)}

theorem count_fill_le (h : ∀ a, .hole a ∈ ps → (v a).count c ≤ (w a).count c) :
    (fill v ps).count c ≤ (fill w ps).count c := by
  induction ps with
  | nil => exact le_rfl
  | cons p ps ih =>
    have ih := ih fun a ha => h a (List.mem_cons_of_mem _ ha)
    cases p with
    | char d =>
      change (d :: fill v ps).count c ≤ (d :: fill w ps).count c
      rw [List.count_cons, List.count_cons]
      exact Nat.add_le_add_right ih _
    | hole a =>
      change (v a ++ fill v ps).count c ≤ (w a ++ fill w ps).count c
      rw [List.count_append, List.count_append]
      exact Nat.add_le_add (h a List.mem_cons_self) ih

/-- One hole with fewer of the character is not made up for by the others. -/
theorem count_fill_lt {a : α} (ha : .hole a ∈ ps) (hlt : (v a).count c < (w a).count c)
    (h : ∀ a, .hole a ∈ ps → (v a).count c ≤ (w a).count c) :
    (fill v ps).count c < (fill w ps).count c := by
  obtain ⟨pre, post, rfl⟩ := List.append_of_mem ha
  have hpre : (fill v pre).count c ≤ (fill w pre).count c :=
    count_fill_le fun b hb => h b (List.mem_append_left _ hb)
  have hpost : (fill v post).count c ≤ (fill w post).count c :=
    count_fill_le fun b hb => h b (List.mem_append_right _ (List.mem_cons_of_mem _ hb))
  rw [fill_append, fill_append, List.count_append, List.count_append]
  change _ + (v a ++ fill v post).count c < _ + (w a ++ fill w post).count c
  rw [List.count_append, List.count_append]
  exact Nat.add_lt_add_of_le_of_lt hpre (Nat.add_lt_add_of_lt_of_le hlt hpost)

/-! ### What is filled in -/

theorem mem_fill_iff : c ∈ fill v ps ↔ .char c ∈ ps ∨ ∃ a, .hole a ∈ ps ∧ c ∈ v a := by
  induction ps with
  | nil => exact iff_of_false List.not_mem_nil fun h => h.elim List.not_mem_nil fun ⟨_, ha, _⟩ =>
      List.not_mem_nil ha
  | cons p ps ih =>
    cases p with
    | char d =>
      change c ∈ d :: fill v ps ↔ _
      simp only [List.mem_cons, ih, TextPiece.char.injEq, reduceCtorEq, false_or, or_assoc]
    | hole b =>
      change c ∈ v b ++ fill v ps ↔ _
      rw [List.mem_append, ih]
      constructor
      · rintro (hc | hc | ⟨a, ha, hc⟩)
        · exact .inr ⟨b, List.mem_cons_self, hc⟩
        · exact .inl (List.mem_cons_of_mem _ hc)
        · exact .inr ⟨a, List.mem_cons_of_mem _ ha, hc⟩
      · rintro (hc | ⟨a, ha, hc⟩)
        · obtain hc | hc := List.mem_cons.mp hc
          · cases hc
          · exact .inr (.inl hc)
        · obtain ha | ha := List.mem_cons.mp ha
          · cases ha
            exact .inl hc
          · exact .inr (.inr ⟨a, ha, hc⟩)

/-- The value of a hole is part of the text. -/
theorem infix_fill {a : α} (ha : .hole a ∈ ps) : v a <:+: fill v ps := by
  obtain ⟨pre, post, rfl⟩ := List.append_of_mem ha
  refine ⟨fill v pre, fill v post, ?_⟩
  rw [fill_append, List.append_assoc]
  rfl

theorem length_fill_le (h : ∀ a, .hole a ∈ ps → (v a).length ≤ (w a).length) :
    (fill v ps).length ≤ (fill w ps).length := by
  induction ps with
  | nil => exact le_rfl
  | cons p ps ih =>
    have ih := ih fun a ha => h a (List.mem_cons_of_mem _ ha)
    cases p with
    | char d => exact Nat.succ_le_succ ih
    | hole a =>
      change (v a ++ fill v ps).length ≤ (w a ++ fill w ps).length
      rw [List.length_append, List.length_append]
      exact Nat.add_le_add (h a List.mem_cons_self) ih

/-- **The values can be told from the text**, if all of one are as long as those of the other, or
longer. -/
theorem eq_of_fill_eq (h : ∀ a, .hole a ∈ ps → (v a).length ≤ (w a).length)
    (heq : fill v ps = fill w ps) : ∀ a, .hole a ∈ ps → v a = w a := by
  induction ps with
  | nil => exact fun _ ha => absurd ha List.not_mem_nil
  | cons p ps ih =>
    have hrest : ∀ a, .hole a ∈ ps → (v a).length ≤ (w a).length :=
      fun a ha => h a (List.mem_cons_of_mem _ ha)
    intro a ha
    cases p with
    | char d =>
      obtain ha | ha := List.mem_cons.mp ha
      · cases ha
      · exact ih hrest (List.cons.inj heq).2 a ha
    | hole b =>
      change v b ++ fill v ps = w b ++ fill w ps at heq
      -- no part is longer than the other, so none is shorter
      have hlength := congrArg List.length heq
      rw [List.length_append, List.length_append] at hlength
      have hb := h b List.mem_cons_self
      have hps := length_fill_le hrest
      obtain ⟨hvalue, htail⟩ := List.append_inj heq (by omega)
      obtain ha | ha := List.mem_cons.mp ha
      · cases ha
        exact hvalue
      · exact ih hrest htail a ha

theorem prefix_append_iff {s t : Str} (h : ∀ p, p <:+ pat → (p <+: s ↔ p <+: t)) (u : Str) :
    pat <+: u ++ s ↔ pat <+: u ++ t := by
  induction u generalizing pat with
  | nil => exact h pat List.suffix_rfl
  | cons d u ih =>
    cases pat with
    | nil => exact iff_of_true (List.nil_prefix) (List.nil_prefix)
    | cons e pat =>
      rw [List.cons_append, List.cons_append, List.cons_prefix_cons, List.cons_prefix_cons]
      exact and_congr_right fun _ => ih fun p hp => h p (hp.trans (List.suffix_cons e pat))

/-- Whether a text begins with a pattern does not depend on values that begin with other
characters. -/
theorem prefix_fill_iff (h : ∀ a, .hole a ∈ ps → v a = w a ∨
      ((∃ d s, v a = d :: s ∧ d ∉ pat) ∧ ∃ d s, w a = d :: s ∧ d ∉ pat)) :
    pat <+: fill v ps ↔ pat <+: fill w ps := by
  induction ps generalizing pat with
  | nil => exact Iff.rfl
  | cons p ps ih =>
    have hrest : ∀ q, q <:+ pat → (q <+: fill v ps ↔ q <+: fill w ps) := by
      refine fun q hq => ih fun a ha => ?_
      obtain heq | ⟨⟨d, s, hv, hd⟩, e, t, hw, he⟩ := h a (List.mem_cons_of_mem _ ha)
      · exact .inl heq
      · exact .inr ⟨⟨d, s, hv, fun hmem => hd (hq.subset hmem)⟩,
          e, t, hw, fun hmem => he (hq.subset hmem)⟩
    cases p with
    | char d => exact prefix_append_iff hrest [d]
    | hole b =>
      change pat <+: v b ++ fill v ps ↔ pat <+: w b ++ fill w ps
      obtain heq | ⟨⟨d, s, hv, hd⟩, e, t, hw, he⟩ := h b List.mem_cons_self
      · rw [heq]
        exact prefix_append_iff hrest (w b)
      · rw [hv, hw]
        cases pat with
        | nil => exact iff_of_true (List.nil_prefix) (List.nil_prefix)
        | cons x pat =>
          refine iff_of_false (fun hprefix => hd ?_) fun hprefix => he ?_
          · exact (List.cons_prefix_cons.mp hprefix).1 ▸ List.mem_cons_self
          · exact (List.cons_prefix_cons.mp hprefix).1 ▸ List.mem_cons_self

end Fill

end Text
