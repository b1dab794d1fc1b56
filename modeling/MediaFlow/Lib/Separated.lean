import MediaFlow.Lib.Replace
import Mathlib.Data.List.Chain
import Mathlib.Data.List.Forall2

/-!
# Replacing in separated texts

A replacement whose pattern does without a character acts on the parts of a text between these
characters one by one (`splitOn_replace`); and one whose pattern is several parts in their
separators puts whole parts in place of whole parts (`forall₂_splitOn_replace_enclosed`). Escaped
slashes (`escapeSlashes`) do not interfere: a replacement of an escaped pattern in an escaped text
is the replacement of the pattern in the text (`replace_escapeSlashes`).
-/

namespace Text

variable {sep : Char} {pat new : Str}

/-! ### Between separators -/

/-- A prefix without the separator ends before it. -/
theorem prefix_of_prefix_append_cons (h : sep ∉ pat) {a b : Str} (hbegins : pat <+: a ++ sep :: b) :
    pat <+: a := by
  obtain hle | hlt := le_or_gt pat.length a.length
  · exact List.prefix_of_prefix_length_le hbegins (List.prefix_append a _) hle
  · have hlong : a ++ [sep] <+: pat := by
      refine List.prefix_of_prefix_length_le ⟨b, by simp⟩ hbegins ?_
      rw [List.length_append, List.length_singleton]
      exact hlt
    exact absurd (hlong.subset (List.mem_append_right a (List.mem_singleton_self sep))) h

theorem replace_append_cons (hpat : pat ≠ []) (h : sep ∉ pat) (a b : Str) :
    replace pat new (a ++ sep :: b) = replace pat new a ++ sep :: replace pat new b := by
  by_cases hprefix : pat <+: a
  · obtain ⟨a', rfl⟩ := hprefix
    have hshorter := length_lt_length_append hpat a'
    rw [List.append_assoc, replace_append hpat, replace_append hpat,
      replace_append_cons hpat h a' b, List.append_assoc]
  · have hnot : ¬ pat <+: a ++ sep :: b := fun h' => hprefix (prefix_of_prefix_append_cons h h')
    cases a with
    | nil => exact replace_cons hnot
    | cons c a =>
      rw [List.cons_append] at hnot ⊢
      rw [replace_cons hnot, replace_cons hprefix, replace_append_cons hpat h a b, List.cons_append]
termination_by a.length

theorem mem_of_mem_replace (hpat : pat ≠ []) {c : Char} {s : Str} (h : c ∈ replace pat new s) :
    c ∈ s ∨ c ∈ new := by
  by_cases hprefix : pat <+: s
  · obtain ⟨s', rfl⟩ := hprefix
    have hshorter := length_lt_length_append hpat s'
    rw [replace_append hpat] at h
    obtain h | h := List.mem_append.mp h
    · exact .inr h
    · exact (mem_of_mem_replace hpat h).imp_left (List.mem_append_right pat)
  · cases s with
    | nil => exact absurd h List.not_mem_nil
    | cons d s =>
      rw [replace_cons hprefix] at h
      obtain rfl | h := List.mem_cons.mp h
      · exact .inl List.mem_cons_self
      · exact (mem_of_mem_replace hpat h).imp_left (List.mem_cons_of_mem d)
termination_by s.length

theorem not_mem_replace (hpat : pat ≠ []) {c : Char} {s : Str} (hs : c ∉ s) (hnew : c ∉ new) :
    c ∉ replace pat new s := fun h => (mem_of_mem_replace hpat h).elim hs hnew

/-- **Part by part.** -/
theorem splitOn_replace (hpat : pat ≠ []) (h : sep ∉ pat) (hnew : sep ∉ new) (s : Str) :
    (replace pat new s).splitOn sep = (s.splitOn sep).map (replace pat new) := by
  by_cases hsep : sep ∈ s
  · obtain ⟨a, b, rfl, ha⟩ := List.eq_append_cons_of_mem hsep
    have hshorter : b.length < (a ++ sep :: b).length := by
      rw [List.length_append, List.length_cons]
      omega
    rw [replace_append_cons hpat h, List.splitOn_append_cons_self_of_not_mem ha,
      List.splitOn_append_cons_self_of_not_mem (not_mem_replace hpat ha hnew), List.map_cons,
      splitOn_replace hpat h hnew b]
  · rw [List.splitOn_eq_singleton hsep, List.splitOn_eq_singleton (not_mem_replace hpat hsep hnew)]
    rfl
termination_by s.length

/-- **Whole parts** are put in place of whole parts. -/
theorem forall₂_splitOn_replace_enclosed {x y : Str} {R : Str → Str → Prop} (hrefl : ∀ s, R s s)
    (hparts : List.Forall₂ R (x.splitOn sep) (y.splitOn sep)) (s : Str) :
    List.Forall₂ R (s.splitOn sep)
      ((replace (sep :: (x ++ [sep])) (sep :: (y ++ [sep])) s).splitOn sep) := by
  -- nothing happens to the part before the first separator
  have hfirst : ∀ n (s : Str), s.length = n → ∃ first parts parts', s.splitOn sep = first :: parts ∧
      (replace (sep :: (x ++ [sep])) (sep :: (y ++ [sep])) s).splitOn sep = first :: parts' ∧
      List.Forall₂ R parts parts' := by
    intro n
    induction n using Nat.strongRecOn with
    | ind n ih =>
      rintro s rfl
      by_cases hprefix : sep :: (x ++ [sep]) <+: s
      · obtain ⟨s, rfl⟩ := hprefix
        have hsplit (z t : Str) : (sep :: (z ++ [sep]) ++ t).splitOn sep
            = [] :: (z.splitOn sep ++ t.splitOn sep) := by
          have hassoc : sep :: (z ++ [sep]) ++ t = [] ++ sep :: (z ++ sep :: t) := by simp
          rw [hassoc, List.splitOn_append_cons_self, List.splitOn_append_cons_self,
            List.splitOn_nil]
          rfl
        obtain ⟨first, parts, parts', hs, hs', hrest⟩ := ih s.length (by simp; omega) s rfl
        refine ⟨[], x.splitOn sep ++ s.splitOn sep, y.splitOn sep ++ first :: parts',
          hsplit x s, ?_, ?_⟩
        · rw [replace_append (List.cons_ne_nil _ _), ← hs']
          exact hsplit y _
        · rw [hs]
          exact List.rel_append hparts (.cons (hrefl first) hrest)
      · cases s with
        | nil => exact ⟨[], [], [], List.splitOn_nil sep, List.splitOn_nil sep, .nil⟩
        | cons c s =>
          obtain ⟨first, parts, parts', hs, hs', hrest⟩ := ih s.length (by simp) s rfl
          rw [replace_cons hprefix, List.splitOn_cons_eq_if_modifyHead,
            List.splitOn_cons_eq_if_modifyHead, hs, hs']
          by_cases hc : (c == sep) = true
          · rw [if_pos hc, if_pos hc]
            exact ⟨[], _, _, rfl, rfl, .cons (hrefl first) hrest⟩
          · rw [if_neg hc, if_neg hc]
            exact ⟨c :: first, _, _, rfl, rfl, hrest⟩
  obtain ⟨first, parts, parts', hs, hs', hrest⟩ := hfirst s.length s rfl
  rw [hs, hs']
  exact .cons (hrefl first) hrest

/-! ### Escaped slashes -/

/-- Slashes as JSON may write them. -/
def escapeSlashes (s : Str) : Str := replace ['/'] "\\/".toList s

/-- How a character is written then. -/
def escapeSlash (c : Char) : Str := if c = '/' then ['\\', '/'] else [c]

theorem escapeSlashes_eq (s : Str) : escapeSlashes s = s.flatMap escapeSlash := replace_singleton s

@[simp] theorem escapeSlashes_nil : escapeSlashes [] = [] := rfl

theorem escapeSlashes_cons (c : Char) (s : Str) :
    escapeSlashes (c :: s) = escapeSlash c ++ escapeSlashes s := by
  rw [escapeSlashes_eq, escapeSlashes_eq, List.flatMap_cons]

theorem escapeSlashes_append (s t : Str) :
    escapeSlashes (s ++ t) = escapeSlashes s ++ escapeSlashes t := by
  rw [escapeSlashes_eq, escapeSlashes_eq, escapeSlashes_eq, List.flatMap_append]

theorem escapeSlashes_ne_nil {s : Str} (h : s ≠ []) : escapeSlashes s ≠ [] := by
  obtain ⟨c, s, rfl⟩ := List.exists_cons_of_ne_nil h
  rw [escapeSlashes_cons]
  unfold escapeSlash
  split <;> exact List.cons_ne_nil _ _

theorem escapeSlashes_of_not_mem {s : Str} (h : '/' ∉ s) : escapeSlashes s = s := by
  induction s with
  | nil => rfl
  | cons c s ih =>
    obtain ⟨hc, hs⟩ := not_or.mp (mt List.mem_cons.mpr h)
    rw [escapeSlashes_cons, escapeSlash, if_neg (Ne.symm hc), ih hs]
    rfl

theorem mem_escapeSlashes {c : Char} {s : Str} (h : c ∈ escapeSlashes s) : c ∈ s ∨ c = '\\' := by
  rw [escapeSlashes_eq] at h
  obtain ⟨d, hd, hc⟩ := List.mem_flatMap.mp h
  unfold escapeSlash at hc
  split at hc
  · next hslash =>
    obtain rfl | hc := List.mem_cons.mp hc
    · exact .inr rfl
    · rw [List.mem_singleton.mp hc, ← hslash]
      exact .inl hd
  · rw [List.mem_singleton.mp hc]
    exact .inl hd

theorem backslash_mem_escapeSlashes {s : Str} (h : '/' ∈ s) : '\\' ∈ escapeSlashes s := by
  rw [escapeSlashes_eq]
  exact List.mem_flatMap.mpr ⟨'/', h, List.mem_cons_self⟩

theorem slash_mem_escapeSlashes {s : Str} (h : '/' ∈ s) : '/' ∈ escapeSlashes s := by
  rw [escapeSlashes_eq]
  exact List.mem_flatMap.mpr ⟨'/', h, List.mem_cons_of_mem _ List.mem_cons_self⟩

/-- What a text begins with can be seen in the escaped text. -/
theorem escapeSlashes_prefix_iff {s : Str} (hpat : '\\' ∉ pat) (hs : '\\' ∉ s) :
    escapeSlashes pat <+: escapeSlashes s ↔ pat <+: s := by
  constructor
  · intro h
    induction pat generalizing s with
    | nil => exact List.nil_prefix
    | cons d pat ih =>
      obtain ⟨hd, hpat⟩ := not_or.mp (mt List.mem_cons.mpr hpat)
      cases s with
      | nil =>
        rw [escapeSlashes_cons, escapeSlashes_nil, List.prefix_nil] at h
        unfold escapeSlash at h
        split at h <;> cases h
      | cons c s =>
        obtain ⟨hc, htail⟩ := not_or.mp (mt List.mem_cons.mpr hs)
        rw [escapeSlashes_cons, escapeSlashes_cons] at h
        -- both escaped, one of them, or none
        unfold escapeSlash at h
        split at h
        · next hdslash =>
          split at h
          · next hcslash =>
            rw [List.prefix_append_right_inj] at h
            rw [hdslash, hcslash]
            exact List.cons_prefix_cons.mpr ⟨rfl, ih hpat htail h⟩
          · exact absurd (List.cons_prefix_cons.mp h).1 hc
        · split at h
          · exact absurd (List.cons_prefix_cons.mp h).1.symm hd
          · obtain ⟨rfl, hrest⟩ := List.cons_prefix_cons.mp h
            exact List.cons_prefix_cons.mpr ⟨rfl, ih hpat htail hrest⟩
  · rintro ⟨t, rfl⟩
    rw [escapeSlashes_append]
    exact List.prefix_append _ _

/-- **Escaped patterns** are replaced in an escaped text as the patterns in the text. -/
theorem replace_escapeSlashes {s : Str} (hne : pat ≠ []) (hpat : '\\' ∉ pat) (hs : '\\' ∉ s) :
    replace (escapeSlashes pat) (escapeSlashes new) (escapeSlashes s) = escapeSlashes
        (replace pat new s) := by
  have hne' := escapeSlashes_ne_nil hne
  by_cases hprefix : pat <+: s
  · obtain ⟨s, rfl⟩ := hprefix
    have hshorter := length_lt_length_append hne s
    have hrest : '\\' ∉ s := fun h => hs (List.mem_append_right pat h)
    rw [escapeSlashes_append, replace_append hne', replace_append hne,
      replace_escapeSlashes hne hpat hrest, escapeSlashes_append]
  · have hprefix' := mt (escapeSlashes_prefix_iff hpat hs).mp hprefix
    cases s with
    | nil => rfl
    | cons c s =>
      have hrest : '\\' ∉ s := fun h => hs (List.mem_cons_of_mem c h)
      rw [replace_cons hprefix, escapeSlashes_cons c (replace pat new s),
        ← replace_escapeSlashes hne hpat hrest]
      rw [escapeSlashes_cons] at hprefix' ⊢
      unfold escapeSlash at hprefix' ⊢
      split
      · next hslash =>
        rw [if_pos hslash] at hprefix'
        -- the pattern does not begin with the slash behind the backslash either
        have hslashed : ¬ escapeSlashes pat <+: '/' :: escapeSlashes s := by
          obtain ⟨d, pat, rfl⟩ := List.exists_cons_of_ne_nil hne
          rw [escapeSlashes_cons]
          unfold escapeSlash
          split
          · intro h
            exact absurd (List.cons_prefix_cons.mp h).1 (by decide)
          · next hd =>
            intro h
            exact hd (List.cons_prefix_cons.mp h).1
        exact (replace_cons hprefix').trans (congrArg ('\\' :: ·) (replace_cons hslashed))
      · next hslash =>
        rw [if_neg hslash] at hprefix'
        exact replace_cons hprefix'
termination_by s.length

/-- In an escaped text, slashes stand behind backslashes. -/
theorem isChain_escapeSlashes {s : Str} (hs : '\\' ∉ s) :
    (escapeSlashes s).IsChain fun c d => d = '/' → c = '\\' := by
  induction s with
  | nil => exact .nil
  | cons c s ih =>
    obtain ⟨-, hs⟩ := not_or.mp (mt List.mem_cons.mpr hs)
    -- the text goes on with a backslash or with another character than a slash
    have hhead : ∀ d ∈ (escapeSlashes s).head?, d ≠ '/' := by
      intro d hd
      cases s with
      | nil => cases hd
      | cons e s =>
        rw [escapeSlashes_cons] at hd
        unfold escapeSlash at hd
        split at hd
        · cases hd
          decide
        · next he =>
          cases hd
          exact he
    rw [escapeSlashes_cons]
    unfold escapeSlash
    split
    · refine List.isChain_cons.mpr ⟨?_, List.isChain_cons.mpr ⟨?_, ih hs⟩⟩
      · intro d hd hslash
        rfl
      · intro d hd hslash
        exact absurd hslash (hhead d hd)
    · refine List.isChain_cons.mpr ⟨fun d hd hslash => ?_, ih hs⟩
      exact absurd hslash (hhead d hd)

/-- A slash behind another character than a backslash is not found there. -/
theorem not_infix_escapeSlashes {s u v : Str} {d : Char} (hs : '\\' ∉ s) (hd : d ≠ '\\') :
    ¬ (u ++ d :: '/' :: v) <:+: escapeSlashes s := by
  intro h
  obtain ⟨front, back, hescaped⟩ := h
  have hslash : escapeSlashes s = (front ++ u) ++ d :: '/' :: (v ++ back) := by
    rw [← hescaped]
    simp
  exact hd (List.isChain_iff_forall_rel_of_append_cons_cons.mp (isChain_escapeSlashes hs) hslash
    rfl)

end Text
