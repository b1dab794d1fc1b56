import Mathlib.Computability.Language
import MediaFlow.Lib.Text

/-!
# Regular expressions and wildcards

A fragment of the regular expressions of Rust's `regex`: the text of an expression, and its language.
Of a library that searches for an expression at the beginning of a text, `Anchors` says that it does
so for one expression; `begins_seq_iff` and its like then take the expression apart.

A pattern with wildcards is turned into such an expression by `glob`, in which a wildcard may not run
over a certain character. `mem_language_glob_iff`: its language has the instances of the pattern
without that character.
-/

open Text

/-! ### Expressions -/

inductive Regex where
  | empty
  | char (c : Char)
  /-- `[^c]*` -/
  | starNot (c : Char)
  | seq (e f : Regex)
  /-- `(e|f)` -/
  | alt (e f : Regex)

namespace Regex

/-- The characters that are escaped. -/
def isMeta (c : Char) : Bool :=
  c ∈ ['\\', '.', '+', '*', '?', '(', ')', '|', '[', ']', '\x7b', '\x7d', '^', '$']

def escape (c : Char) : Str := if isMeta c then ['\\', c] else [c]

/-- The text of an expression. -/
def print : Regex → Str
  | empty => []
  | char c => escape c
  | starNot c => ['[', '^', c, ']', '*']
  | seq e f => e.print ++ f.print
  | alt e f => '(' :: (e.print ++ '|' :: (f.print ++ [')']))

def language : Regex → Language Char
  | empty => 1
  | char c => {[c]}
  | starNot c => {t | c ∉ t}
  | seq e f => e.language * f.language
  | alt e f => e.language + f.language

/-- The text begins with a word of the language. -/
def Begins (e : Regex) (s : Str) : Prop := ∃ t ∈ e.language, t <+: s

/-- The library finds the expression exactly where a text begins with it. -/
def Anchors (isMatch : Str → Str → Bool) (e : Regex) : Prop :=
  ∀ s, isMatch ('^' :: e.print) s = true ↔ e.Begins s

variable {e f : Regex} {s t : Str}

theorem begins_seq_iff : (seq e f).Begins s ↔ ∃ u ∈ e.language, ∃ v, s = u ++ v ∧ f.Begins v := by
  constructor
  · rintro ⟨t, ht, rest, rfl⟩
    obtain ⟨u, hu, v, hv, rfl⟩ := Language.mem_mul.mp ht
    exact ⟨u, hu, v ++ rest, List.append_assoc .., v, hv, List.prefix_append v rest⟩
  · rintro ⟨u, hu, _, rfl, t, ht, rest, rfl⟩
    exact ⟨u ++ t, Language.append_mem_mul hu ht, rest, List.append_assoc ..⟩

/-! ### Words -/

/-- The expression of one word. -/
def literal : Str → Regex
  | [] => empty
  | c :: s => seq (char c) (literal s)

theorem language_literal : (literal s).language = {s} := by
  induction s with
  | nil => rfl
  | cons c s ih =>
    rw [literal, language, ih]
    exact Set.image2_singleton

theorem begins_literal_seq_iff : (seq (literal s) f).Begins t ↔ ∃ v, t = s ++ v ∧ f.Begins v := by
  rw [begins_seq_iff, language_literal]
  exact ⟨fun ⟨_, rfl, h⟩ => h, fun h => ⟨s, rfl, h⟩⟩

theorem begins_alt_seq_iff {g : Regex} :
    (seq (alt e f) g).Begins s ↔ (seq e g).Begins s ∨ (seq f g).Begins s := by
  rw [begins_seq_iff, begins_seq_iff, begins_seq_iff]
  constructor
  · rintro ⟨u, hu | hu, h⟩
    · exact .inl ⟨u, hu, h⟩
    · exact .inr ⟨u, hu, h⟩
  · rintro (⟨u, hu, h⟩ | ⟨u, hu, h⟩)
    · exact ⟨u, .inl hu, h⟩
    · exact ⟨u, .inr hu, h⟩

/-! ### Wildcards -/

/-- The text is an instance of the pattern, in which each `*` stands for any text. -/
def Instance : Str → Str → Prop
  | [], t => t = []
  | c :: pat, t => if c = '*' then ∃ u v, t = u ++ v ∧ Instance pat v
    else ∃ v, t = c :: v ∧ Instance pat v

/-- The expression of a pattern whose wildcards do not run over `stop`. -/
def glob (stop : Char) : Str → Regex
  | [] => .empty
  | c :: pat => .seq (if c = '*' then .starNot stop else .char c) (glob stop pat)

variable {stop : Char} {pat : Str}

theorem print_glob : (glob stop pat).print =
    pat.flatMap fun c => if c = '*' then ['[', '^', stop, ']', '*'] else escape c := by
  induction pat with
  | nil => rfl
  | cons c pat ih =>
    rw [glob, print, ih, List.flatMap_cons]
    congr 1
    split <;> rfl

/-- **The language of a pattern**: its instances, as far as no wildcard runs over `stop`. -/
theorem mem_language_glob_iff (hpat : stop ∉ pat) :
    t ∈ (glob stop pat).language ↔ Instance pat t ∧ stop ∉ t := by
  induction pat generalizing t with
  | nil =>
    refine Language.mem_one t |>.trans ⟨?_, fun h => h.1⟩
    rintro rfl
    exact ⟨rfl, List.not_mem_nil⟩
  | cons c pat ih =>
    obtain ⟨hc, hrest⟩ : stop ≠ c ∧ stop ∉ pat := by
      rwa [List.mem_cons, not_or] at hpat
    rw [glob, language, Language.mem_mul, Instance]
    by_cases hstar : c = '*'
    · rw [if_pos hstar, if_pos hstar]
      constructor
      · rintro ⟨u, hu, v, hv, rfl⟩
        obtain ⟨hinst, hv⟩ := (ih hrest).mp hv
        exact ⟨⟨u, v, rfl, hinst⟩, fun h => (List.mem_append.mp h).elim hu hv⟩
      · rintro ⟨⟨u, v, rfl, hinst⟩, hstop⟩
        rw [List.mem_append, not_or] at hstop
        exact ⟨u, hstop.1, v, (ih hrest).mpr ⟨hinst, hstop.2⟩, rfl⟩
    · rw [if_neg hstar, if_neg hstar]
      constructor
      · rintro ⟨_, rfl, v, hv, rfl⟩
        obtain ⟨hinst, hv⟩ := (ih hrest).mp hv
        refine ⟨⟨v, rfl, hinst⟩, fun h => ?_⟩
        exact (List.mem_cons.mp h).elim hc hv
      · rintro ⟨⟨v, rfl, hinst⟩, hstop⟩
        rw [List.mem_cons, not_or] at hstop
        exact ⟨[c], rfl, v, (ih hrest).mpr ⟨hinst, hstop.2⟩, rfl⟩

end Regex
