import MediaFlow.Lib.Routing

/-!
# The player page of Maxstream

`unpack_player_js` of `extractor/hosts/maxstream.rs` finds the packed script of a player page and
puts the address of the stream together from the terms between three markers. It forms two slices
from the places of the markers; a slice whose bounds are out of order aborts the server. A page
decides where the markers are: `survives_iff`.
-/

open Text

namespace MediaFlow

/-! ### The regular expression -/

/-- A part of an expression. -/
inductive ExpressionPart
  | char (c : Char)
  /-- `.+`, which does not run over the end of a line -/
  | plus

/-- The texts of the `.+` of an expression at the beginning of a text, each as long as it can be. -/
def matchAt : List ExpressionPart → Str → Option (List Str)
  | [], _ => some []
  | .char _ :: _, [] => none
  | .char c :: ps, d :: s => if c = d then matchAt ps s else none
  | .plus :: ps, s =>
    (Routing.downFrom (s.takeWhile (· ≠ '\n')).length).findSome? fun n =>
      (matchAt ps (s.drop n)).map (s.take n :: ·)

/-- The first match in a text. -/
def searchFor (ps : List ExpressionPart) : Str → Option (List Str)
  | [] => matchAt ps []
  | c :: s => (matchAt ps (c :: s)).or (searchFor ps s)

/-- `packed_js_re`, without its groups. -/
def packedJs : List ExpressionPart :=
  "\x7d('".toList.map .char ++ .plus :: "',".toList.map .char ++ .plus :: ",'".toList.map .char
    ++ .plus :: "'.split".toList.map .char

/-- The terms of the second group, the last `.+`. -/
def packedTerms (html : Str) : Option (List Str) :=
  match searchFor packedJs html with
  | some [_, _, s1] => some (s1.splitOn '|')
  | _ => none

/-! ### The code -/

inductive ExtractorError
  | extract (message : Str)
deriving DecidableEq

/-- `terms[a..b]`. -/
def range? {α : Type*} (l : List α) (a b : ℕ) : Option (List α) :=
  if a ≤ b ∧ b ≤ l.length then some ((l.take b).drop a) else none

/-- The address of the stream. -/
def playerUrl (reversedElements firstPart : List Str) : Str :=
  let firstUrlPart := firstPart.flatMap fun part => if '0' ∈ part then part else part ++ ['-']
  let base := "https://".toList ++ firstUrlPart ++ ".host-cdn.net/hls/".toList
  match reversedElements with
  | [element] => base ++ ',' :: (element ++ ".urlset/master.m3u8".toList)
  | _ =>
    base ++ (reversedElements.mapIdx fun i el => el ++ ',' ::
      (if i = reversedElements.length - 1 then ".urlset/master.m3u8".toList else [])).flatten

/-- `unpack_player_js`; there is no result where it aborts. -/
def unpackPlayerJs (html : Str) : Option (Except ExtractorError Str) :=
  match packedTerms html with
  | none => some (.error (.extract "Maxstream: packed JS not found".toList))
  | some terms =>
    match terms.idxOf? "urlset".toList with
    | none => some (.error (.extract "Maxstream: urlset not found".toList))
    | some urlsetIdx =>
      match terms.idxOf? "hls".toList with
      | none => some (.error (.extract "Maxstream: hls not found".toList))
      | some hlsIdx =>
        match terms.idxOf? "sources".toList with
        | none => some (.error (.extract "Maxstream: sources not found".toList))
        | some sourcesIdx => do
          let elements ← range? terms (urlsetIdx + 1) hlsIdx
          let first ← range? terms (hlsIdx + 1) sourcesIdx
          return .ok (playerUrl elements.reverse first.reverse)

/-! ### What it should do -/

/-- The terms between the first `a` and the first `b` behind it. -/
def between (a b : Str) (terms : List Str) : List Str :=
  ((terms.dropWhile (· ≠ a)).drop 1).takeWhile (· ≠ b)

/-- The page is answered, with an error or with the address that is put together from the terms
between the markers. -/
def Survives (html : Str) : Prop :=
  ∃ answer, unpackPlayerJs html = some answer ∧ ∀ url, answer = .ok url →
    ∃ terms, packedTerms html = some terms ∧
      url = playerUrl (between "urlset".toList "hls".toList terms).reverse
        (between "hls".toList "sources".toList terms).reverse

/-- The condition on the terms: the markers come in order, if they are all there. -/
def MarkersInOrder (terms : List Str) : Prop :=
  "urlset".toList ∈ terms → "hls".toList ∈ terms → "sources".toList ∈ terms →
    terms.idxOf "urlset".toList < terms.idxOf "hls".toList ∧
      terms.idxOf "hls".toList < terms.idxOf "sources".toList

/-! ### Slices between markers -/

section Between

variable {terms : List Str} {a b : Str}

theorem idxOf?_of_mem (h : a ∈ terms) : terms.idxOf? a = some (terms.idxOf a) := by
  rw [List.idxOf_eq_getD_idxOf?]
  cases hfound : terms.idxOf? a with
  | none => exact absurd h (List.idxOf?_eq_none_iff.mp hfound)
  | some i => rfl

theorem takeWhile_ne_eq_take (terms : List Str) (b : Str) :
    terms.takeWhile (· ≠ b) = terms.take (terms.idxOf b) := by
  induction terms with
  | nil => rfl
  | cons c terms ih =>
    by_cases hc : c = b
    · rw [List.takeWhile_cons_of_neg (by simp [hc]), hc, List.idxOf_cons_self, List.take_zero]
    · rw [List.takeWhile_cons_of_pos (by simp [hc]), List.idxOf_cons_ne _ hc, List.take_succ_cons,
        ih]

/-- A slice from behind one marker up to the other. -/
theorem range?_eq_some_iff (ha : a ∈ terms) (hb : b ∈ terms) {l : List Str} :
    range? terms (terms.idxOf a + 1) (terms.idxOf b) = some l ↔
      terms.idxOf a < terms.idxOf b ∧ l = between a b terms := by
  have hlen : terms.idxOf b ≤ terms.length := (List.idxOf_lt_length_iff.mpr hb).le
  have hbetween : terms.idxOf a < terms.idxOf b →
      (terms.take (terms.idxOf b)).drop (terms.idxOf a + 1) = between a b terms := by
    intro h
    obtain ⟨s, t, rfl, hs⟩ := List.eq_append_cons_of_mem ha
    have hia : (s ++ a :: t).idxOf a = s.length := by
      rw [List.idxOf_append_of_notMem hs, List.idxOf_cons_self, Nat.add_zero]
    rw [hia] at h ⊢
    -- `b` is neither before `a` nor `a` itself
    have hbs : b ∉ s := by
      intro hbs
      rw [List.idxOf_append_of_mem hbs] at h
      exact absurd (List.idxOf_lt_length_iff.mpr hbs) (Nat.lt_asymm h)
    have hne : a ≠ b := by
      rintro rfl
      exact absurd hia.symm (Nat.ne_of_lt h)
    have hib : (s ++ a :: t).idxOf b = s.length + (t.idxOf b + 1) := by
      rw [List.idxOf_append_of_notMem hbs, List.idxOf_cons_ne _ hne]
    have hdrop : (s ++ a :: t).dropWhile (· ≠ a) = a :: t := by
      rw [List.dropWhile_append_of_pos (fun c hc => by
        rw [decide_eq_true_iff]
        rintro rfl
        exact hs hc), List.dropWhile_cons_of_neg (by simp)]
    unfold between
    rw [hib, hdrop, List.drop_one, List.tail_cons, takeWhile_ne_eq_take,
      List.take_length_add_append,
      List.take_succ_cons, ← List.drop_drop, List.drop_left]
    rfl
  unfold range?
  rw [Option.ite_none_right_eq_some, Option.some.injEq]
  constructor
  · rintro ⟨⟨hle, -⟩, rfl⟩
    exact ⟨hle, hbetween hle⟩
  · rintro ⟨hlt, rfl⟩
    exact ⟨⟨hlt, hlen⟩, hbetween hlt⟩

end Between

section Page

variable {html : Str} {terms : List Str}

/-- With all markers there, the page is answered if both slices have their bounds in order. -/
theorem unpackPlayerJs_of_markers (hterms : packedTerms html = some terms)
    (hu : "urlset".toList ∈ terms) (hh : "hls".toList ∈ terms) (hs : "sources".toList ∈ terms)
    {answer : Except ExtractorError Str} :
    unpackPlayerJs html = some answer ↔
      (terms.idxOf "urlset".toList < terms.idxOf "hls".toList ∧
        terms.idxOf "hls".toList < terms.idxOf "sources".toList) ∧
      answer = .ok (playerUrl (between "urlset".toList "hls".toList terms).reverse
        (between "hls".toList "sources".toList terms).reverse) := by
  unfold unpackPlayerJs
  rw [hterms]
  dsimp only
  rw [idxOf?_of_mem hu]
  dsimp only
  rw [idxOf?_of_mem hh]
  dsimp only
  rw [idxOf?_of_mem hs]
  -- the two slices, each with its bounds in order
  simp only [Option.bind_eq_bind, Option.bind_eq_some_iff, range?_eq_some_iff hu hh,
    range?_eq_some_iff hh hs]
  constructor
  · rintro ⟨_, ⟨hfirst, rfl⟩, _, ⟨hsecond, rfl⟩, heq⟩
    exact ⟨⟨hfirst, hsecond⟩, (Option.some.inj heq).symm⟩
  · rintro ⟨⟨hfirst, hsecond⟩, rfl⟩
    exact ⟨_, ⟨hfirst, rfl⟩, _, ⟨hsecond, rfl⟩, rfl⟩

/-- Without the script, or without one of the markers, the answer is an error. -/
theorem unpackPlayerJs_error
    (h : ∀ terms, packedTerms html = some terms → ¬ ("urlset".toList ∈ terms ∧
      "hls".toList ∈ terms ∧ "sources".toList ∈ terms)) :
    ∃ e, unpackPlayerJs html = some (.error e) := by
  unfold unpackPlayerJs
  cases hterms : packedTerms html with
  | none => exact ⟨_, rfl⟩
  | some terms =>
    have hmissing := h terms hterms
    dsimp only
    by_cases hu : "urlset".toList ∈ terms
    · rw [idxOf?_of_mem hu]
      dsimp only
      by_cases hh : "hls".toList ∈ terms
      · rw [idxOf?_of_mem hh]
        dsimp only
        have hs : "sources".toList ∉ terms := fun hs => hmissing ⟨hu, hh, hs⟩
        rw [List.idxOf?_eq_none_iff.mpr hs]
        exact ⟨_, rfl⟩
      · rw [List.idxOf?_eq_none_iff.mpr hh]
        exact ⟨_, rfl⟩
    · rw [List.idxOf?_eq_none_iff.mpr hu]
      exact ⟨_, rfl⟩

end Page

/-- **A page** does not abort the server, and gets the address of its terms or an error, exactly if
its markers come in order. -/
theorem survives_iff (html : Str) :
    Survives html ↔ ∀ terms, packedTerms html = some terms → MarkersInOrder terms := by
  constructor
  · rintro ⟨answer, hanswer, -⟩ terms hterms hu hh hs
    exact ((unpackPlayerJs_of_markers hterms hu hh hs).mp hanswer).1
  · intro h
    by_cases hall : ∃ terms, packedTerms html = some terms ∧ "urlset".toList ∈ terms ∧
        "hls".toList ∈ terms ∧ "sources".toList ∈ terms
    · obtain ⟨terms, hterms, hu, hh, hs⟩ := hall
      refine ⟨_, (unpackPlayerJs_of_markers hterms hu hh hs).mpr ⟨h terms hterms hu hh hs, rfl⟩, ?_⟩
      intro url hurl
      exact ⟨terms, hterms, (Except.ok.inj hurl).symm⟩
    · obtain ⟨e, he⟩ := unpackPlayerJs_error fun terms hterms hmarkers =>
        hall ⟨terms, hterms, hmarkers⟩
      exact ⟨.error e, he, fun url hurl => by cases hurl⟩

/-- A page with the markers the other way round. -/
theorem not_survives_reversed : ¬ Survives
    "\x7d('p',62,3,'sources|hls|urlset'.split('|')".toList := by
  rintro ⟨answer, hanswer, -⟩
  have habort : unpackPlayerJs "\x7d('p',62,3,'sources|hls|urlset'.split('|')".toList = none := by
    decide +kernel
  rw [habort] at hanswer
  cases hanswer

/-- A page with its terms in order. -/
example : unpackPlayerJs "\x7d('p',62,3,'x|urlset|b|a|hls|10|cdn|sources'.split('|')".toList
    = some (.ok "https://cdn-10.host-cdn.net/hls/a,b,.urlset/master.m3u8".toList) := by
  decide +kernel

end MediaFlow
