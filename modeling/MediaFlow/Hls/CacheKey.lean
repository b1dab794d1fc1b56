import Mathlib.Data.List.Lex
import Mathlib.Data.Prod.Lex
import MediaFlow.Lib.UrlCoding

/-!
# Keys of cached segments

`segment_cache_key` of `hls/prebuffer.rs`: the URL as it is, and a line for each header, escaped and in
order. The lines can be told apart (`cacheLines_eq_append_iff`), but where the URL ends and the lines
begin cannot: a URL may end in what are the lines of headers elsewhere (`EndsInHeadersOf`).
`segmentCacheKey_eq_iff`: two keys are equal for the same URL and headers, or for that reason.
-/

open Text UrlCoding
open scoped List

namespace MediaFlow

/-- A header with its name in lower case. -/
def lowerName (header : Str × Str) : Str × Str := (header.1.map Char.toLower, header.2)

/-- The headers in the order of their names and values. -/
def headerEntries (headers : List (Str × Str)) : List (Str × Str) :=
  (headers.map lowerName).insertionSort fun a b => toLex a ≤ toLex b

/-- The line of a header. -/
def cacheLine (entry : Str × Str) : Str := '\n' :: (encode entry.1 ++ '=' :: encode entry.2)

def cacheLines (entries : List (Str × Str)) : Str := entries.flatMap cacheLine

/-- `segment_cache_key`. The map of headers is a list in the order in which it iterates. -/
def segmentCacheKey (url : Str) (headers : List (Str × Str)) : Str :=
  if headers = [] then url else url ++ cacheLines (headerEntries headers)

theorem segmentCacheKey_eq (url : Str) (headers : List (Str × Str)) :
    segmentCacheKey url headers = url ++ cacheLines (headerEntries headers) := by
  unfold segmentCacheKey
  by_cases h : headers = []
  · rw [if_pos h, h]
    exact (List.append_nil url).symm
  · rw [if_neg h]

/-! ### Headers -/

/-- The headers are the same, but for the order and the case of the names. -/
def SameHeaders (h₁ h₂ : List (Str × Str)) : Prop :=
  (h₁.map lowerName : Multiset (Str × Str)) = (h₂.map lowerName : Multiset (Str × Str))

theorem headerEntries_eq_iff {h₁ h₂ : List (Str × Str)} :
    headerEntries h₁ = headerEntries h₂ ↔ SameHeaders h₁ h₂ := by
  unfold SameHeaders
  rw [Multiset.coe_eq_coe]
  constructor
  · intro h
    calc h₁.map lowerName
        _ ~ headerEntries h₁ := (List.perm_insertionSort _ _).symm
        _ = headerEntries h₂ := h
        _ ~ h₂.map lowerName := List.perm_insertionSort _ _
  · intro h
    -- both are in order
    refine List.Perm.eq_of_pairwise ?_ (List.pairwise_insertionSort _ _) (List.pairwise_insertionSort _ _)
      (((List.perm_insertionSort _ _).trans h).trans (List.perm_insertionSort _ _).symm)
    exact fun a b _ _ hab hba => toLex_inj.mp (le_antisymm hab hba)

/-! ### Lines -/

theorem newline_not_mem_tail (entry : Str × Str) : '\n' ∉ (cacheLine entry).tail := by
  intro h
  obtain h | h := List.mem_append.mp (show '\n' ∈ encode entry.1 ++ '=' :: encode entry.2 from h)
  · exact not_mem_encode (by decide) _ h
  · obtain h | h := List.mem_cons.mp h
    · exact absurd h (by decide)
    · exact not_mem_encode (by decide) _ h

theorem cacheLine_injective : Function.Injective cacheLine := by
  rintro ⟨k₁, v₁⟩ ⟨k₂, v₂⟩ h
  have hsplit (k v : Str) : splitOnce '=' (cacheLine (k, v)).tail = some (encode k, encode v) :=
    splitOnce_of_not_mem (not_mem_encode (by decide) k) (encode v)
  have heq : some (encode k₁, encode v₁) = some (encode k₂, encode v₂) := by
    rw [← hsplit, ← hsplit, h]
  have hencode : Function.Injective encode := fun s t hst =>
    Option.some.inj ((decode_encode s).symm.trans ((congrArg decode hst).trans (decode_encode t)))
  obtain ⟨hk, hv⟩ := Prod.mk.inj (Option.some.inj heq)
  rw [hencode hk, hencode hv]

theorem cacheLines_eq_nil_iff {es : List (Str × Str)} : cacheLines es = [] ↔ es = [] := by
  cases es with
  | nil => exact iff_of_true rfl rfl
  | cons e es => exact iff_of_false (List.cons_ne_nil _ _) (List.cons_ne_nil _ _)

/-- Lines begin with a line break. -/
theorem mem_newline_of_cacheLines_eq {es : List (Str × Str)} {u v : Str} (hu : u ≠ [])
    (h : cacheLines es = u ++ v) : '\n' ∈ u := by
  obtain ⟨c, u, rfl⟩ := List.exists_cons_of_ne_nil hu
  cases es with
  | nil => cases h
  | cons e es => exact (List.cons.inj h).1 ▸ List.mem_cons_self

/-- The first line goes up to the next line break. -/
theorem cacheLines_cons_inj {e f : Str × Str} {es fs : List (Str × Str)}
    (h : cacheLines (e :: es) = cacheLines (f :: fs)) : e = f ∧ cacheLines es = cacheLines fs := by
  have hrest : ∀ gs : List (Str × Str), (cacheLines gs).takeWhile (· ≠ '\n') = [] := by
    intro gs
    cases gs with
    | nil => rfl
    | cons g gs => exact List.takeWhile_cons_of_neg (by simp)
  have htake (g : Str × Str) (gs : List (Str × Str)) :
      ((cacheLine g).tail ++ cacheLines gs).takeWhile (· ≠ '\n') = (cacheLine g).tail := by
    have hall : ∀ c ∈ (cacheLine g).tail, decide (c ≠ '\n') = true := fun c hc =>
      decide_eq_true fun heq => newline_not_mem_tail g (heq ▸ hc)
    rw [List.takeWhile_append_of_pos hall, hrest, List.append_nil]
  have htail : (cacheLine e).tail ++ cacheLines es = (cacheLine f).tail ++ cacheLines fs :=
    (List.cons.inj h).2
  have heq : (cacheLine e).tail = (cacheLine f).tail := by rw [← htake e es, htail, htake]
  refine ⟨cacheLine_injective (congrArg ('\n' :: ·) heq), ?_⟩
  rw [heq] at htail
  exact List.append_cancel_left htail

/-- Lines after each other are told apart by their line breaks. -/
theorem cacheLines_eq_append_iff {es fs : List (Str × Str)} {w : Str} :
    cacheLines es = w ++ cacheLines fs ↔ ∃ a, es = a ++ fs ∧ w = cacheLines a := by
  constructor
  · intro h
    induction es generalizing w fs with
    | nil =>
      obtain ⟨hw, hfs⟩ := List.append_eq_nil_iff.mp h.symm
      exact ⟨[], (cacheLines_eq_nil_iff.mp hfs).symm, hw⟩
    | cons e es ih =>
      by_cases hw : w = []
      · -- the lines begin together
        subst hw
        cases fs with
        | nil => exact absurd (cacheLines_eq_nil_iff.mp h) (List.cons_ne_nil _ _)
        | cons f fs =>
          obtain ⟨rfl, hrest⟩ := cacheLines_cons_inj h
          obtain ⟨a, hes, ha⟩ := ih (show cacheLines es = [] ++ cacheLines fs from hrest)
          rw [cacheLines_eq_nil_iff.mp ha.symm, List.nil_append] at hes
          exact ⟨[], congrArg (e :: ·) hes, rfl⟩
      · obtain ⟨w', hw', hrest⟩ : ∃ w', w = cacheLine e ++ w' ∧ cacheLines es = w' ++ cacheLines fs := by
          obtain hlong | ⟨u, hu, hrest⟩ :=
            List.append_eq_append_iff.mp (show cacheLine e ++ cacheLines es = w ++ cacheLines fs from h)
          · exact hlong
          · -- `w` does not end within the line
            have hempty : u = [] := by
              by_contra hne
              obtain ⟨c, w', rfl⟩ := List.exists_cons_of_ne_nil hw
              have htail : (cacheLine e).tail = w' ++ u := (List.cons.inj hu).2
              refine newline_not_mem_tail e (htail ▸ List.mem_append_right w' ?_)
              exact mem_newline_of_cacheLines_eq hne hrest
            rw [hempty, List.append_nil] at hu
            rw [hempty, List.nil_append] at hrest
            exact ⟨[], by rw [hu, List.append_nil], hrest.symm⟩
        obtain ⟨a, hes, ha⟩ := ih hrest
        exact ⟨e :: a, congrArg (e :: ·) hes, hw'.trans (congrArg (cacheLine e ++ ·) ha)⟩
  · rintro ⟨a, rfl, rfl⟩
    exact List.flatMap_append

/-! ### Keys -/

/-- The first URL, with the lines of some of its headers, is the second one; and the headers that remain
are those of the second one. -/
def EndsInHeadersOf (url₁ : Str) (headers₁ : List (Str × Str)) (url₂ : Str)
    (headers₂ : List (Str × Str)) : Prop :=
  ∃ a, a ≠ [] ∧ headerEntries headers₁ = a ++ headerEntries headers₂ ∧ url₂ = url₁ ++ cacheLines a

section Keys

variable {url₁ url₂ : Str} {headers₁ headers₂ : List (Str × Str)}

/-- One of the directions of `segmentCacheKey_eq_iff`. -/
theorem segmentCacheKey_eq_of_endsIn (h : EndsInHeadersOf url₁ headers₁ url₂ headers₂) :
    segmentCacheKey url₁ headers₁ = segmentCacheKey url₂ headers₂ := by
  obtain ⟨a, -, hentries, rfl⟩ := h
  rw [segmentCacheKey_eq, segmentCacheKey_eq, hentries, List.append_assoc]
  exact congrArg (url₁ ++ ·) List.flatMap_append

/-- A longer second URL. -/
theorem endsIn_of_append_eq {w : Str} (hurl : url₂ = url₁ ++ w)
    (h : cacheLines (headerEntries headers₁) = w ++ cacheLines (headerEntries headers₂)) :
    (url₁ = url₂ ∧ SameHeaders headers₁ headers₂) ∨ EndsInHeadersOf url₁ headers₁ url₂ headers₂ := by
  obtain ⟨a, hentries, rfl⟩ := cacheLines_eq_append_iff.mp h
  by_cases ha : a = []
  · subst ha
    exact .inl ⟨(hurl.trans (List.append_nil url₁)).symm, headerEntries_eq_iff.mp hentries⟩
  · exact .inr ⟨a, ha, hentries, hurl⟩

/-- **Equal keys** are those of the same URL and headers, or one URL ends in headers of the other. -/
theorem segmentCacheKey_eq_iff :
    segmentCacheKey url₁ headers₁ = segmentCacheKey url₂ headers₂ ↔
      (url₁ = url₂ ∧ SameHeaders headers₁ headers₂) ∨ EndsInHeadersOf url₁ headers₁ url₂ headers₂ ∨
        EndsInHeadersOf url₂ headers₂ url₁ headers₁ := by
  constructor
  · intro h
    rw [segmentCacheKey_eq, segmentCacheKey_eq] at h
    obtain ⟨w, hurl, hlines⟩ | ⟨w, hurl, hlines⟩ := List.append_eq_append_iff.mp h
    · exact (endsIn_of_append_eq hurl hlines).imp_right .inl
    · obtain ⟨rfl, hsame⟩ | hends := endsIn_of_append_eq hurl hlines
      · exact .inl ⟨rfl, hsame.symm⟩
      · exact .inr (.inr hends)
  · rintro (⟨rfl, hsame⟩ | hends | hends)
    · rw [segmentCacheKey_eq, segmentCacheKey_eq, headerEntries_eq_iff.mpr hsame]
    · exact segmentCacheKey_eq_of_endsIn hends
    · exact (segmentCacheKey_eq_of_endsIn hends).symm

/-- A URL without a line break does not end in headers. -/
theorem not_endsInHeadersOf (h : '\n' ∉ url₂) : ¬ EndsInHeadersOf url₁ headers₁ url₂ headers₂ := by
  rintro ⟨a, ha, -, rfl⟩
  obtain ⟨e, a, rfl⟩ := List.exists_cons_of_ne_nil ha
  exact h (List.mem_append_right _ List.mem_cons_self)

/-- Among URLs without line breaks the keys are injective. -/
theorem segmentCacheKey_eq_iff_of_noBreak (h₁ : '\n' ∉ url₁) (h₂ : '\n' ∉ url₂) :
    segmentCacheKey url₁ headers₁ = segmentCacheKey url₂ headers₂ ↔
      url₁ = url₂ ∧ SameHeaders headers₁ headers₂ := by
  rw [segmentCacheKey_eq_iff, or_iff_left]
  rintro (hends | hends)
  · exact not_endsInHeadersOf h₂ hends
  · exact not_endsInHeadersOf h₁ hends

end Keys

/-- The keys of two segments are equal exactly if their URLs and headers are. -/
def KeysTellApart (url₁ : Str) (headers₁ : List (Str × Str)) (url₂ : Str)
    (headers₂ : List (Str × Str)) : Prop :=
  segmentCacheKey url₁ headers₁ = segmentCacheKey url₂ headers₂ ↔
    url₁ = url₂ ∧ SameHeaders headers₁ headers₂

/-- **Keys tell two segments apart**, unless one URL ends in headers of the other. -/
theorem keysTellApart_iff (url₁ : Str) (headers₁ : List (Str × Str)) (url₂ : Str)
    (headers₂ : List (Str × Str)) :
    KeysTellApart url₁ headers₁ url₂ headers₂ ↔
      ¬ EndsInHeadersOf url₁ headers₁ url₂ headers₂ ∧ ¬ EndsInHeadersOf url₂ headers₂ url₁ headers₁ := by
  -- a URL that ends in headers is not the same one
  have hne {u v : Str} {h k : List (Str × Str)} (hends : EndsInHeadersOf u h v k) : u ≠ v := by
    rintro rfl
    obtain ⟨a, ha, -, hurl⟩ := hends
    exact ha (cacheLines_eq_nil_iff.mp (List.append_right_eq_self.mp hurl.symm))
  unfold KeysTellApart
  rw [segmentCacheKey_eq_iff]
  constructor
  · intro h
    refine ⟨fun hends => ?_, fun hends => ?_⟩
    · exact hne hends (h.mp (.inr (.inl hends))).1
    · exact hne hends (h.mp (.inr (.inr hends))).1.symm
  · rintro ⟨h₁, h₂⟩
    exact or_iff_left fun h => h.elim h₁ h₂

/-- A URL with an escaped line break has the key of another one with a header. -/
theorem not_keysTellApart :
    ¬ KeysTellApart "http://host/seg.ts".toList [("Authorization".toList, "secret".toList)]
      "http://host/seg.ts\nauthorization=secret".toList [] := by
  intro h
  have hkeys : segmentCacheKey "http://host/seg.ts".toList [("Authorization".toList, "secret".toList)]
      = segmentCacheKey "http://host/seg.ts\nauthorization=secret".toList [] := by decide +kernel
  exact absurd (h.mp hkeys).1 (by decide +kernel)

end MediaFlow
