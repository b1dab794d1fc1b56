import MediaFlow.Config.ProxyRouter

/-!
# The hosts of a route

A route pattern `scheme://host` is for the URLs of that scheme whose host is an instance of the host
pattern. Its expression has a beginning but no end, and does not know of user names:
`matchesOnlyHosts_iff` says for which URLs it matches as it should.
-/

open Text

namespace MediaFlow

inductive PatternScheme where
  | http
  | https
  | all

namespace PatternScheme

def text : PatternScheme → Str
  | http => "http".toList
  | https => "https".toList
  | all => "all".toList

/-- The pattern is for URLs of this scheme. -/
def Accepts : PatternScheme → Str → Prop
  | http, scheme => scheme = "http".toList
  | https, scheme => scheme = "https".toList
  | all, scheme => scheme = "http".toList ∨ scheme = "https".toList

end PatternScheme

def isHostChar (c : Char) : Bool := c.isAlphanum ∨ c = '-' ∨ c = '.' ∨ c = '_'

/-- A host, or a host and a port, with wildcards. -/
structure HostPattern where
  text : Str
  chars : ∀ c ∈ text, isHostChar c ∨ c = ':' ∨ c = '*'

/-- `scheme://host` -/
def routePattern (scheme : PatternScheme) (host : HostPattern) : Str :=
  scheme.text ++ ("://".toList ++ host.text)

/-! ### What is to hold -/

/-- What a pattern is compared with: the host, and its port if the pattern has one. -/
def HostPattern.subject (host : HostPattern) (a : Authority) : Str :=
  if ':' ∈ host.text then a.hostPort else a.host

/-- The pattern is for the URL. -/
def IsFor (scheme : PatternScheme) (host : HostPattern) (u : ParsedUrl) : Prop :=
  scheme.Accepts u.scheme ∧
    ∃ a, u.authority = some a ∧ Regex.Instance host.text (host.subject a)

/-- The expression of the pattern matches the URL if the pattern is for it. -/
def MatchesOnlyHosts (isMatch : Str → Str → Bool) (scheme : PatternScheme) (host : HostPattern)
    (u : ParsedUrl) : Prop :=
  isMatch (regexText (routePattern scheme host)) u.asStr = true ↔ IsFor scheme host u

/-- The text before the path begins with an instance of the pattern. -/
def HostPattern.Begins (host : HostPattern) (a : Authority) : Prop :=
  ∃ t, t <+: a.text ∧ Regex.Instance host.text t

/-- **The condition**: before a host that is an instance stands no user name, or the pattern begins
with a wildcard, or the user name begins with an instance; and a host that is no instance does not
begin with one, nor does the user name, nor does an instance go over into the port. -/
structure HostPattern.Bounds (host : HostPattern) (a : Authority) : Prop where
  ofInstance : Regex.Instance host.text (host.subject a) →
    a.userInfo = none ∨ ['*'] <+: host.text ∨ host.Begins a
  ofOther : ¬ Regex.Instance host.text (host.subject a) → ¬ host.Begins a

/-! ### The expression of a pattern -/

/-- The expression whose text the replacements make. -/
def routeRegex (scheme : PatternScheme) (host : HostPattern) : Regex :=
  .seq (match scheme with
    | .http => .literal "http".toList
    | .https => .literal "https".toList
    | .all => .alt (.literal "http".toList) (.literal "https".toList))
    (.seq (.literal "://".toList) (.glob '/' host.text))

theorem slash_not_mem (host : HostPattern) : '/' ∉ host.text := by
  intro h
  obtain hc | hc | hc := host.chars '/' h
  · exact absurd hc (by decide)
  · exact absurd hc (by decide)
  · exact absurd hc (by decide)

/-- What the first replacements make of the host. -/
theorem print_glob_host (host : HostPattern) : (Regex.glob '/' host.text).print =
    render wildcard (host.text.flatMap patternToken) := by
  rw [Regex.print_glob, render, List.flatMap_assoc]
  refine List.flatMap_congr fun c hc => ?_
  unfold patternToken
  by_cases hdot : c = '.'
  · rw [if_pos hdot, hdot]
    rfl
  rw [if_neg hdot]
  by_cases hstar : c = '*'
  · rw [if_pos hstar, if_pos hstar]
    rfl
  rw [if_neg hstar, if_neg hstar]
  -- no other character of a host is special
  have hmeta : Regex.isMeta c = false := by
    refine Bool.eq_false_iff.mpr fun h => ?_
    have hmem := of_decide_eq_true h
    obtain hc | rfl | rfl := host.chars c hc
    · unfold isHostChar at hc
      simp only [List.mem_cons, List.not_mem_nil, or_false] at hmem
      rcases hmem with rfl | rfl | rfl | rfl | rfl | rfl | rfl | rfl | rfl | rfl | rfl | rfl | rfl | rfl
      all_goals first | exact hdot rfl | exact hstar rfl | exact absurd hc (by decide)
    · exact absurd hmem (by decide)
    · exact hstar rfl
  unfold Regex.escape
  rw [hmeta]
  rfl

/-- The scheme stays as it is, or is replaced. -/
theorem regexText_routePattern (scheme : PatternScheme) (host : HostPattern) :
    regexText (routePattern scheme host) = '^' :: (routeRegex scheme host).print := by
  have htokens : (routePattern scheme host).flatMap patternToken =
      (scheme.text ++ "://".toList).map some ++ host.text.flatMap patternToken := by
    unfold routePattern
    rw [← List.append_assoc, List.flatMap_append]
    cases scheme <;> rfl
  have hkeep : replace "all://".toList "(http|https)://".toList
      (render wildcard (host.text.flatMap patternToken)) =
        render wildcard (host.text.flatMap patternToken) := by
    refine replace_render_of_not_mem (by decide) (by decide) (c := '/') (by decide) fun h => ?_
    obtain ⟨c, hc, htoken⟩ := List.mem_flatMap.mp h
    unfold patternToken at htoken
    split at htoken
    · simp at htoken
    · split at htoken
      · simp at htoken
      · rw [← Option.some.inj (List.mem_singleton.mp htoken)] at hc
        exact slash_not_mem host hc
  unfold regexText
  rw [replace_pattern, htokens, render_map_some]
  refine congrArg ('^' :: ·) ?_
  unfold routeRegex
  rw [Regex.print, Regex.print, print_glob_host]
  cases scheme with
  | http => exact (replace_append_of_not_mem (by decide) _).trans (congrArg _ hkeep)
  | https => exact (replace_append_of_not_mem (by decide) _).trans (congrArg _ hkeep)
  | all => exact (replace_append (List.cons_ne_nil _ _) _).trans (congrArg _ hkeep)

/-! ### What it matches -/

section Begins

variable {host : HostPattern} {u : ParsedUrl}

/-- A word without `c` at the beginning of a text ends before the first `c`. -/
theorem prefix_of_prefix_append_cons {t x y : Str} {c : Char} (h : t <+: x ++ c :: y) (hc : c ∉ t) :
    t <+: x := by
  obtain ⟨rest, hrest⟩ := h
  obtain ⟨more, rfl, -⟩ | ⟨more, rfl, hmore⟩ := List.append_eq_append_iff.mp hrest
  · exact List.prefix_append t more
  · cases more with
    | nil => rw [List.append_nil]
    | cons d more =>
      obtain ⟨rfl, -⟩ := List.cons.inj hmore
      exact absurd (List.mem_append_right _ List.mem_cons_self) hc

/-- Wildcards stay before the path. -/
theorem begins_glob_iff {a : Authority} {path : Str} (ha : '/' ∉ a.text) :
    (Regex.glob '/' host.text).Begins (a.text ++ '/' :: path) ↔ host.Begins a := by
  constructor
  · rintro ⟨t, ht, hfirst⟩
    obtain ⟨hinstance, hslash⟩ := (Regex.mem_language_glob_iff (slash_not_mem host)).mp ht
    exact ⟨t, prefix_of_prefix_append_cons hfirst hslash, hinstance⟩
  · rintro ⟨t, hfirst, hinstance⟩
    have hslash : '/' ∉ t := fun h => ha (hfirst.subset h)
    exact ⟨t, (Regex.mem_language_glob_iff (slash_not_mem host)).mpr ⟨hinstance, hslash⟩,
      hfirst.trans (List.prefix_append _ _)⟩

/-- One scheme of the web. -/
theorem begins_scheme_iff {w : Str} (hw : w = "http".toList ∨ w = "https".toList) :
    (Regex.seq (.literal w) (.seq (.literal "://".toList) (.glob '/' host.text))).Begins u.asStr ↔
      u.scheme = w ∧ ∃ a, u.authority = some a ∧ host.Begins a := by
  rw [Regex.begins_literal_seq_iff]
  have hplain : ':' ∉ w := by
    rcases hw with rfl | rfl <;> decide
  -- both texts are cut at the first `:`
  have hsplit {v : Str} : u.asStr = w ++ ("://".toList ++ v) ↔ u.scheme = w ∧
      (u.authority.elim [] fun a => '/' :: '/' :: a.text) ++ u.rest = '/' :: '/' :: v := by
    constructor
    · intro htext
      have hcut := congrArg (splitOnce ':') htext
      unfold ParsedUrl.asStr at hcut
      rw [splitOnce_of_not_mem u.scheme_plain] at hcut
      have hcut' := hcut.trans (splitOnce_of_not_mem hplain ('/' :: '/' :: v))
      exact Prod.mk.inj (Option.some.inj hcut')
    · rintro ⟨rfl, hrest⟩
      exact congrArg (fun s => u.scheme ++ ':' :: s) hrest
  constructor
  · rintro ⟨_, htext, hbegins⟩
    obtain ⟨v, rfl, hglob⟩ := Regex.begins_literal_seq_iff.mp hbegins
    obtain ⟨hscheme, hrest⟩ := hsplit.mp htext
    refine ⟨hscheme, ?_⟩
    obtain ⟨hauthority, path, hpath⟩ := u.web (hscheme ▸ hw)
    obtain ⟨a, ha⟩ := Option.isSome_iff_exists.mp hauthority
    rw [ha, ← hpath] at hrest
    obtain rfl : v = a.text ++ '/' :: path := (List.cons.inj (List.cons.inj hrest).2).2.symm
    exact ⟨a, ha, (begins_glob_iff (u.authority_plain a ha)).mp hglob⟩
  · rintro ⟨hscheme, a, ha, hbegins⟩
    obtain ⟨-, path, hpath⟩ := u.web (hscheme ▸ hw)
    refine ⟨"://".toList ++ (a.text ++ '/' :: path), hsplit.mpr ⟨hscheme, ?_⟩,
      Regex.begins_literal_seq_iff.mpr ⟨_, rfl, ?_⟩⟩
    · rw [ha, ← hpath]
      rfl
    · exact (begins_glob_iff (u.authority_plain a ha)).mpr hbegins

/-- **The expression** looks only at the beginning of what stands before the path. -/
theorem begins_routeRegex_iff (scheme : PatternScheme) :
    (routeRegex scheme host).Begins u.asStr ↔
      scheme.Accepts u.scheme ∧ ∃ a, u.authority = some a ∧ host.Begins a := by
  unfold routeRegex
  cases scheme with
  | http => exact begins_scheme_iff (.inl rfl)
  | https => exact begins_scheme_iff (.inr rfl)
  | all =>
    rw [Regex.begins_alt_seq_iff, begins_scheme_iff (.inl rfl), begins_scheme_iff (.inr rfl)]
    exact or_and_right.symm

end Begins

/-! ### Hosts with user names -/

section Bounds

variable {host : HostPattern} {a : Authority}

theorem subject_prefix : host.subject a <+: a.hostPort := by
  unfold HostPattern.subject
  split
  · exact List.prefix_rfl
  · exact List.prefix_append _ _

/-- What may stand before an instance. -/
theorem begins_of_instance (h : Regex.Instance host.text (host.subject a))
    (hbefore : a.userInfo = none ∨ ['*'] <+: host.text ∨ host.Begins a) : host.Begins a := by
  obtain hnone | ⟨pat, hpat⟩ | hbegins := hbefore
  · refine ⟨host.subject a, ?_, h⟩
    unfold Authority.text
    rw [hnone]
    exact subject_prefix
  · -- the wildcard takes the user name, too
    refine ⟨(a.userInfo.elim [] fun u => u ++ ['@']) ++ host.subject a,
      (List.prefix_append_right_inj _).mpr subject_prefix, ?_⟩
    rw [← hpat] at h ⊢
    obtain ⟨v, w, hsubject, hinstance⟩ : ∃ v w, host.subject a = v ++ w ∧ Regex.Instance pat w := h
    rw [hsubject, ← List.append_assoc]
    exact ⟨_, w, rfl, hinstance⟩
  · exact hbegins

theorem bounds_iff : host.Bounds a ↔
    (host.Begins a ↔ Regex.Instance host.text (host.subject a)) := by
  constructor
  · rintro ⟨hinstance, hother⟩
    refine ⟨fun hbegins => by_contra fun hnot => hother hnot hbegins, fun h => ?_⟩
    exact begins_of_instance h (hinstance h)
  · intro h
    exact ⟨fun hinstance => .inr (.inr (h.mpr hinstance)), fun hnot hbegins => hnot (h.mp hbegins)⟩

end Bounds

theorem matchesOnlyHosts_iff_bounds {isMatch : Str → Str → Bool} {scheme : PatternScheme}
    {host : HostPattern} {u : ParsedUrl} (hmatch : Regex.Anchors isMatch (routeRegex scheme host)) :
    MatchesOnlyHosts isMatch scheme host u ↔
      (scheme.Accepts u.scheme → ∀ a, u.authority = some a → host.Bounds a) := by
  unfold MatchesOnlyHosts IsFor
  rw [regexText_routePattern, hmatch, begins_routeRegex_iff, and_congr_right_iff]
  refine imp_congr_right fun _ => ?_
  cases ha : u.authority with
  | none => exact iff_of_true (by simp) nofun
  | some a =>
    have hone {P : Authority → Prop} : (∃ b, some a = some b ∧ P b) ↔ P a :=
      ⟨fun ⟨_, hb, h⟩ => Option.some.inj hb ▸ h, fun h => ⟨a, rfl, h⟩⟩
    rw [hone, hone, ← bounds_iff]
    exact ⟨fun h _ hb => Option.some.inj hb ▸ h, fun h => h a rfl⟩

/-- **A route pattern matches its hosts and no others** exactly if nothing stands before an instance
of the host pattern, or goes on after one, that would make a difference. -/
theorem matchesOnlyHosts_iff (isMatch : Str → Str → Bool) (scheme : PatternScheme)
    (host : HostPattern) (u : ParsedUrl) (hmatch : Regex.Anchors isMatch (routeRegex scheme host)) :
    MatchesOnlyHosts isMatch scheme host u ↔
      (scheme.Accepts u.scheme → ∀ a, u.authority = some a → host.Bounds a) :=
  matchesOnlyHosts_iff_bounds hmatch

/-- A pattern without wildcards. -/
def plainHost : HostPattern where
  text := "a.b".toList
  chars := by
    intro c hc
    have hc' : c = 'a' ∨ c = '.' ∨ c = 'b' := by simpa using hc
    rcases hc' with rfl | rfl | rfl <;> decide

/-- `http://a.b`, as it is matched. -/
def plainHostMatch (text s : Str) : Bool :=
  text = "^http://a\\.b".toList ∧ "http://a.b".toList.isPrefixOf s

theorem anchors_plainHost : Regex.Anchors plainHostMatch (routeRegex .http plainHost) := by
  intro s
  have hprint : '^' :: (routeRegex .http plainHost).print = "^http://a\\.b".toList := by decide
  have hlanguage : (routeRegex .http plainHost).language = {"http://a.b".toList} := by
    have hglob : Regex.glob '/' plainHost.text = Regex.literal plainHost.text := rfl
    unfold routeRegex
    rw [hglob, Regex.language, Regex.language, Regex.language_literal, Regex.language_literal,
      Regex.language_literal]
    exact (congrArg _ Set.image2_singleton).trans Set.image2_singleton
  unfold Regex.Begins plainHostMatch
  rw [hprint, hlanguage]
  constructor
  · exact fun h => ⟨_, rfl, List.isPrefixOf_iff_prefix.mp (of_decide_eq_true h).2⟩
  · rintro ⟨_, rfl, h⟩
    exact decide_eq_true ⟨rfl, List.isPrefixOf_iff_prefix.mpr h⟩

theorem plainHost_matchesOnlyHosts :
    MatchesOnlyHosts plainHostMatch .http plainHost
      (httpUrl ⟨none, "a.b".toList, some "8080".toList⟩ (by decide)) :=
  (matchesOnlyHosts_iff plainHostMatch .http plainHost _ anchors_plainHost).mpr fun _ a ha => by
    obtain rfl := Option.some.inj ha
    exact ⟨fun _ => .inl rfl, fun hnot => absurd ⟨_, rfl, _, rfl, _, rfl, rfl⟩ hnot⟩

/-- A host that goes on after the pattern, and a user name. -/
theorem plainHost_not_matchesOnlyHosts :
    Regex.Anchors plainHostMatch (routeRegex .http plainHost) ∧
      ¬ MatchesOnlyHosts plainHostMatch .http plainHost
        (httpUrl ⟨none, "a.b.c".toList, none⟩ (by decide)) ∧
      ¬ MatchesOnlyHosts plainHostMatch .http plainHost
        (httpUrl ⟨some "a.b".toList, "c".toList, none⟩ (by decide)) := by
  refine ⟨anchors_plainHost, fun h => ?_, fun h => ?_⟩
  · obtain ⟨-, a, ha, hinstance⟩ := h.mp (by decide +kernel)
    obtain rfl := Option.some.inj ha
    obtain ⟨_, heq, _, rfl, _, rfl, rfl⟩ := hinstance
    exact absurd heq (by decide)
  · obtain ⟨-, a, ha, hinstance⟩ := h.mp (by decide +kernel)
    obtain rfl := Option.some.inj ha
    obtain ⟨_, heq, _, rfl, _, rfl, rfl⟩ := hinstance
    exact absurd heq (by decide)

end MediaFlow
