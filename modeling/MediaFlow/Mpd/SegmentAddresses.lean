import MediaFlow.Lib.Digits
import MediaFlow.Mpd.TemplateEntries
import MediaFlow.Mpd.TemplateScan

/-!
# The addresses of segments

The URLs that `generate_from_template` makes of a media pattern. They are right if no identifier is
left in one, a `$Time$` stands for the time at which the segment starts, and no two are the same
(`SegmentUrlsRight`).

* `resolveUrl_eq`: an absolute URL stays as it is; a plain reference goes behind a text that depends
  on its kind only.
* `fill_value_ne`: entries whose numbers and times do not go different ways fill a pattern
  differently.
* `segmentUrlsRight_iff`: a pattern that the passes and the resolution take as it is written has one
  padded number at most; and with a `$Time$` no segment may start at 0, where the code takes the
  time for missing, nor may the length be a fixed one of a static presentation, where it never has
  one.
-/

open Text

namespace MediaFlow

/-! ### What is right -/

/-- The pattern has a number, plain or padded. -/
def HasNumber (ps : List (TextPiece Identifier)) : Prop :=
  .hole .number ∈ ps ∨ ∃ w, .hole (.paddedNumber w) ∈ ps

/-- The URLs of the segments are right: no identifier is left in them, each time is that of its
segment, and no two are the same. -/
structure SegmentUrlsRight (join : Str → Str → Option Str) (profile : MpdProfile)
    (media mpdUrl baseUrl : Str) (segments : List MpdSegment) (mediaTimes : List ℕ) : Prop where
  expanded : ∀ segment ∈ segments,
    ¬ "$Number".toList <:+: segment.media ∧ ¬ "$Time".toList <:+: segment.media
  timed : .hole .time ∈ pieces media → List.Forall₂ (fun segment time => segment.media =
    resolveUrl join mpdUrl (baseUrl ++
      expandOnce media profile.repId profile.bandwidth segment.number (some time)))
    segments mediaTimes
  distinct : (segments.map MpdSegment.media).Nodup

/-! ### The resolution -/

/-- A character that stands for itself in a path. -/
def plainPathChar (c : Char) : Bool := c.isAlphanum || "-._~!$&()*+,;=@%/".toList.contains c

/-- A segment of a path that a parser removes, with the segment before it or without. -/
def isDotSegment (s : Str) : Bool :=
  let s := replace "%2e".toList ['.'] (s.map Char.toLower)
  s = ['.'] ∨ s = ['.', '.']

/-- A path, and a query if there is one, that a parser takes as it is written. -/
structure PlainReference (s : Str) : Prop where
  path_ne : s.takeWhile (· ≠ '?') ≠ []
  path : (s.takeWhile (· ≠ '?')).all plainPathChar = true
  noDots : (List.splitOn '/' (s.takeWhile (· ≠ '?'))).all (fun segment => !isDotSegment segment)
      = true
  noHost : ¬ ['/', '/'] <+: s
  query : (s.dropWhile (· ≠ '?')).all (fun c => plainPathChar c || c = '?' || c = ':') = true

/-- `join` at a base: a plain reference goes behind the origin if it begins with a slash, else
behind the directory. -/
def JoinsAt (join : Str → Str → Option Str) (base origin directory : Str) : Prop :=
  ∀ s, PlainReference s → join base s = some ((if ['/'] <+: s then origin else directory) ++ s)

/-- An `http` URL, or a plain reference. -/
def Resolvable (s : Str) : Prop :=
  "http://".toList <+: s ∨ "https://".toList <+: s ∨ PlainReference s

/-- What comes before a text that is resolved. -/
def front (origin directory s : Str) : Str :=
  if "http://".toList <+: s ∨ "https://".toList <+: s then []
  else if ['/'] <+: s then origin
  else directory

theorem resolveUrl_eq {join : Str → Str → Option Str} {base origin directory s : Str}
    (hjoin : JoinsAt join base origin directory) (h : Resolvable s) :
    resolveUrl join base s = front origin directory s ++ s := by
  have hne : s ≠ [] := by
    rintro rfl
    obtain h | h | h := h
    · exact absurd h (by decide)
    · exact absurd h (by decide)
    · exact h.path_ne rfl
  unfold resolveUrl front
  rw [if_neg hne]
  simp only [List.isPrefixOf_iff_prefix]
  by_cases habsolute : "http://".toList <+: s ∨ "https://".toList <+: s
  · rw [if_pos habsolute, if_pos habsolute]
    rfl
  · have hplain : PlainReference s := by
      obtain h | h | h := h
      · exact absurd (.inl h) habsolute
      · exact absurd (.inr h) habsolute
      · exact h
    rw [if_neg habsolute, if_neg habsolute, hjoin s hplain]

/-- A text without digits and dollars. -/
def noDigits (pat : Str) : Bool := pat.all fun c => !(c.isDigit || c = '$')

/-- The front depends on how a text begins. -/
theorem front_congr {origin directory s t : Str}
    (h : ∀ pat, noDigits pat = true → (pat <+: s ↔ pat <+: t)) :
    front origin directory s = front origin directory t := by
  have hhttp := h "http://".toList rfl
  have hhttps := h "https://".toList rfl
  have hslash := h ['/'] rfl
  unfold front
  simp only [hhttp, hhttps, hslash]

/-! ### What the patterns are filled with -/

theorem PadWidth.ofDigitChars_pad (w : PadWidth) (n : ℕ) : Nat.ofDigitChars 10 (w.pad n) 0 = n := by
  unfold PadWidth.pad
  rw [Nat.ofDigitChars_append, Nat.ofDigitChars_replicate_zero, Nat.mul_zero]
  exact Nat.ofDigitChars_toDigits (by decide) (by decide)

theorem PadWidth.pad_injective (w : PadWidth) : Function.Injective w.pad := fun m n h => by
  rw [← w.ofDigitChars_pad m, h, w.ofDigitChars_pad]

theorem PadWidth.length_pad (w : PadWidth) (n : ℕ) :
    (w.pad n).length = max w.value (decimal n).length := by
  rw [PadWidth.pad, List.length_append, List.length_replicate]
  omega

theorem PadWidth.pad_eq_cons (w : PadWidth) (n : ℕ) :
    ∃ d s, w.pad n = d :: s ∧ d.isDigit = true := by
  obtain ⟨d, s, hs, hd⟩ := decimal_eq_cons n
  unfold PadWidth.pad
  rw [hs]
  cases w.value - (d :: s).length with
  | zero => exact ⟨d, s, rfl, hd⟩
  | succ k => exact ⟨'0', _, rfl, rfl⟩

section Values

variable {rep : Str} {bw n n' : ℕ} {t t' : Option ℕ} {ps : List (TextPiece Identifier)}

variable (rep bw n t) in
theorem value_eq_cons {a : Identifier} (ha : a ≠ .representationID) :
    ∃ d s, Identifier.value rep bw n t a = d :: s ∧ (d.isDigit || d = '$') = true := by
  have hdecimal : ∀ k, ∃ d s, decimal k = d :: s ∧ (d.isDigit || d = '$') = true := fun k => by
    obtain ⟨d, s, hs, hd⟩ := decimal_eq_cons k
    exact ⟨d, s, hs, by rw [hd, Bool.true_or]⟩
  cases a with
  | representationID => exact absurd rfl ha
  | bandwidth => exact hdecimal bw
  | paddedNumber w =>
    obtain ⟨d, s, hs, hd⟩ := w.pad_eq_cons n
    exact ⟨d, s, hs, by rw [hd, Bool.true_or]⟩
  | number => exact hdecimal n
  | time =>
    cases t with
    | none => exact ⟨'$', _, rfl, rfl⟩
    | some k => exact hdecimal k

/-- Entries of one pattern are resolved with the same front. -/
theorem front_fill (origin directory baseUrl : Str) :
    front origin directory (baseUrl ++ fill (Identifier.value rep bw n t) ps)
      = front origin directory (baseUrl ++ fill (Identifier.value rep bw n' t') ps) := by
  refine front_congr fun pat hpat => prefix_append_iff (fun p hp => prefix_fill_iff fun a _ => ?_)
    baseUrl
  -- no value but the representation's begins with a character of the pattern
  have hmem : ∀ d ∈ p, (d.isDigit || d = '$') = true → False := fun d hd hdigit => by
    have := List.all_eq_true.mp hpat d (hp.subset hd)
    rw [hdigit] at this
    cases this
  by_cases ha : a = .representationID
  · rw [ha]
    exact .inl rfl
  · obtain ⟨d, s, hs, hd⟩ := value_eq_cons rep bw n t ha
    obtain ⟨e, u, hu, he⟩ := value_eq_cons rep bw n' t' ha
    exact .inr ⟨⟨d, s, hs, fun h => hmem d h hd⟩, e, u, hu, fun h => hmem e h he⟩

/-- **Different fillings.** If a larger number comes with no smaller time, a pattern with one that
is different is filled differently. -/
theorem fill_value_ne (hn : HasNumber ps → n ≤ n')
    (ht : .hole .time ∈ ps → ∃ k k', t = some k ∧ t' = some k' ∧ k ≤ k')
    (hne : HasNumber ps ∧ n ≠ n' ∨ .hole .time ∈ ps ∧ t ≠ t') :
    fill (Identifier.value rep bw n t) ps ≠ fill (Identifier.value rep bw n' t') ps := by
  intro heq
  have hlength : ∀ a, .hole a ∈ ps →
      (Identifier.value rep bw n t a).length ≤ (Identifier.value rep bw n' t' a).length := by
    intro a ha
    cases a with
    | representationID => exact le_rfl
    | bandwidth => exact le_rfl
    | paddedNumber w =>
      change (w.pad n).length ≤ (w.pad n').length
      rw [w.length_pad, w.length_pad]
      exact max_le_max le_rfl (length_decimal_mono (hn (.inr ⟨w, ha⟩)))
    | number => exact length_decimal_mono (hn (.inl ha))
    | time =>
      obtain ⟨k, k', rfl, rfl, hk⟩ := ht ha
      exact length_decimal_mono hk
  have hvalues := eq_of_fill_eq hlength heq
  obtain ⟨hnumber | ⟨w, hw⟩, hne⟩ | ⟨htime, hne⟩ := hne
  · exact hne (decimal_injective (hvalues _ hnumber))
  · exact hne (w.pad_injective (hvalues _ hw))
  · obtain ⟨k, k', rfl, rfl, -⟩ := ht htime
    exact hne (congrArg some (decimal_injective (hvalues _ htime)))

/-- Numbers and times that a pattern does not have do not matter. -/
theorem fill_value_congr (hn : HasNumber ps → n = n') (ht : .hole .time ∈ ps → t = t') :
    fill (Identifier.value rep bw n t) ps = fill (Identifier.value rep bw n' t') ps := by
  refine fill_congr fun a ha => ?_
  cases a with
  | representationID => rfl
  | bandwidth => rfl
  | paddedNumber w => exact congrArg w.pad (hn (.inr ⟨w, ha⟩))
  | number => exact congrArg decimal (hn (.inl ha))
  | time => rw [ht ha]; rfl

theorem dollar_not_mem_decimal (k : ℕ) : '$' ∉ decimal k := fun h =>
  absurd (Nat.isDigit_of_mem_toDigits (by decide) (by decide) h) (by decide)

/-- With a time there is no dollar left, if neither the text nor the representation has one. -/
theorem dollar_not_mem_fill (hps : .char '$' ∉ ps) (hrep : '$' ∉ rep)
    (ht : .hole .time ∈ ps → t.isSome = true) :
    '$' ∉ fill (Identifier.value rep bw n t) ps := by
  rw [mem_fill_iff]
  rintro (h | ⟨a, ha, h⟩)
  · exact hps h
  · cases a with
    | representationID => exact hrep h
    | bandwidth => exact dollar_not_mem_decimal bw h
    | paddedNumber w => exact w.dollar_not_mem_pad h
    | number => exact dollar_not_mem_decimal n h
    | time =>
      obtain ⟨k, rfl⟩ := Option.isSome_iff_exists.mp (ht ha)
      exact dollar_not_mem_decimal k h

end Values

/-! ### The pattern, expanded and resolved -/

/-- The pattern is taken as it is written: no dollar is left over in it, each pass finds its
identifiers only, and what comes of it is resolved as it is. -/
structure TakenAsWritten (media rep : Str) (bw : ℕ) (baseUrl : Str) (entries : List TimelineEntry) :
    Prop where
  noDollar : .char '$' ∉ pieces media
  clear : ∀ e ∈ entries, PassesClear rep bw e.number (nonzero e.time) media
  resolvable : ∀ e ∈ entries,
    Resolvable (baseUrl ++ expandTemplate media rep bw e.number (nonzero e.time))

section Written

variable {media rep : Str} {bw n : ℕ} {t : Option ℕ}

/-- Of two padded numbers one is left. -/
theorem number_left (h : PassesClear rep bw n t media)
    (hpadded : ¬ (pieces media).countP isPaddedNumber ≤ 1) :
    "$Number".toList <:+: expandTemplate media rep bw n t := by
  obtain ⟨pre, w, post, hps, hpre⟩ := exists_first_padded
    (fun hzero => hpadded (hzero.le.trans (Nat.zero_le 1)) : (pieces media).countP isPaddedNumber
        ≠ 0)
  have hcount : (pieces media).countP isPaddedNumber = post.countP isPaddedNumber + 1 := by
    rw [hps, List.countP_append, hpre, Nat.zero_add, List.countP_cons_of_pos rfl]
  have hsecond : post.countP isPaddedNumber ≠ 0 := by omega
  obtain ⟨mid, w', last, hmid, -⟩ := exists_first_padded hsecond
  have hmem : .hole (.paddedNumber w') ∈ pre ++ ((w.pad n).map TextPiece.char ++ post) := by
    rw [hmid]
    exact List.mem_append_right _ (List.mem_append_right _
      (List.mem_append_right _ List.mem_cons_self))
  rw [expandTemplate_eq h, hps, firstPaddedFilled_append hpre, firstPaddedFilled]
  have hname : "$Number".toList <:+: w'.text :=
    ⟨[], "%0".toList ++ (w'.digits ++ "d$".toList), rfl⟩
  exact hname.trans (infix_fill (v := timeFilled rep bw n t) hmem)

/-- Without a time the identifier is left. -/
theorem time_left (h : PassesClear rep bw n none media)
    (hpadded : (pieces media).countP isPaddedNumber ≤ 1) (htime : .hole .time ∈ pieces media) :
    "$Time".toList <:+: expandTemplate media rep bw n none := by
  rw [(expandTemplate_eq_expandOnce_iff h).mpr hpadded]
  have hname : "$Time".toList <:+: "$Time$".toList := ⟨[], ['$'], rfl⟩
  exact hname.trans (infix_fill (v := Identifier.value rep bw n none) htime)

variable {join : Str → Str → Option Str} {mpdUrl baseUrl origin directory : Str}
  {entries : List TimelineEntry}

/-- What the pattern is filled with is in the URL. -/
theorem infix_resolveUrl (hjoin : JoinsAt join mpdUrl origin directory) {pat s : Str}
    (hs : Resolvable (baseUrl ++ s)) (h : pat <:+: s) : pat <:+: resolveUrl join mpdUrl
        (baseUrl ++ s) := by
  rw [resolveUrl_eq hjoin hs]
  exact h.trans ((List.infix_append' baseUrl s []).trans (by
    rw [List.append_nil]
    exact (List.suffix_append _ _).isInfix))

/-- The URL of an entry, if the pattern has one padded number at most. -/
theorem resolveUrl_expandTemplate (hjoin : JoinsAt join mpdUrl origin directory)
    (hwritten : TakenAsWritten media rep bw baseUrl entries)
    (hpadded : (pieces media).countP isPaddedNumber ≤ 1) {e : TimelineEntry} (he : e ∈ entries) :
    resolveUrl join mpdUrl (baseUrl ++ expandTemplate media rep bw e.number (nonzero e.time))
      = front origin directory (baseUrl ++ fill (Identifier.value rep bw e.number (nonzero e.time))
          (pieces media)) ++ (baseUrl ++ fill (Identifier.value rep bw e.number (nonzero e.time))
          (pieces media)) := by
  have hexpand : expandTemplate media rep bw e.number (nonzero e.time)
      = fill (Identifier.value rep bw e.number (nonzero e.time)) (pieces media) :=
    (expandTemplate_eq_expandOnce_iff (hwritten.clear e he)).mpr hpadded
  rw [resolveUrl_eq hjoin (hwritten.resolvable e he), hexpand]

/-- The URLs of two entries are the same if the fillings are. -/
theorem resolveUrl_eq_iff (hjoin : JoinsAt join mpdUrl origin directory)
    (hwritten : TakenAsWritten media rep bw baseUrl entries)
    (hpadded : (pieces media).countP isPaddedNumber ≤ 1) {e e' : TimelineEntry} (he : e ∈ entries)
    (he' : e' ∈ entries) :
    resolveUrl join mpdUrl (baseUrl ++ expandTemplate media rep bw e.number (nonzero e.time))
        = resolveUrl join mpdUrl (baseUrl ++ expandTemplate media rep bw e'.number
            (nonzero e'.time))
      ↔ fill (Identifier.value rep bw e.number (nonzero e.time)) (pieces media)
        = fill (Identifier.value rep bw e'.number (nonzero e'.time)) (pieces media) := by
  have hfront : front origin directory (baseUrl ++
        fill (Identifier.value rep bw e.number (nonzero e.time)) (pieces media))
      = front origin directory (baseUrl ++
        fill (Identifier.value rep bw e'.number (nonzero e'.time)) (pieces media)) :=
    front_fill origin directory baseUrl
  rw [resolveUrl_expandTemplate hjoin hwritten hpadded he,
    resolveUrl_expandTemplate hjoin hwritten hpadded he', hfront, List.append_cancel_left_eq,
    List.append_cancel_left_eq]

theorem dollar_not_mem_resolveUrl (hjoin : JoinsAt join mpdUrl origin directory)
    (horigin : '$' ∉ origin) (hdirectory : '$' ∉ directory) (hbase : '$' ∉ baseUrl)
        (hrep : '$' ∉ rep)
    (hwritten : TakenAsWritten media rep bw baseUrl entries)
    (hpadded : (pieces media).countP isPaddedNumber ≤ 1) {e : TimelineEntry} (he : e ∈ entries)
    (ht : .hole .time ∈ pieces media → (nonzero e.time).isSome = true) :
    '$' ∉ resolveUrl join mpdUrl
      (baseUrl ++ expandTemplate media rep bw e.number (nonzero e.time)) := by
  rw [resolveUrl_expandTemplate hjoin hwritten hpadded he, List.mem_append, List.mem_append]
  rintro (h | h | h)
  · unfold front at h
    split at h
    · cases h
    · split at h
      · exact horigin h
      · exact hdirectory h
  · exact hbase h
  · exact dollar_not_mem_fill hwritten.noDollar hrep ht h

end Written

theorem nonzero_of_ne {k : ℕ} (h : k ≠ 0) : nonzero k = some k := if_pos (Nat.pos_of_ne_zero h)

/-! ### The main result -/

/-- **The condition**: one padded number at most; and with a time, no fixed length in a static
presentation, no segment that starts at 0, and no two at the same time, unless a number tells them
apart. -/
structure TimesTellApart (tmpl : SegmentTemplate) (media : Str) (isLive : Bool)
    (mediaTimes : List ℕ) : Prop where
  onePadded : (pieces media).countP isPaddedNumber ≤ 1
  notFixed : .hole .time ∈ pieces media → ¬ tmpl.FixedStatic isLive
  notZero : .hole .time ∈ pieces media → ∀ time ∈ mediaTimes, time ≠ 0
  once : .hole .time ∈ pieces media → ¬ HasNumber (pieces media) → mediaTimes.Nodup

section Main

variable {crates : MpdCrates} {nowUnix : ℚ} {profile : MpdProfile} {tmpl : SegmentTemplate}
  {media mpdUrl baseUrl origin directory : Str} {isLive : Bool}
  {periodAvailStartUnix timeShiftBufferDepthSec : ℚ} {mediaPresentationDurationSec : Option ℚ}
  {startNumber timescale : ℕ} {entries : List TimelineEntry}

theorem media_timelineEntryToSegment (hmedia : tmpl.media = some media) (e : TimelineEntry) :
    (timelineEntryToSegment crates e tmpl profile mpdUrl baseUrl timescale).media
      = resolveUrl crates.join mpdUrl
          (baseUrl ++ expandTemplate media profile.repId profile.bandwidth e.number
              (nonzero e.time)) := by
  unfold timelineEntryToSegment
  rw [hmedia]
  rfl

/-- The URLs of the entries are different if they can be told by number or time. -/
theorem nodup_resolveUrl {join : Str → Str → Option Str} {rep : Str} {bw : ℕ}
    (hjoin : JoinsAt join mpdUrl origin directory)
    (hwritten : TakenAsWritten media rep bw baseUrl entries)
    (hpadded : (pieces media).countP isPaddedNumber ≤ 1)
    (hsegment : HasNumber (pieces media) ∨ .hole .time ∈ pieces media)
    (hnumbers : (entries.map TimelineEntry.number).Nodup)
    (hnonzero : .hole .time ∈ pieces media → ∀ e ∈ entries, e.time ≠ 0)
    (htimes : .hole .time ∈ pieces media → ¬ HasNumber (pieces media) →
      (entries.map TimelineEntry.time).Nodup)
    (horder : HasNumber (pieces media) → .hole .time ∈ pieces media →
      entries.Pairwise fun e e' => e.number < e'.number ∧ e.time ≤ e'.time) :
    (entries.map fun e => resolveUrl join mpdUrl
      (baseUrl ++ expandTemplate media rep bw e.number (nonzero e.time))).Nodup := by
  rw [List.Nodup, List.pairwise_map]
  by_cases htime : .hole .time ∈ pieces media
  · have hsome : ∀ e ∈ entries, nonzero e.time = some e.time :=
      fun e he => nonzero_of_ne (hnonzero htime e he)
    by_cases hnumber : HasNumber (pieces media)
    · -- number and time
      refine (horder hnumber htime).imp_of_mem fun {e e'} he he' ⟨hlt, hle⟩ heq => ?_
      rw [resolveUrl_eq_iff hjoin hwritten hpadded he he'] at heq
      exact fill_value_ne (fun _ => hlt.le) (fun _ => ⟨_, _, hsome e he, hsome e' he', hle⟩)
        (.inl ⟨hnumber, hlt.ne⟩) heq
    · -- the time alone
      refine (List.pairwise_map.mp (htimes htime hnumber)).imp_of_mem
        fun {e e'} he he' hne heq => ?_
      rw [resolveUrl_eq_iff hjoin hwritten hpadded he he'] at heq
      have hne' : nonzero e.time ≠ nonzero e'.time := by
        rw [hsome e he, hsome e' he']
        exact fun h => hne (Option.some.inj h)
      obtain hle | hle := Nat.le_total e.time e'.time
      · exact fill_value_ne (fun h => absurd h hnumber)
          (fun _ => ⟨_, _, hsome e he, hsome e' he', hle⟩) (.inr ⟨htime, hne'⟩) heq
      · exact fill_value_ne (fun h => absurd h hnumber)
          (fun _ => ⟨_, _, hsome e' he', hsome e he, hle⟩) (.inr ⟨htime, hne'.symm⟩) heq.symm
  · -- the number alone
    have hnumber := hsegment.resolve_right htime
    refine (List.pairwise_map.mp hnumbers).imp_of_mem fun {e e'} he he' hne heq => ?_
    rw [resolveUrl_eq_iff hjoin hwritten hpadded he he'] at heq
    obtain hle | hle := Nat.le_total e.number e'.number
    · exact fill_value_ne (fun _ => hle) (fun h => absurd h htime) (.inl ⟨hnumber, hne⟩) heq
    · exact fill_value_ne (fun _ => hle) (fun h => absurd h htime) (.inl ⟨hnumber, hne.symm⟩)
        heq.symm

/-- What the entries have of their media times. -/
structure TimesOf (tmpl : SegmentTemplate) (media : Str) (isLive : Bool)
    (entries : List TimelineEntry) (mediaTimes : List ℕ) : Prop where
  length_eq : mediaTimes.length = entries.length
  fixed : tmpl.FixedStatic isLive → ∀ e ∈ entries, e.time = 0
  times : .hole .time ∈ pieces media → ¬ tmpl.FixedStatic isLive →
    entries.map TimelineEntry.time = mediaTimes

/-- The entries of a template have the media times, but for the wrap. -/
theorem timesOf_templateEntriesU64 (hmedia : tmpl.media = some media)
    (hstart : startNumber < 2 ^ 64)
    (hentries : templateEntriesU64 nowUnix tmpl isLive periodAvailStartUnix timeShiftBufferDepthSec
      mediaPresentationDurationSec startNumber timescale = entries)
    (hwrap : .hole .time ∈ pieces media →
      ∀ time ∈ tmpl.mediaTimes startNumber (entries.map TimelineEntry.number), time < 2 ^ 64) :
    TimesOf tmpl media isLive entries
      (tmpl.mediaTimes startNumber (entries.map TimelineEntry.number)) := by
  subst hentries
  refine ⟨length_mediaTimes hmedia hstart, time_of_fixedStatic, fun htime hmode => ?_⟩
  rw [times_templateEntriesU64 hmedia hstart hmode]
  exact (List.map_congr_left fun time h => Nat.mod_eq_of_lt (hwrap htime time h)).trans
    (List.map_id' _)

/-- If the URLs are right, the times tell the segments apart. -/
theorem SegmentUrlsRight.timesTellApart {mediaTimes : List ℕ} (hmedia : tmpl.media = some media)
    (hjoin : JoinsAt crates.join mpdUrl origin directory)
    (hwritten : TakenAsWritten media profile.repId profile.bandwidth baseUrl entries)
    (htimesOf : TimesOf tmpl media isLive entries mediaTimes)
    (h : SegmentUrlsRight crates.join profile media mpdUrl baseUrl
      (entries.map fun e => timelineEntryToSegment crates e tmpl profile mpdUrl baseUrl timescale)
      mediaTimes) (hne : entries ≠ []) :
    TimesTellApart tmpl media isLive mediaTimes := by
  have hexpanded : ∀ e ∈ entries, ∀ pat : Str, pat = "$Number".toList ∨ pat = "$Time".toList →
      ¬ pat <:+: expandTemplate media profile.repId profile.bandwidth e.number
          (nonzero e.time) := by
    intro e he pat hpat hfound
    have hleft := infix_resolveUrl hjoin (hwritten.resolvable e he) hfound
    obtain ⟨hnumber, htime⟩ := h.expanded _ (List.mem_map_of_mem he)
    rw [media_timelineEntryToSegment hmedia] at hnumber htime
    obtain rfl | rfl := hpat
    · exact hnumber hleft
    · exact htime hleft
  obtain ⟨e₀, he₀⟩ := List.exists_mem_of_ne_nil _ hne
  have hpadded : (pieces media).countP isPaddedNumber ≤ 1 := by
    by_contra htwo
    exact hexpanded e₀ he₀ _ (.inl rfl) (number_left (hwritten.clear e₀ he₀) htwo)
  -- a time of 0 is none
  have hzero : .hole .time ∈ pieces media → ∀ e ∈ entries, e.time ≠ 0 := by
    intro htime e he hzero
    have hnone : nonzero e.time = none := by
      rw [hzero]
      rfl
    have hclear := hwritten.clear e he
    have hleft := hexpanded e he _ (.inr rfl)
    rw [hnone] at hclear hleft
    exact hleft (time_left hclear hpadded htime)
  have hfixed : .hole .time ∈ pieces media → ¬ tmpl.FixedStatic isLive :=
    fun htime hmode => hzero htime e₀ he₀ (htimesOf.fixed hmode e₀ he₀)
  refine ⟨hpadded, hfixed, fun htime => ?_, fun htime hnumber => ?_⟩
  · rw [← htimesOf.times htime (hfixed htime), List.forall_mem_map]
    exact hzero htime
  · rw [← htimesOf.times htime (hfixed htime), List.Nodup, List.pairwise_map]
    have hdistinct := h.distinct
    rw [List.map_map, List.Nodup, List.pairwise_map] at hdistinct
    refine hdistinct.imp_of_mem fun {e e'} he he' hurl heq => hurl ?_
    -- the same time, and no number: the same URL
    simp only [Function.comp_apply, media_timelineEntryToSegment hmedia]
    rw [resolveUrl_eq_iff hjoin hwritten hpadded he he']
    exact fill_value_congr (fun h => absurd h hnumber) fun _ => congrArg nonzero heq

/-- If the times tell the segments apart, the URLs are right. -/
theorem TimesTellApart.segmentUrlsRight {mediaTimes : List ℕ} (hmedia : tmpl.media = some media)
    (hsegment : HasNumber (pieces media) ∨ .hole .time ∈ pieces media) (hrep : '$' ∉ profile.repId)
    (hbase : '$' ∉ baseUrl) (hjoin : JoinsAt crates.join mpdUrl origin directory)
    (horigin : '$' ∉ origin) (hdirectory : '$' ∉ directory)
    (hwritten : TakenAsWritten media profile.repId profile.bandwidth baseUrl entries)
    (hnumbers : (entries.map TimelineEntry.number).Nodup)
    (horder : HasNumber (pieces media) → .hole .time ∈ pieces media →
      entries.Pairwise fun e e' => e.number < e'.number ∧ e.time ≤ e'.time)
    (htimesOf : TimesOf tmpl media isLive entries mediaTimes)
    (h : TimesTellApart tmpl media isLive mediaTimes) :
    SegmentUrlsRight crates.join profile media mpdUrl baseUrl
      (entries.map fun e => timelineEntryToSegment crates e tmpl profile mpdUrl baseUrl timescale)
      mediaTimes := by
  have htimes : .hole .time ∈ pieces media → entries.map TimelineEntry.time = mediaTimes :=
    fun htime => htimesOf.times htime (h.notFixed htime)
  have hzero : .hole .time ∈ pieces media → ∀ e ∈ entries, e.time ≠ 0 := by
    intro htime
    have hnotZero := h.notZero htime
    rw [← htimes htime, List.forall_mem_map] at hnotZero
    exact hnotZero
  constructor
  · rw [List.forall_mem_map]
    intro e he
    rw [media_timelineEntryToSegment hmedia]
    have hdollar := dollar_not_mem_resolveUrl hjoin horigin hdirectory hbase hrep hwritten
      h.onePadded he
      fun htime => by rw [nonzero_of_ne (hzero htime e he)]; rfl
    exact ⟨fun hfound => hdollar (hfound.subset List.mem_cons_self),
      fun hfound => hdollar (hfound.subset List.mem_cons_self)⟩
  · intro htime
    rw [← htimes htime, List.forall₂_map_left_iff, List.forall₂_map_right_iff, List.forall₂_same]
    intro e he
    have hnumber : (timelineEntryToSegment crates e tmpl profile mpdUrl baseUrl timescale).number
      = e.number := rfl
    have honce := (expandTemplate_eq_expandOnce_iff (hwritten.clear e he)).mpr h.onePadded
    rw [media_timelineEntryToSegment hmedia, honce, hnumber, nonzero_of_ne (hzero htime e he)]
  · rw [List.map_map]
    have hurls := nodup_resolveUrl hjoin hwritten h.onePadded hsegment hnumbers hzero
      (fun htime hnumber => (htimes htime).symm ▸ h.once htime hnumber) horder
    exact (List.map_congr_left fun e _ => media_timelineEntryToSegment hmedia e) ▸ hurls

/-- **The URLs of segments are right** exactly if their times tell them apart, for a pattern that is
taken as it is written. -/
theorem segmentUrlsRight_iff (hmedia : tmpl.media = some media)
    (hsegment : HasNumber (pieces media) ∨ .hole .time ∈ pieces media) (hrep : '$' ∉ profile.repId)
    (hbase : '$' ∉ baseUrl) (hjoin : JoinsAt crates.join mpdUrl origin directory)
    (horigin : '$' ∉ origin) (hdirectory : '$' ∉ directory) (hstart : startNumber < 2 ^ 64)
    (hentries : templateEntriesU64 nowUnix tmpl isLive periodAvailStartUnix timeShiftBufferDepthSec
      mediaPresentationDurationSec startNumber timescale = entries)
    (hlength : entries.length < 2 ^ 63)
    (hwritten : TakenAsWritten media profile.repId profile.bandwidth baseUrl entries)
    (hwrap : .hole .time ∈ pieces media →
      ∀ time ∈ tmpl.mediaTimes startNumber (entries.map TimelineEntry.number), time < 2 ^ 64)
    (horder : HasNumber (pieces media) → .hole .time ∈ pieces media →
      entries.Pairwise fun e e' => e.number < e'.number ∧ e.time ≤ e'.time) :
    SegmentUrlsRight crates.join profile media mpdUrl baseUrl
        (generateFromTemplateU64 crates nowUnix profile tmpl mpdUrl baseUrl isLive
            periodAvailStartUnix
          timeShiftBufferDepthSec mediaPresentationDurationSec startNumber timescale)
        (tmpl.mediaTimes startNumber (entries.map TimelineEntry.number))
      ↔ (entries ≠ [] →
          TimesTellApart tmpl media isLive
            (tmpl.mediaTimes startNumber (entries.map TimelineEntry.number))) := by
  have hsegments : generateFromTemplateU64 crates nowUnix profile tmpl mpdUrl baseUrl isLive
      periodAvailStartUnix timeShiftBufferDepthSec mediaPresentationDurationSec startNumber
          timescale
      = entries.map fun e => timelineEntryToSegment crates e tmpl profile mpdUrl baseUrl
          timescale := by
    rw [generateFromTemplateU64, hentries]
  have htimesOf := timesOf_templateEntriesU64 hmedia hstart hentries hwrap
  have hnumbers : (entries.map TimelineEntry.number).Nodup := by
    subst hentries
    exact nodup_numbers hstart hlength
  rw [hsegments]
  constructor
  · exact fun h => h.timesTellApart hmedia hjoin hwritten htimesOf
  · intro h
    by_cases hne : entries = []
    · -- there is nothing to be shown
      have hnil := List.length_eq_zero_iff.mp (htimesOf.length_eq.trans
        (List.length_eq_zero_iff.mpr hne))
      rw [hnil, hne]
      exact ⟨fun _ h => absurd h List.not_mem_nil, fun _ => .nil, List.nodup_nil⟩
    · exact (h hne).segmentUrlsRight hmedia hsegment hrep hbase hjoin horigin hdirectory hwritten
        hnumbers
        horder htimesOf

end Main

/-- The `url` crate at `http://h/m.mpd`. -/
def hostCrates : MpdCrates where
  join _ s := some ((if ['/'] <+: s then "http://h".toList else "http://h/".toList) ++ s)
  unixToIso8601 _ := none

theorem joinsAt_hostCrates :
    JoinsAt hostCrates.join "http://h/m.mpd".toList "http://h".toList "http://h/".toList :=
  fun _ _ => rfl

/-- Two segments of ten units, the first at this time, with their times in their URLs. -/
def timeTemplate (start : Str) : SegmentTemplate where
  media := some "s-$Time$".toList
  duration := none
  presentationTimeOffset := none
  segmentTimeline := some [⟨some start, "10".toList, some "1".toList⟩]

def plainProfile : MpdProfile where
  id := "v1".toList
  repId := "v1".toList
  mimeType := "video/mp4".toList
  bandwidth := 1000
  initUrl := none
  initRange := none
  segments := []
  segmentTemplateStartNumberExplicit := true
  nominalDurationMpdTimescale := none

theorem pieces_time : pieces "s-$Time$".toList = [.char 's', .char '-', .hole .time] := by
  decide +kernel

theorem passesClear_time {n time : ℕ} (h : (n, time) ∈ [(1, 10), (2, 20)]) :
    PassesClear "v1".toList 1000 n (some time) "s-$Time$".toList := by
  have hopen : find "$Number%".toList (fill (bandwidthFilled "v1".toList 1000)
      (pieces "s-$Time$".toList)) = none := by decide +kernel
  have hpadded : PaddedFoundFirst (bandwidthFilled "v1".toList 1000)
    (pieces "s-$Time$".toList) := by
    refine .inl ⟨by decide +kernel, fun start h => ?_⟩
    rw [hopen] at h
    cases h
  obtain h | h := List.mem_cons.mp h
  · cases h
    exact ⟨by decide +kernel, by decide +kernel, hpadded, by decide +kernel, fun _ => by
      decide +kernel⟩
  · cases List.mem_singleton.mp h
    exact ⟨by decide +kernel, by decide +kernel, hpadded, by decide +kernel, fun _ => by
      decide +kernel⟩

theorem takenAsWritten_time : TakenAsWritten "s-$Time$".toList "v1".toList 1000 []
    [timelineEntry 0 0 1 10 1 10, timelineEntry 0 0 1 10 2 20] := by
  refine ⟨by decide +kernel, ?_, ?_⟩
  · rw [List.forall_mem_cons, List.forall_mem_singleton]
    exact ⟨passesClear_time (by decide), passesClear_time (by decide)⟩
  · rw [List.forall_mem_cons, List.forall_mem_singleton]
    exact ⟨.inr (.inr ⟨by decide +kernel, by decide +kernel, by decide +kernel, by decide +kernel,
        by decide +kernel⟩), .inr (.inr ⟨by decide +kernel, by decide +kernel, by decide +kernel,
          by decide +kernel, by decide +kernel⟩)⟩

theorem segmentUrlsRight_fromTen :
    SegmentUrlsRight hostCrates.join plainProfile "s-$Time$".toList "http://h/m.mpd".toList []
      (generateFromTemplateU64 hostCrates 0 plainProfile (timeTemplate "10".toList)
        "http://h/m.mpd".toList [] false 0 0 none 1 1) [10, 20] := by
  have hnumber : ¬ HasNumber (pieces "s-$Time$".toList) := by
    rw [pieces_time, HasNumber]
    simp
  have hentries : templateEntriesU64 0 (timeTemplate "10".toList) false 0 0 none 1 1
      = [timelineEntry 0 0 1 10 1 10, timelineEntry 0 0 1 10 2 20] := rfl
  refine (segmentUrlsRight_iff rfl (.inr (by decide +kernel)) (by decide) List.not_mem_nil
    joinsAt_hostCrates (by decide) (by decide) (by decide) hentries (by decide)
        takenAsWritten_time ?_
    fun h => absurd h hnumber).mpr fun _ => ⟨by decide +kernel, ?_, ?_, ?_⟩
  · exact fun _ => List.forall_mem_cons.mpr ⟨by decide, List.forall_mem_singleton.mpr (by decide)⟩
  · exact fun _ hfixed => Option.some_ne_none _ hfixed.1
  · exact fun _ => List.forall_mem_cons.mpr ⟨by decide, List.forall_mem_singleton.mpr (by decide)⟩
  · exact fun _ _ => (by decide : [10, 20].Nodup)

/-- Of two segments the first starts at 0, and its identifier is left. -/
theorem not_segmentUrlsRight_fromZero :
    ¬ SegmentUrlsRight hostCrates.join plainProfile "s-$Time$".toList "http://h/m.mpd".toList []
      (generateFromTemplateU64 hostCrates 0 plainProfile (timeTemplate "0".toList)
        "http://h/m.mpd".toList [] false 0 0 none 1 1) [0, 10] := by
  intro h
  refine (h.expanded _ List.mem_cons_self).2 ?_
  decide +kernel

end MediaFlow
