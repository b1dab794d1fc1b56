import MediaFlow.Hls.UriValues

/-!
# What the line path preserves

Without ranges to skip and a start offset, `process_lines` is to rewrite the URIs of a playlist and
to leave everything else as it stands, line by line (`LinesPreserved`).

An EXTINF line is withheld until the next URI, past all the lines between them, and of a tag only
the first URI is rewritten. `linesPreserved_iff`: nothing else goes wrong.
-/

open Text UrlCoding

namespace MediaFlow

/-! ### Comparing what is written -/

/-- The characters of a text, and the URLs of the proxy in it. -/
def symbols (written : Written) : List (Char ⊕ Endpoint × Str) :=
  written.flatMap fun
    | .text s => s.map .inl
    | .proxied endpoint destination => [.inr (endpoint, destination)]

theorem symbols_verbatim (s : Str) : symbols [.text s] = s.map .inl := List.append_nil _

theorem symbols_cons_text (s : Str) (written : Written) :
    symbols (.text s :: written) = s.map .inl ++ symbols written := rfl

theorem symbols_cons (piece : Piece) (written : Written) :
    symbols (piece :: written) = symbols [piece] ++ symbols written := by
  rw [symbols, symbols, symbols, List.flatMap_cons, List.flatMap_cons, List.flatMap_nil,
    List.append_nil]

/-! ### Kinds of lines -/

inductive LineKind
  | header
  | extinf
  | uri
  | tag
deriving DecidableEq

/-- Comments and blank lines are among the tags. -/
def lineKind (line : Str) : LineKind :=
  if trim line = "#EXTM3U".toList then .header
  else if extinfTag.isPrefixOf line then .extinf
  else if line.head? ≠ some '#' ∧ trim line ≠ [] then .uri
  else .tag

/-- Each EXTINF stands right before a URI. -/
def ExtinfsAttached (ls : List Str) : Prop :=
  ∀ extinf after, extinf :: after <:+ ls → lineKind extinf = .extinf →
    after.head?.map lineKind = some .uri

theorem extinfsAttached_nil : ExtinfsAttached [] := by
  intro extinf after hsuffix
  cases List.suffix_nil.mp hsuffix

theorem extinfsAttached_cons {line : Str} {ls : List Str} :
    ExtinfsAttached (line :: ls) ↔
      (lineKind line = .extinf → ls.head?.map lineKind = some .uri) ∧ ExtinfsAttached ls := by
  constructor
  · intro h
    exact ⟨h line ls (List.suffix_refl _),
      fun extinf after hsuffix => h extinf after (hsuffix.trans (List.suffix_cons line ls))⟩
  · rintro ⟨hline, hls⟩ extinf after hsuffix hextinf
    obtain heq | hsuffix := List.suffix_cons_iff.mp hsuffix
    · cases heq
      exact hline hextinf
    · exact hls extinf after hsuffix hextinf

/-! ### The values of a line -/

/-- The text ends with the pattern where this was found. -/
theorem suffix_take_of_find {pat s : Str} {n : ℕ} (h : find pat s = some n) :
    pat <:+ s.take (n + pat.length) := by
  induction s generalizing n with
  | nil =>
    rw [find] at h
    split at h
    · next hnil => exact hnil ▸ List.nil_suffix
    · cases h
  | cons c s ih =>
    rw [find] at h
    by_cases hpat : pat.isPrefixOf (c :: s) = true
    · rw [if_pos hpat] at h
      cases h
      have htake := List.prefix_iff_eq_take.mp (List.isPrefixOf_iff_prefix.mp hpat)
      rw [Nat.zero_add, ← htake]
    · rw [if_neg hpat] at h
      obtain ⟨m, hm, rfl⟩ := Option.map_eq_some_iff.mp h
      rw [Nat.add_right_comm, List.take_succ_cons]
      exact (ih hm).trans (List.suffix_cons c _)

/-- What follows the first value. -/
def behindFirstValue (s : Str) : Str :=
  match splitFirstUri s with
  | none => []
  | some (_, _, behind) => behind

theorem loneUri_iff_behind {s : Str} : LoneUri s ↔ splitFirstUri (behindFirstValue s) = none := by
  rw [behindFirstValue]
  cases h : splitFirstUri s with
  | none => exact iff_of_true (loneUri_of_none h) rfl
  | some p => exact loneUri_iff h

/-- Rewriting the first value is enough where it changes nothing in the rest of the line. -/
theorem symbols_rewriteUriValue_eq_iff {newUri : Str → Piece} {s : Str} :
    symbols (rewriteUriValue newUri s) = symbols (rewriteAllUris newUri s) ↔
      symbols (rewriteAllUris newUri (behindFirstValue s)) = (behindFirstValue s).map .inl := by
  rw [behindFirstValue]
  cases h : splitFirstUri s with
  | none =>
    have hnil : splitFirstUri [] = none := rfl
    rw [rewriteUriValue_of_none h, rewriteAllUris_of_none h, rewriteAllUris_of_none hnil]
    exact iff_of_true rfl rfl
  | some p =>
    obtain ⟨before, value, behind⟩ := p
    rw [rewriteUriValue_of_some h, rewriteAllUris_of_some h, symbols_cons_text, symbols_cons_text,
      List.append_cancel_left_eq, symbols_cons,
      symbols_cons (newUri value) (rewriteAllUris newUri behind), List.append_cancel_left_eq,
      symbols_verbatim]
    exact eq_comm

/-- A line that begins with a tag once its first value is rewritten began with it before. -/
theorem prefix_symbols_rewriteUriValue {newUri : Str → Piece} {tag s : Str} (hquote : '"' ∉ tag)
    (h : tag.map .inl <+: symbols (rewriteUriValue newUri s)) : tag <+: s := by
  have hinj : Function.Injective (Sum.inl : Char → Char ⊕ Endpoint × Str) := Sum.inl_injective
  cases hvalue : splitFirstUri s with
  | none =>
    rw [rewriteUriValue_of_none hvalue, symbols_verbatim] at h
    exact (List.prefix_map_iff_of_injective hinj).mp h
  | some p =>
    obtain ⟨before, value, behind⟩ := p
    have hbefore : '"' ∈ before := by
      obtain ⟨start, stop, hstart, -, rfl, -⟩ := splitFirstUri_eq_some_iff.mp hvalue
      exact (suffix_take_of_find hstart).subset (by decide)
    have htext : before <+: s := ⟨value ++ behind, splitFirstUri_append hvalue⟩
    rw [rewriteUriValue_of_some hvalue, symbols_cons_text] at h
    obtain htag | htag := List.prefix_or_prefix_of_prefix h (List.prefix_append _ _)
    · exact ((List.prefix_map_iff_of_injective hinj).mp htag).trans htext
    · exact absurd (((List.prefix_map_iff_of_injective hinj).mp htag).subset hbefore) hquote

/-! ### Line by line -/

namespace ManifestProcessor

section LinePath

variable (crates : HlsCrates) (opts : ManifestOptions) (baseUrl : Str)

/-- Where the URIs of a tag lead. -/
def tagTarget (line uri : Str) : Piece :=
  let endpoint :=
    if "#EXT-X-MAP".toList.isPrefixOf line then .segment
    else if "#EXT-X-MEDIA".toList.isPrefixOf line then .manifest
    else .key
  target crates opts endpoint baseUrl uri

/-- The line with its URIs rewritten. -/
def rewriteLine (line : Str) : Written :=
  match lineKind line with
  | .header | .extinf => verbatim line
  | .uri => [rewriteSegmentOrPlaylistUri crates opts line baseUrl]
  | .tag => rewriteAllUris (tagTarget crates opts baseUrl line) line

/-- The lines are those of the text, in their order, with the URIs rewritten. -/
def LinesPreserved (content : Str) : Prop :=
  (processLines crates opts content baseUrl).map symbols =
    (lines content).map fun line => symbols (rewriteLine crates opts baseUrl line)

/-- Behind its first value, a tag has none that rewriting would change. -/
def OneUriChanges (line : Str) : Prop :=
  symbols (rewriteAllUris (tagTarget crates opts baseUrl line) (behindFirstValue line))
    = (behindFirstValue line).map .inl

variable {crates opts baseUrl}

/-- **One line.** -/
theorem processLine_eq (hoffset : opts.startOffset = none) (pending : Option Str) (line : Str) :
    processLine crates opts baseUrl { skipFilter := none, pendingExtinf := pending } line =
      match lineKind line with
      | .header => ([verbatim line], { skipFilter := none, pendingExtinf := pending })
      | .extinf => ([], { skipFilter := none, pendingExtinf := some line })
      | .uri =>
        ((pending.toList.map verbatim) ++ [[rewriteSegmentOrPlaylistUri crates opts line baseUrl]],
          { skipFilter := none })
      | .tag =>
        ([rewriteUriValue (tagTarget crates opts baseUrl line) line],
          { skipFilter := none, pendingExtinf := pending }) := by
  unfold processLine lineKind
  by_cases hheader : trim line = "#EXTM3U".toList
  · rw [if_pos hheader, if_pos hheader, hoffset]
  rw [if_neg hheader, if_neg hheader]
  by_cases hextinf : extinfTag.isPrefixOf line = true
  · rw [if_pos hextinf, if_pos hextinf]
    rfl
  rw [if_neg hextinf, if_neg hextinf]
  by_cases huri : line.head? ≠ some '#' ∧ trim line ≠ []
  · rw [if_pos huri, if_pos huri]
    cases pending with
    | none => rfl
    | some extinf => rfl
  rw [if_neg huri, if_neg huri]
  dsimp only
  by_cases hcontains : contains line "URI=".toList = true
  · rw [if_pos hcontains]
    rfl
  · have hnone : rewriteUriValue (tagTarget crates opts baseUrl line) line = [.text line] := by
      rw [rewriteUriValue]
      cases hfind : find "URI=\"".toList line with
      | none => rfl
      | some start =>
        have hprefix : "URI=".toList <+: "URI=\"".toList := ⟨['"'], rfl⟩
        exact absurd (isSome_find_of_first hprefix (Option.isSome_of_mem hfind)) hcontains
    rw [if_neg hcontains, hnone]
    split <;> rfl

/-- What is still to be written from here on, with an EXTINF that is withheld. -/
def writtenFrom (crates : HlsCrates) (opts : ManifestOptions) (baseUrl : Str)
    (pending : Option Str) (ls : List Str) : List Written :=
  processLinesFrom crates opts baseUrl { skipFilter := none, pendingExtinf := pending } ls

/-- It is as it should be. -/
def PreservedFrom (crates : HlsCrates) (opts : ManifestOptions) (baseUrl : Str)
    (pending : Option Str) (ls : List Str) : Prop :=
  (writtenFrom crates opts baseUrl pending ls).map symbols =
    (pending.toList.map verbatim ++ ls.map (rewriteLine crates opts baseUrl)).map symbols

section Kinds

variable {pending : Option Str} {line : Str} {ls : List Str}

theorem writtenFrom_header (hoffset : opts.startOffset = none) (h : lineKind line = .header) :
    writtenFrom crates opts baseUrl pending (line :: ls) =
      verbatim line :: writtenFrom crates opts baseUrl pending ls := by
  rw [writtenFrom, processLinesFrom, processLine_eq hoffset, h]
  rfl

theorem writtenFrom_extinf (hoffset : opts.startOffset = none) (h : lineKind line = .extinf) :
    writtenFrom crates opts baseUrl pending (line :: ls) =
      writtenFrom crates opts baseUrl (some line) ls := by
  rw [writtenFrom, processLinesFrom, processLine_eq hoffset, h]
  rfl

theorem writtenFrom_uri (hoffset : opts.startOffset = none) (h : lineKind line = .uri) :
    writtenFrom crates opts baseUrl pending (line :: ls) =
      pending.toList.map verbatim ++ rewriteLine crates opts baseUrl line
        :: writtenFrom crates opts baseUrl none ls := by
  rw [writtenFrom, processLinesFrom, processLine_eq hoffset, rewriteLine, h]
  exact List.append_assoc _ _ _

theorem writtenFrom_tag (hoffset : opts.startOffset = none) (h : lineKind line = .tag) :
    writtenFrom crates opts baseUrl pending (line :: ls) =
      rewriteUriValue (tagTarget crates opts baseUrl line) line
        :: writtenFrom crates opts baseUrl pending ls := by
  rw [writtenFrom, processLinesFrom, processLine_eq hoffset, h]
  rfl

end Kinds

/-- Lines get lost, but none is added. -/
theorem length_writtenFrom_le (crates : HlsCrates) (baseUrl : Str)
    (hoffset : opts.startOffset = none) (pending : Option Str) (ls : List Str) :
    (writtenFrom crates opts baseUrl pending ls).length ≤ pending.toList.length + ls.length := by
  induction ls generalizing pending with
  | nil => exact Nat.zero_le _
  | cons line ls ih =>
    rw [List.length_cons]
    cases h : lineKind line with
    | header =>
      rw [writtenFrom_header hoffset h, List.length_cons]
      exact Nat.succ_le_succ (ih pending)
    | extinf =>
      have hone := ih (some line)
      rw [Option.toList_some, List.length_singleton] at hone
      rw [writtenFrom_extinf hoffset h]
      omega
    | uri =>
      have hnone := ih none
      rw [Option.toList_none, List.length_nil] at hnone
      rw [writtenFrom_uri hoffset h, List.length_append, List.length_map, List.length_cons]
      omega
    | tag =>
      rw [writtenFrom_tag hoffset h, List.length_cons]
      exact Nat.succ_le_succ (ih pending)

theorem prefix_of_extinf {line : Str} (h : lineKind line = .extinf) : extinfTag <+: line := by
  unfold lineKind at h
  split at h
  · cases h
  split at h
  · next hprefix => exact List.isPrefixOf_iff_prefix.mp hprefix
  split at h <;> cases h

theorem not_prefix_of_tag {line : Str} (h : lineKind line = .tag) : ¬ extinfTag <+: line := by
  intro hprefix
  unfold lineKind at h
  rw [if_pos (List.isPrefixOf_iff_prefix.mpr hprefix)] at h
  split at h <;> cases h

/-- A line that is not a URI must not come while an EXTINF is withheld. -/
theorem not_preservedFrom_some (hoffset : opts.startOffset = none) {extinf : Str}
    (hextinf : lineKind extinf = .extinf) {ls : List Str}
    (h : ls.head?.map lineKind ≠ some .uri) :
    ¬ PreservedFrom crates opts baseUrl (some extinf) ls := by
  intro hpreserved
  unfold PreservedFrom at hpreserved
  cases ls with
  | nil => cases hpreserved
  | cons line ls =>
    rw [List.map_append, Option.toList_some, List.map_singleton, List.map_singleton,
      List.singleton_append] at hpreserved
    cases hkind : lineKind line with
    | header =>
      rw [writtenFrom_header hoffset hkind, List.map_cons, List.cons.injEq] at hpreserved
      -- the header is written first
      have hsame : line = extinf := by
        have hline := hpreserved.1
        rw [verbatim, verbatim, symbols_verbatim, symbols_verbatim] at hline
        exact List.map_injective_iff.mpr Sum.inl_injective hline
      rw [hsame, hextinf] at hkind
      cases hkind
    | extinf =>
      -- the first of two is lost
      rw [writtenFrom_extinf hoffset hkind] at hpreserved
      have hlength := congrArg List.length hpreserved
      have hle := length_writtenFrom_le crates baseUrl hoffset (some line) ls
      simp only [List.length_map, List.length_cons, Option.toList_some, List.length_nil]
        at hlength hle
      omega
    | uri => exact h (congrArg some hkind)
    | tag =>
      rw [writtenFrom_tag hoffset hkind, List.map_cons, List.cons.injEq] at hpreserved
      have hprefix : extinfTag.map .inl
          <+: symbols (rewriteUriValue (tagTarget crates opts baseUrl line) line) := by
        rw [hpreserved.1, verbatim, symbols_verbatim]
        exact (prefix_of_extinf hextinf).map _
      exact not_prefix_of_tag hkind (prefix_symbols_rewriteUriValue (by decide) hprefix)

section Steps

variable {line : Str} {ls : List Str}

theorem preservedFrom_header (hoffset : opts.startOffset = none) (h : lineKind line = .header) :
    PreservedFrom crates opts baseUrl none (line :: ls) ↔
      PreservedFrom crates opts baseUrl none ls := by
  have hline : rewriteLine crates opts baseUrl line = verbatim line := by rw [rewriteLine, h]
  unfold PreservedFrom
  rw [writtenFrom_header hoffset h, Option.toList_none, List.map_nil, List.nil_append,
    List.nil_append, List.map_cons, List.map_cons, List.map_cons, hline, List.cons_inj_right]

theorem preservedFrom_extinf (hoffset : opts.startOffset = none) (h : lineKind line = .extinf) :
    PreservedFrom crates opts baseUrl none (line :: ls) ↔
      PreservedFrom crates opts baseUrl (some line) ls := by
  have hline : rewriteLine crates opts baseUrl line = verbatim line := by rw [rewriteLine, h]
  unfold PreservedFrom
  rw [writtenFrom_extinf hoffset h, List.map_cons, hline]
  rfl

theorem preservedFrom_uri (hoffset : opts.startOffset = none) (h : lineKind line = .uri)
    (pending : Option Str) :
    PreservedFrom crates opts baseUrl pending (line :: ls) ↔
      PreservedFrom crates opts baseUrl none ls := by
  unfold PreservedFrom
  rw [writtenFrom_uri hoffset h, List.map_append, List.map_append, List.append_cancel_left_eq,
    List.map_cons, List.map_cons, List.map_cons, List.cons_inj_right]
  rfl

theorem preservedFrom_tag (hoffset : opts.startOffset = none) (h : lineKind line = .tag) :
    PreservedFrom crates opts baseUrl none (line :: ls) ↔
      OneUriChanges crates opts baseUrl line ∧ PreservedFrom crates opts baseUrl none ls := by
  have hline : rewriteLine crates opts baseUrl line
      = rewriteAllUris (tagTarget crates opts baseUrl line) line := by rw [rewriteLine, h]
  unfold PreservedFrom OneUriChanges
  rw [writtenFrom_tag hoffset h, List.map_cons, List.map_cons, hline,
    ← symbols_rewriteUriValue_eq_iff]
  exact List.cons_eq_cons

end Steps

theorem nothingWithheld : ∀ extinf ∈ (none : Option Str), lineKind extinf = .extinf :=
  fun _ h => absurd h (Option.not_mem_none _)

/-- **From here on.** -/
theorem preservedFrom_iff (hoffset : opts.startOffset = none) {pending : Option Str}
    (hpending : ∀ extinf ∈ pending, lineKind extinf = .extinf) {ls : List Str} :
    PreservedFrom crates opts baseUrl pending ls ↔
      (pending.isSome = true → ls.head?.map lineKind = some .uri) ∧ ExtinfsAttached ls ∧
      ∀ line ∈ ls, lineKind line = .tag → OneUriChanges crates opts baseUrl line := by
  induction ls generalizing pending with
  | nil =>
    cases pending with
    | none =>
      have hvacuous : (none : Option Str).isSome = true →
          ([] : List Str).head?.map lineKind = some .uri := fun h => absurd h Bool.false_ne_true
      exact iff_of_true rfl ⟨hvacuous, extinfsAttached_nil, List.forall_mem_nil _⟩
    | some extinf =>
      have hend : ([] : List Str).head?.map lineKind ≠ some .uri := by simp
      exact iff_of_false (not_preservedFrom_some hoffset (hpending extinf rfl) hend)
        fun h => hend (h.1 rfl)
  | cons line ls ih =>
    by_cases hhead : pending.isSome = true → (line :: ls).head?.map lineKind = some .uri
    · have hnone := ih nothingWithheld
      rw [extinfsAttached_cons, List.forall_mem_cons]
      by_cases huri : lineKind line = .uri
      · rw [preservedFrom_uri hoffset huri, hnone]
        simp [huri]
      · -- nothing is withheld
        have hpend : pending = none := by
          rw [← Option.not_isSome_iff_eq_none]
          exact fun hsome => huri (Option.some.inj (hhead hsome))
        subst hpend
        cases hkind : lineKind line with
        | header =>
          rw [preservedFrom_header hoffset hkind, hnone]
          simp
        | extinf =>
          have hsome := @ih (some line) fun _ h => Option.some.inj h ▸ hkind
          rw [preservedFrom_extinf hoffset hkind, hsome]
          simp [and_assoc]
        | uri => exact absurd hkind huri
        | tag =>
          rw [preservedFrom_tag hoffset hkind, hnone]
          simp [and_left_comm]
    · obtain ⟨hsome, hne⟩ := Classical.not_imp.mp hhead
      obtain ⟨extinf, rfl⟩ := Option.isSome_iff_exists.mp hsome
      exact iff_of_false (not_preservedFrom_some hoffset (hpending extinf rfl) hne)
        fun h => hhead h.1

theorem linesPreserved_iff_from (hskip : opts.skipRanges = []) {content : Str} :
    LinesPreserved crates opts baseUrl content ↔
      PreservedFrom crates opts baseUrl none (lines content) := by
  unfold LinesPreserved PreservedFrom writtenFrom processLines firstState
  rw [if_pos hskip, Option.toList_none, List.map_nil, List.nil_append, List.map_map]
  rfl

/-- **What the line path preserves.** The lines come back where every EXTINF stands right before its
URI and no tag has a second URI to rewrite. -/
theorem linesPreserved_iff (hskip : opts.skipRanges = []) (hoffset : opts.startOffset = none)
    {content : Str} :
    LinesPreserved crates opts baseUrl content ↔
      ExtinfsAttached (lines content) ∧
      ∀ line ∈ lines content, lineKind line = .tag → OneUriChanges crates opts baseUrl line := by
  rw [linesPreserved_iff_from hskip, preservedFrom_iff hoffset nothingWithheld]
  exact and_iff_right fun h => absurd h Bool.false_ne_true

/-- Where URIs go through the proxy, there is no second value. -/
theorem oneUriChanges_iff (hproxy : opts.noProxy = false) {line : Str} :
    OneUriChanges crates opts baseUrl line ↔ LoneUri line := by
  rw [OneUriChanges, loneUri_iff_behind]
  cases hvalue : splitFirstUri (behindFirstValue line) with
  | none => exact iff_of_true (by rw [rewriteAllUris_of_none hvalue, symbols_verbatim]) rfl
  | some p =>
    obtain ⟨before, value, behind⟩ := p
    refine iff_of_false (fun h => ?_) (Option.some_ne_none _)
    -- the URL of the proxy is no part of the text
    obtain ⟨endpoint, destination, htarget⟩ :
        ∃ endpoint destination, tagTarget crates opts baseUrl line value
          = .proxied endpoint destination := by
      simp only [tagTarget, target, hproxy]
      exact ⟨_, _, rfl⟩
    have hmem : .inr (endpoint, destination) ∈ symbols
        (rewriteAllUris (tagTarget crates opts baseUrl line) (behindFirstValue line)) := by
      rw [rewriteAllUris_of_some hvalue, htarget, symbols_cons_text, symbols_cons]
      exact List.mem_append_right _ List.mem_cons_self
    rw [h] at hmem
    obtain ⟨c, -, hc⟩ := List.mem_map.mp hmem
    cases hc

end LinePath

/-! ### Two playlists -/

def plainCrates : HlsCrates where
  parses _ := true
  join base path := some (base ++ path)
  parsePlaylist _ := none

/-- Every EXTINF before its URI, with a key. -/
def attachedLines : List Str :=
  ["#EXTM3U".toList, "#EXT-X-KEY:METHOD=AES-128,URI=\"key\"".toList, "#EXTINF:10,a".toList,
    "a.ts".toList]

theorem linesPreserved_attachedLines :
    LinesPreserved plainCrates {} "http://host/".toList (unlines attachedLines) := by
  have hlines : lines (unlines attachedLines) = attachedLines := by decide +kernel
  have hattached : ExtinfsAttached attachedLines := by
    simp only [attachedLines, extinfsAttached_cons, extinfsAttached_nil, and_true]
    decide +kernel
  have hvalues : ∀ line ∈ attachedLines, splitFirstUri (behindFirstValue line) = none := by
    decide +kernel
  refine (linesPreserved_iff rfl rfl).mpr ?_
  rw [hlines]
  exact ⟨hattached, fun line hline _ => (oneUriChanges_iff rfl).mpr
    (loneUri_iff_behind.mpr (hvalues line hline))⟩

/-- A tag between an EXTINF and its URI. -/
def groupedLines : List Str :=
  ["#EXTINF:10,a".toList, "#EXTGRP:Sports".toList, "a.ts".toList]

/-- The EXTINF goes behind the tag. -/
theorem not_linesPreserved_groupedLines :
    ¬ LinesPreserved plainCrates {} "http://host/".toList (unlines groupedLines) := by
  have hlines : lines (unlines groupedLines) = groupedLines := by decide +kernel
  rw [linesPreserved_iff_from rfl, preservedFrom_iff rfl nothingWithheld, hlines]
  intro h
  have hnext := h.2.1 _ _ (List.suffix_refl groupedLines) (by decide +kernel)
  exact absurd hnext (by decide +kernel)

end ManifestProcessor

end MediaFlow
