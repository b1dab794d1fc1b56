import MediaFlow.Lib.Json
import MediaFlow.Lib.Lines
import MediaFlow.Lib.UrlCoding
import Mathlib.Data.Finmap

/-!
# The playlist builder

`rewrite_m3u` of `playlist_builder/handler.rs` sends the streams of a playlist through the proxy.
Tags before a stream declare headers, which become parameters of its new URL. The headers are in a
`HashMap`, which is walked in any order, so what a run needs besides the playlist is its order for
each map (`Iteration`).

The properties of Kodi are collected too, but nothing reads them; their lines are passed like other
tags.
-/

open Text UrlCoding

namespace MediaFlow

abbrev HeaderEntry := (_ : Str) × Str

/-- `HashMap<String, String>`. -/
abbrev Headers := Finmap fun _ : Str => Str

/-- The orders in which the maps of a run are walked. -/
structure Iteration where
  walk : ℕ → Headers → List HeaderEntry
  entries : ∀ n headers, (walk n headers : Multiset HeaderEntry) = headers.entries

/-- What other code does for the builder. -/
structure PlaylistCrates where
  /-- `str::to_lowercase`. -/
  toLowercase : Str → Str
  /-- `serde_json::from_str`. -/
  fromStr : Str → Option Json.Value

/-! ### Lines -/

inductive PlaylistLine
  | extVlcOpt (opt : Str)
  | extHttp (json : Str)
  /-- Other tags, and empty lines. -/
  | tag
  | stream (url : Str)
  /-- An entry that is not rewritten. -/
  | other
deriving DecidableEq

/-- The branch that a line takes. -/
def playlistLine (line : Str) : PlaylistLine :=
  let logical := trim line
  match stripPrefix "#EXTVLCOPT:".toList logical with
  | some opt => .extVlcOpt opt
  | none =>
    match stripPrefix "#EXTHTTP:".toList logical with
    | some json => .extHttp json
    | none =>
      if "#KODIPROP:".toList.isPrefixOf logical then .tag
      else if logical = [] ∨ logical.head? = some '#' then .tag
      else if "http://".toList.isPrefixOf logical ∨ "https://".toList.isPrefixOf logical then
        .stream logical
      else .other

section Builder

variable (crates : PlaylistCrates)

/-- The header that a `#EXTVLCOPT:` line declares. -/
def vlcHeader (opt : Str) : Option (Str × Str) :=
  match splitOnce '=' opt with
  | none => none
  | some (k, v) =>
    if trim k = "http-header".toList then
      (splitOnce ':' (trim v)).map fun kv => (crates.toLowercase (trim kv.1), trim kv.2)
    else (stripPrefix "http-".toList (trim k)).map fun hname => (crates.toLowercase hname, trim v)

/-- The headers of a `#EXTHTTP:` line, if it has an object. -/
def httpHeaders (json : Str) : Option (List (Str × Str)) :=
  match crates.fromStr json with
  | some (.object map) =>
    some (map.filterMap fun kv => kv.2.asStr.map fun s => (crates.toLowercase kv.1, s))
  | _ => none

/-- `collect` into a map: the last value of a name stays. -/
def collectHeaders (pairs : List (Str × Str)) : Headers :=
  pairs.foldl (fun m kv => m.insert kv.1 kv.2) ∅

/-- The headers after a line. -/
def headersAfter (headers : Headers) (line : Str) : Headers :=
  match playlistLine line with
  | .extVlcOpt opt =>
    match vlcHeader crates opt with
    | some (name, value) => headers.insert name value
    | none => headers
  | .extHttp json =>
    match httpHeaders crates json with
    | some pairs => collectHeaders pairs
    | none => headers
  | .tag => headers
  | .stream _ => ∅
  | .other => headers

end Builder

/-! ### URLs -/

/-- The parameters of the headers, in the order in which they are walked. -/
def headerParams (walked : List HeaderEntry) : Str :=
  walked.flatMap fun kv => "&h_".toList ++ encode kv.1 ++ '=' :: encode kv.2

def passwordParam (apiPassword : Str) : Str :=
  if apiPassword = [] then [] else "&api_password=".toList ++ encode apiPassword

section Builder

variable (crates : PlaylistCrates) (baseUrl apiPassword : Str)

/-- `rewrite_stream_url`. -/
def rewriteStreamUrl (url : Str) (walked : List HeaderEntry) : Str :=
  if contains url "pluto.tv".toList then url
  else if contains url "vavoo.to".toList then
    baseUrl ++ "/proxy/hls/manifest?d=".toList ++ encode url ++ passwordParam apiPassword
  else
    let params := "d=".toList ++ encode url ++ headerParams walked ++ passwordParam apiPassword
    if contains url ".m3u8".toList || contains url "m3u8".toList then
      baseUrl ++ "/proxy/hls/manifest?".toList ++ params
    else if ".mpd".toList.isSuffixOf url || contains url ".mpd?".toList then
      baseUrl ++ "/proxy/mpd/manifest?".toList ++ params
    else baseUrl ++ "/proxy/stream?".toList ++ params

/-- The line that is written. -/
def writtenLine (line : Str) (walked : List HeaderEntry) : Str :=
  match playlistLine line with
  | .stream url => rewriteStreamUrl baseUrl apiPassword url walked
  | .extVlcOpt _ | .extHttp _ | .tag | .other => line

/-- The loop over the lines, from the `n`-th on. -/
def rewriteLines (it : Iteration) : ℕ → Headers → List Str → List Str
  | _, _, [] => []
  | n, headers, line :: rest =>
    writtenLine baseUrl apiPassword line (it.walk n headers)
      :: rewriteLines it (n + 1) (headersAfter crates headers line) rest

/-- `rewrite_m3u`. -/
def rewriteM3u (it : Iteration) (content : Str) : Str :=
  unlines (rewriteLines crates baseUrl apiPassword it 0 ∅ (lines content))

end Builder

/-! ### The loop -/

section Loop

variable {crates : PlaylistCrates} {baseUrl apiPassword : Str} {it : Iteration}

@[simp] theorem length_rewriteLines (n : ℕ) (headers : Headers) (ls : List Str) :
    (rewriteLines crates baseUrl apiPassword it n headers ls).length = ls.length := by
  induction ls generalizing n headers with
  | nil => rfl
  | cons line ls ih => rw [rewriteLines, List.length_cons, ih, List.length_cons]

/-- Some lines, and what follows with the headers after them. -/
theorem rewriteLines_append (n : ℕ) (headers : Headers) (before after : List Str) :
    rewriteLines crates baseUrl apiPassword it n headers (before ++ after)
      = rewriteLines crates baseUrl apiPassword it n headers before
        ++ rewriteLines crates baseUrl apiPassword it (n + before.length)
            (before.foldl (headersAfter crates) headers) after := by
  induction before generalizing n headers with
  | nil => rfl
  | cons line before ih =>
    rw [List.cons_append, rewriteLines, ih, rewriteLines, List.cons_append, List.foldl_cons,
      List.length_cons, Nat.add_right_comm, Nat.add_assoc]

/-- **One line of the text** that is returned. -/
theorem rewriteM3u_of_lines {content line : Str} {before after : List Str}
    (h : lines content = before ++ line :: after) :
    rewriteM3u crates baseUrl apiPassword it content
      = unlines (rewriteLines crates baseUrl apiPassword it 0 ∅ before)
        ++ (writtenLine baseUrl apiPassword line
              (it.walk before.length (before.foldl (headersAfter crates) ∅)) ++ ['\n'])
        ++ unlines (rewriteLines crates baseUrl apiPassword it (before.length + 1)
            (headersAfter crates (before.foldl (headersAfter crates) ∅) line) after) := by
  unfold rewriteM3u unlines
  rw [h, rewriteLines_append, Nat.zero_add, rewriteLines, List.flatMap_append, List.flatMap_cons,
    ← List.append_assoc]

end Loop

/-! ### The headers that are collected -/

section Collected

variable {crates : PlaylistCrates}

theorem mem_collectHeaders {pairs : List (Str × Str)} {name : Str} :
    name ∈ collectHeaders pairs ↔ name ∈ pairs.map Prod.fst := by
  have hfold : ∀ m : Headers, name ∈ pairs.foldl (fun m kv => m.insert kv.1 kv.2) m ↔
      name ∈ m ∨ name ∈ pairs.map Prod.fst := by
    induction pairs with
    | nil => exact fun m => ⟨.inl, fun h => h.resolve_right List.not_mem_nil⟩
    | cons kv pairs ih =>
      intro m
      rw [List.foldl_cons, ih, Finmap.mem_insert, List.map_cons, List.mem_cons,
        or_comm (a := name = kv.1),
        or_assoc]
  exact (hfold ∅).trans ⟨fun h => h.resolve_left Finmap.notMem_empty, .inr⟩

/-- The names that a line declares. -/
def declaredNames (crates : PlaylistCrates) (line : Str) : List Str :=
  match playlistLine line with
  | .extVlcOpt opt => (vlcHeader crates opt).toList.map Prod.fst
  | .extHttp json => ((httpHeaders crates json).getD []).map Prod.fst
  | .tag | .stream _ | .other => []

/-- The line makes the builder forget the headers before. -/
def Forgets (crates : PlaylistCrates) (line : Str) : Prop :=
  match playlistLine line with
  | .extHttp json => (httpHeaders crates json).isSome
  | .stream _ => True
  | .extVlcOpt _ | .tag | .other => False

/-- **One line**: which names there are after it. -/
theorem mem_headersAfter {headers : Headers} {line name : Str} :
    name ∈ headersAfter crates headers line ↔
      name ∈ declaredNames crates line ∨ ¬ Forgets crates line ∧ name ∈ headers := by
  unfold headersAfter declaredNames Forgets
  cases playlistLine line with
  | extVlcOpt opt =>
    dsimp only
    cases vlcHeader crates opt with
    | none => simp
    | some kv => simp [Finmap.mem_insert]
  | extHttp json =>
    dsimp only
    cases httpHeaders crates json with
    | none => simp
    | some pairs => simp [mem_collectHeaders]
  | tag => simp
  | stream url => simp [Finmap.notMem_empty]
  | other => simp

/-- A line that forgets does so whatever there was. -/
theorem headersAfter_of_forgets {line : Str} (h : Forgets crates line)
    (headers headers' : Headers) :
    headersAfter crates headers line = headersAfter crates headers' line := by
  unfold Forgets at h
  unfold headersAfter
  cases hkind : playlistLine line with
  | extVlcOpt opt => rw [hkind] at h; exact h.elim
  | extHttp json =>
    rw [hkind] at h
    obtain ⟨pairs, hpairs⟩ := Option.isSome_iff_exists.mp h
    simp only [hpairs]
  | tag => rw [hkind] at h; exact h.elim
  | stream url => rfl
  | other => rw [hkind] at h; exact h.elim

/-- Other lines add to what there was. -/
theorem headersAfter_union {line : Str} (h : ¬ Forgets crates line) (headers older : Headers) :
    headersAfter crates (headers ∪ older) line = headersAfter crates headers line ∪ older := by
  unfold Forgets at h
  unfold headersAfter
  cases hkind : playlistLine line with
  | extVlcOpt opt =>
    dsimp only
    cases vlcHeader crates opt with
    | none => rfl
    | some kv => exact Finmap.insert_union
  | extHttp json =>
    rw [hkind] at h
    rw [Bool.not_eq_true, Option.isSome_eq_false_iff, Option.isNone_iff_eq_none] at h
    simp only [h]
  | tag => rfl
  | stream url => rw [hkind] at h; exact absurd trivial h
  | other => rfl

end Collected

end MediaFlow
