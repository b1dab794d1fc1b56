import MediaFlow.PlaylistBuilder.Handler

/-!
# The headers of an entry

A tag belongs to the entry that follows it. So the line of an entry should depend on the lines since
the previous entry only. But the builder forgets headers at the streams that it rewrites, and keeps
them at entries with other schemes, and at relative ones: the next stream gets them too, unless it
has values of its own for them.

`keepsHeaders_iff`: which entries are written as if nothing stood before their own lines.
-/

open Text UrlCoding

namespace MediaFlow

/-- An entry: a line that is neither empty nor a tag. -/
def IsEntry (line : Str) : Prop := trim line ≠ [] ∧ (trim line).head? ≠ some '#'

instance (line : Str) : Decidable (IsEntry line) := inferInstanceAs (Decidable (_ ∧ _))

/-- The lines since the last entry. -/
def ownLines (before : List Str) : List Str := before.rtakeWhile fun line => ¬ IsEntry line

/-- The lines up to the last entry. -/
def earlierLines (before : List Str) : List Str := before.rdropWhile fun line => ¬ IsEntry line

theorem earlierLines_append_ownLines (before : List Str) :
    earlierLines before ++ ownLines before = before :=
  List.rdropWhile_append_rtakeWhile

section Entry

variable (crates : PlaylistCrates) (baseUrl apiPassword : Str)

/-- What may be written for the `i`-th line. -/
def possibleLines (lines : List Str) (i : ℕ) : Set Str :=
  {text | ∃ it : Iteration, (rewriteLines crates baseUrl apiPassword it 0 ∅ lines)[i]? = some text}

/-- **The entry keeps to its lines**: what may be written for it is the same without the lines up to
the previous entry. -/
def KeepsHeaders (before : List Str) (entry : Str) (after : List Str) : Prop :=
  possibleLines crates baseUrl apiPassword (before ++ entry :: after) before.length
    = possibleLines crates baseUrl apiPassword (ownLines before ++ [entry]) (ownLines before).length

/-- A line whose headers are written with it. -/
def TakesHeaders (line : Str) : Prop :=
  ∃ url, playlistLine line = .stream url ∧
    contains url "pluto.tv".toList = false ∧ contains url "vavoo.to".toList = false

/-- The name is declared, and not forgotten since. -/
def Leftover (lines : List Str) (name : Str) : Prop :=
  ∃ a line b, lines = a ++ line :: b ∧ name ∈ declaredNames crates line ∧
    ∀ l ∈ b, ¬ Forgets crates l

/-- **The condition**: among the lines of the entry is one that forgets, or they declare all names
again that are left over. -/
def Redeclares (before : List Str) : Prop :=
  (∃ line ∈ ownLines before, Forgets crates line) ∨
    ∀ name, Leftover crates (earlierLines before) name →
      ∃ line ∈ ownLines before, name ∈ declaredNames crates line

end Entry

/-! ### The headers after some lines -/

section Collected

variable {crates : PlaylistCrates} {name : Str}

theorem leftover_concat {lines : List Str} {line : Str} :
    Leftover crates (lines ++ [line]) name ↔
      name ∈ declaredNames crates line ∨ ¬ Forgets crates line ∧ Leftover crates lines name := by
  constructor
  · rintro ⟨a, d, b, h, hname, hb⟩
    obtain rfl | ⟨b, z, rfl⟩ := List.eq_nil_or_concat' b
    · obtain ⟨-, hd⟩ := List.append_inj' h rfl
      exact .inl (List.singleton_inj.mp hd ▸ hname)
    · rw [← List.cons_append, ← List.append_assoc] at h
      obtain ⟨rfl, hz⟩ := List.append_inj' h rfl
      obtain rfl := List.singleton_inj.mp hz
      exact .inr ⟨hb _ (List.mem_append_right b (List.mem_singleton_self _)),
        a, d, b, rfl, hname, fun l hl => hb l (List.mem_append_left _ hl)⟩
  · rintro (hname | ⟨hkeeps, a, d, b, rfl, hname, hb⟩)
    · exact ⟨lines, line, [], rfl, hname, fun l hl => absurd hl List.not_mem_nil⟩
    · refine ⟨a, d, b ++ [line], by rw [List.append_assoc, List.cons_append], hname, fun l hl => ?_⟩
      obtain hl | hl := List.mem_append.mp hl
      · exact hb l hl
      · rwa [List.mem_singleton.mp hl]

/-- The names that are collected are those that are left over. -/
theorem mem_foldl_iff {lines : List Str} :
    name ∈ lines.foldl (headersAfter crates) ∅ ↔ Leftover crates lines name := by
  induction lines using List.reverseRecOn with
  | nil =>
    refine iff_of_false Finmap.notMem_empty ?_
    rintro ⟨a, line, b, h, -⟩
    cases a <;> cases h
  | append_singleton lines line ih =>
    rw [List.foldl_concat, mem_headersAfter, leftover_concat, ih]

/-- Where nothing is forgotten, a name is left over if it is declared. -/
theorem leftover_iff_of_keeps {lines : List Str} (h : ∀ line ∈ lines, ¬ Forgets crates line) :
    Leftover crates lines name ↔ ∃ line ∈ lines, name ∈ declaredNames crates line := by
  constructor
  · rintro ⟨a, line, b, rfl, hname, -⟩
    exact ⟨line, List.mem_append_right a List.mem_cons_self, hname⟩
  · rintro ⟨line, hline, hname⟩
    obtain ⟨a, b, rfl⟩ := List.append_of_mem hline
    exact ⟨a, line, b, rfl, hname,
      fun l hl => h l (List.mem_append_right a (List.mem_cons_of_mem _ hl))⟩

/-- Lines that forget nothing add to what there was. -/
theorem foldl_headersAfter_union {lines : List Str} (h : ∀ line ∈ lines, ¬ Forgets crates line)
    (headers older : Headers) :
    lines.foldl (headersAfter crates) (headers ∪ older)
      = lines.foldl (headersAfter crates) headers ∪ older := by
  induction lines generalizing headers with
  | nil => rfl
  | cons line lines ih =>
    rw [List.foldl_cons, List.foldl_cons, headersAfter_union (h line List.mem_cons_self),
      ih fun l hl => h l (List.mem_cons_of_mem line hl)]

/-- Behind a line that forgets, it does not matter what there was. -/
theorem foldl_headersAfter_of_forgets {lines : List Str} (h : ∃ line ∈ lines, Forgets crates line)
    (headers headers' : Headers) :
    lines.foldl (headersAfter crates) headers = lines.foldl (headersAfter crates) headers' := by
  obtain ⟨line, hline, hforgets⟩ := h
  obtain ⟨a, b, rfl⟩ := List.append_of_mem hline
  rw [List.foldl_append, List.foldl_append, List.foldl_cons, List.foldl_cons,
    headersAfter_of_forgets hforgets]

end Collected

/-! ### The text of an entry -/

section Written

variable {crates : PlaylistCrates} {baseUrl apiPassword : Str}

/-- A run that walks one map in a given order. -/
noncomputable def Iteration.ofList (walked : List HeaderEntry) : Iteration where
  walk := fun _ headers =>
    if (walked : Multiset HeaderEntry) = headers.entries then walked else headers.entries.toList
  entries := by
    intro n headers
    split
    · next h => exact h
    · exact Multiset.coe_toList _

theorem Iteration.walk_ofList {walked : List HeaderEntry} {headers : Headers}
    (h : (walked : Multiset HeaderEntry) = headers.entries) (n : ℕ) :
    (Iteration.ofList walked).walk n headers = walked := if_pos h

theorem getElem?_rewriteLines (it : Iteration) (before : List Str) (line : Str) (after : List Str) :
    (rewriteLines crates baseUrl apiPassword it 0 ∅ (before ++ line :: after))[before.length]?
      = some (writtenLine baseUrl apiPassword line
          (it.walk before.length (before.foldl (headersAfter crates) ∅))) := by
  rw [rewriteLines_append, List.getElem?_append_right (length_rewriteLines ..).le,
    length_rewriteLines,
    Nat.sub_self, Nat.zero_add, rewriteLines, List.getElem?_cons_zero]

/-- What may be written are the texts with the headers in any order. -/
theorem possibleLines_eq (before : List Str) (line : Str) (after : List Str) :
    possibleLines crates baseUrl apiPassword (before ++ line :: after) before.length
      = {text | ∃ walked : List HeaderEntry,
          (walked : Multiset HeaderEntry) = (before.foldl (headersAfter crates) ∅).entries ∧
            writtenLine baseUrl apiPassword line walked = text} := by
  ext text
  constructor
  · rintro ⟨it, htext⟩
    rw [getElem?_rewriteLines] at htext
    exact ⟨_, it.entries _ _, Option.some.inj htext⟩
  · rintro ⟨walked, hwalked, rfl⟩
    refine ⟨Iteration.ofList walked, ?_⟩
    rw [getElem?_rewriteLines, Iteration.walk_ofList hwalked]

/-- The length of the parameters. -/
def paramLength (entries : Multiset HeaderEntry) : ℕ :=
  (entries.map fun kv => (encode kv.1).length + (encode kv.2).length + 4).sum

theorem length_headerParams (walked : List HeaderEntry) :
    (headerParams walked).length = paramLength walked := by
  unfold headerParams paramLength
  rw [List.length_flatMap, Multiset.map_coe, Multiset.sum_coe]
  congr 1
  refine List.map_congr_left fun kv _ => ?_
  simp only [List.length_append, List.length_cons]
  change 3 + _ + (_ + 1) = _
  omega

/-- The length of a line that takes headers. -/
theorem exists_length_writtenLine {line : Str} (h : TakesHeaders line) :
    ∃ c, ∀ walked,
      (writtenLine baseUrl apiPassword line walked).length = c + paramLength walked := by
  obtain ⟨url, hkind, hpluto, hvavoo⟩ := h
  have hparams : ∀ (start : Str) (walked : List HeaderEntry),
      (start ++ ("d=".toList ++ encode url ++ headerParams walked
        ++ passwordParam apiPassword)).length
        = (start ++ ("d=".toList ++ encode url ++ passwordParam apiPassword)).length
          + paramLength walked := by
    intro start walked
    simp only [List.length_append, length_headerParams]
    omega
  unfold writtenLine rewriteStreamUrl
  simp only [hkind, hpluto, hvavoo, Bool.false_eq_true, if_false]
  split
  · exact ⟨_, hparams _⟩
  · split
    · exact ⟨_, hparams _⟩
    · exact ⟨_, hparams _⟩

/-- Other lines do not depend on the headers. -/
theorem writtenLine_of_not_takes {line : Str} (h : ¬ TakesHeaders line)
    (walked walked' : List HeaderEntry) :
    writtenLine baseUrl apiPassword line walked = writtenLine baseUrl apiPassword line walked' := by
  unfold writtenLine
  cases hkind : playlistLine line with
  | stream url =>
    unfold rewriteStreamUrl
    by_cases hpluto : contains url "pluto.tv".toList
    · simp only [hpluto, if_true]
    · by_cases hvavoo : contains url "vavoo.to".toList
      · simp only [hpluto, hvavoo, if_true]
      · rw [Bool.not_eq_true] at hpluto hvavoo
        exact absurd ⟨url, hkind, hpluto, hvavoo⟩ h
  | extVlcOpt opt => rfl
  | extHttp json => rfl
  | tag => rfl
  | other => rfl

end Written

/-! ### Whose headers an entry has -/

section Keeps

variable {crates : PlaylistCrates} {baseUrl apiPassword : Str}

/-- Headers with others below them. -/
theorem entries_le_union (headers older : Headers) :
    headers.entries ≤ (headers ∪ older).entries := by
  rw [Multiset.le_iff_subset headers.nodup_entries]
  rintro ⟨name, value⟩ hmem
  rw [← Finmap.lookup_eq_some_iff] at hmem ⊢
  rw [Finmap.lookup_union_left (Finmap.mem_of_lookup_eq_some hmem), hmem]

theorem paramLength_add (s t : Multiset HeaderEntry) :
    paramLength (s + t) = paramLength s + paramLength t := by
  unfold paramLength
  rw [Multiset.map_add, Multiset.sum_add]

/-- The texts of a line that takes headers tell whether there are more. -/
theorem union_eq_of_texts {line : Str} (htakes : TakesHeaders line) {headers older : Headers}
    (h : {text | ∃ walked : List HeaderEntry,
        (walked : Multiset HeaderEntry) = (headers ∪ older).entries ∧
        writtenLine baseUrl apiPassword line walked = text}
      = {text | ∃ walked : List HeaderEntry, (walked : Multiset HeaderEntry) = headers.entries ∧
        writtenLine baseUrl apiPassword line walked = text}) : headers ∪ older = headers := by
  obtain ⟨c, hlength⟩ := @exists_length_writtenLine baseUrl apiPassword line htakes
  obtain ⟨rest, hrest⟩ := Multiset.le_iff_exists_add.mp (entries_le_union headers older)
  -- one of the longer texts would have to be one of the others
  have hmem := h.subset ⟨(headers ∪ older).entries.toList, Multiset.coe_toList _, rfl⟩
  obtain ⟨walked, hwalked, htext⟩ := hmem
  have hsame := congrArg List.length htext
  rw [hlength, hlength, hwalked, Multiset.coe_toList, hrest, paramLength_add] at hsame
  have hzero : rest = 0 := by
    induction rest using Multiset.induction with
    | empty => rfl
    | cons kv rest _ =>
      unfold paramLength at hsame
      rw [Multiset.map_cons, Multiset.sum_cons] at hsame
      omega
  rw [hzero, add_zero] at hrest
  exact Finmap.ext hrest

/-- Headers below others make no difference if all their names are taken. -/
theorem union_eq_left_iff {headers older : Headers} :
    headers ∪ older = headers ↔ ∀ name ∈ older, name ∈ headers := by
  constructor
  · intro h name hname
    rw [← h]
    exact Finmap.mem_union.mpr (.inr hname)
  · intro h
    refine Finmap.ext_lookup fun name => ?_
    by_cases hname : name ∈ headers
    · exact Finmap.lookup_union_left hname
    · rw [Finmap.lookup_union_right hname, Finmap.lookup_eq_none.mpr hname,
        Finmap.lookup_eq_none.mpr fun holder => hname (h name holder)]

/-- **Headers stay with their entry** exactly if it takes none, or its lines declare anew what is
left over. -/
theorem keepsHeaders_iff (before : List Str) (entry : Str) (after : List Str) :
    KeepsHeaders crates baseUrl apiPassword before entry after ↔
      (TakesHeaders entry → Redeclares crates before) := by
  have hsplit : before.foldl (headersAfter crates) ∅ = (ownLines before).foldl (headersAfter crates)
      ((earlierLines before).foldl (headersAfter crates) ∅) := by
    rw [← List.foldl_append, earlierLines_append_ownLines]
  unfold KeepsHeaders
  rw [possibleLines_eq, possibleLines_eq, hsplit]
  by_cases htakes : TakesHeaders entry
  · rw [imp_iff_right htakes]
    by_cases hforgets : ∃ line ∈ ownLines before, Forgets crates line
    · rw [foldl_headersAfter_of_forgets hforgets _ ∅]
      exact iff_of_true rfl (.inl hforgets)
    · have hkeeps : ∀ line ∈ ownLines before, ¬ Forgets crates line :=
        fun line hline h => hforgets ⟨line, hline, h⟩
      have hunion := foldl_headersAfter_union hkeeps ∅
        ((earlierLines before).foldl (headersAfter crates) ∅)
      rw [Finmap.empty_union] at hunion
      have hnames : Redeclares crates before ↔
          ∀ name ∈ (earlierLines before).foldl (headersAfter crates) ∅,
            name ∈ (ownLines before).foldl (headersAfter crates) ∅ := by
        unfold Redeclares
        rw [or_iff_right hforgets]
        simp only [mem_foldl_iff, leftover_iff_of_keeps hkeeps]
      rw [hunion, hnames, ← union_eq_left_iff]
      exact ⟨union_eq_of_texts htakes, fun h => by rw [h]⟩
  · refine iff_of_true ?_ fun h => absurd h htakes
    -- each text is the one of any headers
    have hany : ∀ (headers headers' : Headers) (text : Str),
        (∃ walked : List HeaderEntry, (walked : Multiset HeaderEntry) = headers.entries ∧
          writtenLine baseUrl apiPassword entry walked = text) →
        ∃ walked : List HeaderEntry, (walked : Multiset HeaderEntry) = headers'.entries ∧
          writtenLine baseUrl apiPassword entry walked = text := by
      rintro headers headers' text ⟨walked, -, rfl⟩
      exact ⟨headers'.entries.toList, Multiset.coe_toList _, writtenLine_of_not_takes htakes _ _⟩
    exact Set.ext fun text => ⟨hany _ _ text, hany _ _ text⟩

/-- A reader that finds no JSON. -/
def noJsonCrates : PlaylistCrates where
  toLowercase := fun s => s.map Char.toLower
  fromStr := fun _ => none

/-- A playlist where an RTMP stream has a header. -/
def rtmpLines : List Str := ["#EXTVLCOPT:http-user-agent=X".toList, "rtmp://a".toList]

/-- The user agent of the RTMP stream is sent to the next one. -/
theorem not_keepsHeaders_rtmp :
    ¬ KeepsHeaders noJsonCrates "http://p".toList [] rtmpLines "http://b".toList [] := by
  have hown : ownLines rtmpLines = [] := by decide
  have hearlier : earlierLines rtmpLines = rtmpLines := by decide
  have hleft : Leftover noJsonCrates rtmpLines "user-agent".toList := by
    refine ⟨[], "#EXTVLCOPT:http-user-agent=X".toList, ["rtmp://a".toList], rfl, by decide, ?_⟩
    rw [List.forall_mem_singleton]
    unfold Forgets
    rw [show playlistLine "rtmp://a".toList = .other by decide]
    exact not_false
  rw [keepsHeaders_iff, Classical.not_imp]
  refine ⟨⟨"http://b".toList, by decide, by decide, by decide⟩, ?_⟩
  unfold Redeclares
  rw [hown, hearlier]
  rintro (⟨line, hline, -⟩ | h)
  · exact List.not_mem_nil hline
  · obtain ⟨line, hline, -⟩ := h _ hleft
    exact List.not_mem_nil hline

end Keeps

end MediaFlow
