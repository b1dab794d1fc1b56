import MediaFlow.Lib.Digits
import MediaFlow.Mpd.Handler
import MediaFlow.Mpd.SidxBox

/-!
# Files with a segment index

The file of a `SegmentBase` representation: its init segment, the `sidx` box behind other boxes, and
the media that the references of the box stand for (`IndexedFile`). A server that gives the ranges of
the file (`ServesRanges`) gives the init segment, and each subsegment in the range that
`parse_sidx_fragments` finds for it (`map_fileRange_fragments`), so that the profile is expanded to
the subsegments (`expandSegmentBaseSegments_eq`).
-/

open ByteString Text UrlCoding

namespace MediaFlow

/-! ### Ranges -/

/-- A range of bytes, the last one included. -/
def rangeText (first last : ℕ) : Str := decimal first ++ '-' :: decimal last

def fileRange (file : Bytes) (first last : ℕ) : Bytes := (file.drop first).take (last + 1 - first)

/-- The range of what stands between two parts of a file. -/
theorem fileRange_append {pre part : Bytes} (hpart : part ≠ []) (rest : Bytes) :
    fileRange (pre ++ (part ++ rest)) pre.length (pre.length + part.length - 1) = part := by
  have hpos := List.length_pos_iff.mpr hpart
  have hlen : pre.length + part.length - 1 + 1 - pre.length = part.length := by omega
  rw [fileRange, List.drop_left, hlen, List.take_left]

/-- A range that begins with a part goes on with some of what comes behind. -/
theorem fileRange_of_le {pre part : Bytes} {last : ℕ} (h : pre.length + part.length ≤ last + 1)
    (rest : Bytes) :
    fileRange (pre ++ (part ++ rest)) pre.length last =
      part ++ rest.take (last + 1 - pre.length - part.length) := by
  rw [fileRange, List.drop_left, List.take_append, List.take_of_length_le (by omega)]

/-- The server of a URL has the file and gives its ranges, whatever the other headers are. -/
structure ServesRanges (up : MpdUpstream) (url : Str) (file : Bytes) : Prop where
  fetchBytes : ∀ {headers : List (Str × Bytes)} {first last : ℕ}, first ≤ last → last < file.length →
    headers.lookup rangeName = some (utf8 ("bytes=".toList ++ rangeText first last)) →
    up.fetchBytes url headers = .ok (fileRange file first last)
  createStream : ∀ {headers : List (Str × Bytes)} {first last : ℕ}, first ≤ last → last < file.length →
    headers.lookup rangeName = some (utf8 ("bytes=".toList ++ rangeText first last)) →
    ∃ chunks : List Bytes, up.createStream url headers = .ok (some (chunks.map .ok)) ∧
      chunks.flatten = fileRange file first last

/-- Ranges are valid values of headers. -/
def HeaderCrates.WritesRanges (crates : HeaderCrates) : Prop :=
  ∀ first last, crates.headerValue ("bytes=".toList ++ rangeText first last) =
    some (utf8 ("bytes=".toList ++ rangeText first last))

theorem lookup_insertHeader (headers : List (Str × Bytes)) (name : Str) (value : Bytes) :
    (insertHeader headers name value).lookup name = some value := by
  unfold insertHeader
  by_cases h : headers.any fun h => h.1 = name
  · rw [if_pos h]
    induction headers with
    | nil => cases h
    | cons header headers ih =>
      by_cases hname : header.1 = name
      · rw [List.map_cons, if_pos hname, List.lookup_cons_self]
      · have hrest : (headers.any fun h => h.1 = name) = true := by
          simpa only [List.any_cons, hname, decide_false, Bool.false_or] using h
        have hne : (name == header.1) = false := beq_eq_false_iff_ne.mpr (Ne.symm hname)
        rw [List.map_cons, if_neg hname, List.lookup_cons, hne]
        exact ih hrest
  · rw [if_neg h, List.lookup_append]
    have hnone : headers.lookup name = none := by
      rw [List.lookup_eq_none_iff]
      intro header hheader
      have hne := List.any_eq_false.mp (Bool.eq_false_iff.mpr h) header hheader
      exact bne_iff_ne.mpr fun heq => hne (decide_eq_true heq.symm)
    rw [hnone, Option.none_or, List.lookup_cons_self]

section Fetching

variable {crates : HeaderCrates} {up : MpdUpstream} {url : Str} {file : Bytes}
  (hcrates : crates.WritesRanges) (hserves : ServesRanges up url file)

include hcrates

theorem lookup_withRange (first last : ℕ) (headers : List (Str × Bytes)) :
    (withRange crates (rangeText first last) headers).lookup rangeName =
      some (utf8 ("bytes=".toList ++ rangeText first last)) := by
  unfold withRange
  rw [hcrates]
  exact lookup_insertHeader _ _ _

include hserves

theorem fetchWithRange_eq {first last : ℕ} (hle : first ≤ last) (hlt : last < file.length)
    (headers : List (Str × Bytes)) :
    fetchWithRange crates up url (some (rangeText first last)) headers =
      .ok (fileRange file first last) :=
  hserves.fetchBytes hle hlt (lookup_withRange hcrates first last headers)

theorem createStream_withRange {first last : ℕ} (hle : first ≤ last) (hlt : last < file.length)
    (headers : List (Str × Bytes)) :
    ∃ chunks : List Bytes, up.createStream url (withRange crates (rangeText first last) headers) =
      .ok (some (chunks.map .ok)) ∧ chunks.flatten = fileRange file first last :=
  hserves.createStream hle hlt (lookup_withRange hcrates first last headers)

end Fetching

/-! ### The file -/

/-- A file of init segment, index and media. Each reference of the index comes with the bytes that it
stands for; the media are those of the references that are not to further indexes. -/
structure IndexedFile where
  init : Bytes
  /-- What comes before the range of the index. -/
  between : Bytes
  /-- Boxes before the `sidx` box, in the range of the index. -/
  items : List Mp4Atom
  index : SidxBox
  gap : Bytes
  parts : List Bytes
  tail : Bytes
  init_ne : init ≠ []
  items_fit : ∀ a ∈ items, a.Fits
  items_ne : ∀ a ∈ items, a.atomType ≠ .sidx
  timescale_pos : 0 < index.timescale.toNat
  gap_length : gap.length = index.firstOffset.toNat
  sized : List.Forall₂ (fun e part => e.size = part.length ∧ part ≠ []) index.refs parts
  exists_media : ∃ e ∈ index.references, e.isIndex = false

/-- The parts that are media. -/
def mediaParts (refs : List SidxReference) (parts : List Bytes) : List Bytes :=
  ((refs.zip parts).filter fun p => !p.1.isIndex).map Prod.snd

namespace IndexedFile

variable (file : IndexedFile)

def subsegments : List Bytes := mediaParts file.index.refs file.parts

/-- The boxes up to the end of the index. -/
def indexBoxes : Bytes := file.items.flatMap Mp4Atom.pack ++ file.index.box.pack

def bytes : Bytes :=
  (file.init ++ file.between) ++
    (file.indexBoxes ++ (file.gap ++ (file.parts.flatten ++ file.tail)))

/-- Where the range of the index begins. -/
def indexStart : ℕ := (file.init ++ file.between).length

/-- Where the references begin. -/
def mediaStart : ℕ := file.indexStart + file.indexBoxes.length + file.gap.length

end IndexedFile

/-! ### The fragments -/

section Fragments

variable (timescale : ℕ) {refs : List SidxReference} {parts : List Bytes}
  (h : List.Forall₂ (fun e part => SidxReference.size e = part.length ∧ part ≠ []) refs parts)

include h

theorem totalSize_eq : totalSize refs = parts.flatten.length := by
  induction h with
  | nil => rfl
  | cons hpart _ ih => rw [totalSize_cons, List.flatten_cons, List.length_append, hpart.1, ih]

/-- **The ranges of the fragments** are those of the media. -/
theorem map_fileRange_fragmentsOf (pre tail : Bytes) :
    (fragmentsOf timescale refs pre.length).map (fun f =>
        fileRange (pre ++ (parts.flatten ++ tail)) f.start f.last) = mediaParts refs parts := by
  induction h generalizing pre with
  | nil => rfl
  | @cons e part refs parts hpart _ ih =>
    have hnext := ih (pre ++ part)
    rw [List.length_append, ← hpart.1] at hnext
    have hbytes : pre ++ ((part :: parts).flatten ++ tail) =
        (pre ++ part) ++ (parts.flatten ++ tail) := by
      rw [List.flatten_cons, List.append_assoc, List.append_assoc]
    rw [fragmentsOf, hbytes]
    unfold mediaParts at hnext ⊢
    rw [List.zip_cons_cons, List.filter_cons]
    cases e.isIndex with
    | true => exact hnext
    | false =>
      have hfirst := @fileRange_append pre _ hpart.2 (parts.flatten ++ tail)
      rw [← hpart.1, ← List.append_assoc] at hfirst
      simp only [Bool.false_eq_true, if_false, Bool.not_false, if_true, List.map_cons, hnext, hfirst]

/-- The ranges lie in the file. -/
theorem fragmentsOf_inside (pre tail : Bytes) :
    ∀ f ∈ fragmentsOf timescale refs pre.length,
      f.start ≤ f.last ∧ f.last < (pre ++ (parts.flatten ++ tail)).length := by
  induction h generalizing pre with
  | nil => exact List.forall_mem_nil _
  | @cons e part refs parts hpart _ ih =>
    have hnext := ih (pre ++ part)
    have hpos := List.length_pos_iff.mpr hpart.2
    rw [List.length_append, ← hpart.1] at hnext
    have hbytes : pre ++ ((part :: parts).flatten ++ tail) =
        (pre ++ part) ++ (parts.flatten ++ tail) := by
      rw [List.flatten_cons, List.append_assoc, List.append_assoc]
    rw [fragmentsOf, hbytes]
    cases e.isIndex with
    | true => exact hnext
    | false =>
      refine List.forall_mem_cons.mpr ⟨⟨?_, ?_⟩, hnext⟩
      · show pre.length ≤ pre.length + e.size - 1
        omega
      · show pre.length + e.size - 1 < _
        simp only [List.length_append]
        omega

end Fragments

namespace IndexedFile

variable {file : IndexedFile}

/-- The fragments that the index stands for. -/
def fragments (file : IndexedFile) : List SidxFragment :=
  fragmentsOf file.index.timescale.toNat file.index.refs file.mediaStart

theorem bytes_eq : ∃ pre : Bytes, pre.length = file.mediaStart ∧
    file.bytes = pre ++ (file.parts.flatten ++ file.tail) := by
  refine ⟨(file.init ++ file.between) ++ (file.indexBoxes ++ file.gap), ?_, ?_⟩
  · simp only [mediaStart, indexStart, List.length_append, Nat.add_assoc]
  · unfold bytes
    simp only [List.append_assoc]

theorem map_fileRange_fragments :
    file.fragments.map (fun f => fileRange file.bytes f.start f.last) = file.subsegments := by
  obtain ⟨pre, hpre, hbytes⟩ := file.bytes_eq
  rw [fragments, ← hpre, hbytes]
  exact map_fileRange_fragmentsOf _ file.sized pre file.tail

theorem fragments_inside : ∀ f ∈ file.fragments, f.start ≤ f.last ∧ f.last < file.bytes.length := by
  obtain ⟨pre, hpre, hbytes⟩ := file.bytes_eq
  rw [fragments, ← hpre, hbytes]
  exact fragmentsOf_inside _ file.sized pre file.tail

theorem fragments_ne_nil : file.fragments ≠ [] := by
  unfold fragments
  rw [Ne, fragmentsOf_eq_nil_iff]
  intro hall
  obtain ⟨e, he, hmedia⟩ := file.exists_media
  exact Bool.false_ne_true (hmedia.symm.trans (hall _ (List.mem_map_of_mem he)))

/-- **The index is read.** The range must reach to the end of the box. -/
theorem parseSidxFragments_eq (hlen : file.bytes.length < 2 ^ 63) (rest : Bytes)
    (hrest : rest.length < 2 ^ 63 - file.indexBoxes.length) :
    parseSidxFragments (file.indexBoxes ++ rest) file.indexStart = file.fragments := by
  have hboxes : file.items.flatMap Mp4Atom.pack = encodeBoxes (file.items.map (·, .short)) := by
    rw [encodeBoxes, List.flatMap_map]
    rfl
  have hall : ∀ p ∈ file.items.map (·, HeaderForm.short), p.2 = .short :=
    List.forall_mem_map.mpr fun _ _ => rfl
  have hform : file.index.box.FitsForm .short := file.index.fits
  have hcount : (file.items.map (·, HeaderForm.short)).length < (file.indexBoxes ++ rest).length + 1 := by
    have hle := length_le_length_flatMap_encode (file.items.map (·, HeaderForm.short))
    rw [← encodeBoxes, ← hboxes] at hle
    rw [indexBoxes, List.length_append, List.length_append]
    omega
  have hscan := sidxAtFrom_encode (List.forall_mem_map.mpr file.items_ne)
    (List.forall_mem_map.mpr file.items_fit) rfl hform [] rest _ hcount
  rw [List.nil_append, List.length_nil, Nat.zero_add, if_pos ⟨hall, rfl⟩, ← hboxes] at hscan
  have hdata : file.items.flatMap Mp4Atom.pack ++ (file.index.box.pack ++ rest) =
      file.indexBoxes ++ rest := (List.append_assoc ..).symm
  have hsize : beAt (file.indexBoxes ++ rest) (file.items.flatMap Mp4Atom.pack).length 4 =
      file.index.box.pack.length := by
    unfold indexBoxes
    rw [beAt_pack _ rest file.index.fits, Mp4Atom.length_pack]
  have hheader := readSidxHeader_box file.index (file.items.flatMap Mp4Atom.pack) rest
  have hrefs := readReferences_box file.index (file.items.flatMap Mp4Atom.pack) rest
  rw [hdata] at hheader hrefs
  rw [Mp4Atom.encode, hdata] at hscan
  obtain ⟨pre, hpre, hbytes⟩ := file.bytes_eq
  have hmedia : file.mediaStart + totalSize file.index.refs < 2 ^ 63 := by
    rw [totalSize_eq file.sized, ← hpre]
    refine lt_of_le_of_lt ?_ hlen
    rw [hbytes, List.length_append, List.length_append]
    omega
  have hstart : file.indexStart + (file.items.flatMap Mp4Atom.pack).length +
      file.index.box.pack.length + file.index.firstOffset.toNat = file.mediaStart := by
    unfold mediaStart indexBoxes
    rw [List.length_append, ← file.gap_length]
    omega
  have hparse := parseSidxFragments_of_sum file.indexStart (by rw [List.length_append]; omega) hscan
    hheader (by
      rw [hsize]
      simp only [hrefs]
      omega)
  rw [hparse, hsize]
  simp only [hrefs]
  rw [hstart]
  rfl

/-- The range of the index: the last byte is not before the end of the `sidx` box. -/
structure IndexRange (file : IndexedFile) (last : ℕ) : Prop where
  reaches : file.indexStart + file.indexBoxes.length ≤ last + 1
  inside : last < file.bytes.length

theorem parseSidxFragments_range (hlen : file.bytes.length < 2 ^ 63) {last : ℕ}
    (hlast : file.IndexRange last) :
    parseSidxFragments (fileRange file.bytes file.indexStart last) file.indexStart =
      file.fragments := by
  have hreaches := hlast.reaches
  have hinside := hlast.inside
  have hrange := fileRange_of_le hreaches (file.gap ++ (file.parts.flatten ++ file.tail))
  rw [bytes, indexStart, hrange]
  refine parseSidxFragments_eq hlen _ ?_
  rw [List.length_take]
  omega

end IndexedFile

/-! ### The profile -/

/-- The segments of a file: its media, with the ranges of the fragments. -/
def fragmentSegments (whole : MpdSegment) (fragments : List SidxFragment) : List MpdSegment :=
  fragments.zipIdx.map fun f => fragmentSegment whole f.1 f.2

theorem rangeText_ne_nil (first last : ℕ) : rangeText first last ≠ [] :=
  List.append_ne_nil_of_right_ne_nil _ (List.cons_ne_nil _ _)

/-- The start of a range is read back. -/
theorem start_rangeText {first : ℕ} (h : first < 2 ^ 64) (last : ℕ) :
    (((rangeText first last).splitOn '-').head?.bind parseU64).getD 0 = first := by
  have hdash : '-' ∉ decimal first := (numeral first).not_mem (by decide)
  have hread := (numeral first).parseU64_text
  rw [numeral_text, numeral_value, if_pos h] at hread
  rw [rangeText, List.splitOn_append_cons_self_of_not_mem hdash, List.head?_cons, Option.bind_some,
    hread, Option.getD_some]

/-- **The profile is expanded** to the subsegments. -/
theorem expandSegmentBaseSegments_eq {crates : HeaderCrates} {up : MpdUpstream} {file : IndexedFile}
    {profile : IndexedProfile} {segment : MpdSegment} {last : ℕ} (hcrates : crates.WritesRanges)
    (hserves : ServesRanges up segment.media file.bytes) (hlen : file.bytes.length < 2 ^ 63)
    (hsegments : profile.segments = [segment]) (hlast : file.IndexRange last)
    (hindex : profile.indexRange = some (rangeText file.indexStart last))
    (headers : List (Str × Bytes)) :
    expandSegmentBaseSegments crates up profile headers =
      { profile with
        segments := fragmentSegments segment file.fragments
        indexRange := none } := by
  have hpack : 8 ≤ file.indexBoxes.length := by
    rw [IndexedFile.indexBoxes, List.length_append, Mp4Atom.length_pack]
    exact le_add_left (Nat.le_add_left 8 _)
  have hreaches := hlast.reaches
  have hinside := hlast.inside
  have hnonempty : nonemptyValue profile.indexRange = some (rangeText file.indexStart last) := by
    rw [hindex]
    exact nonemptyValue_eq_self_iff.mpr fun h => rangeText_ne_nil _ _ (Option.some.inj h)
  have hfetch := @fetchWithRange_eq _ _ _ _ hcrates hserves file.indexStart _ (by omega) hinside headers
  unfold expandSegmentBaseSegments
  rw [hsegments, hnonempty]
  dsimp only
  rw [hfetch, start_rangeText (by omega) last]
  dsimp only
  rw [IndexedFile.parseSidxFragments_range hlen hlast]
  split
  · next hnil => exact absurd hnil file.fragments_ne_nil
  · rfl

end MediaFlow
