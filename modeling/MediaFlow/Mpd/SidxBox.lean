import MediaFlow.Mpd.SidxRanges

/-!
# Encoded segment indexes

A `sidx` box as ISO 14496-12 lays it out, and what `parseSidxFragments` makes of a buffer that has
one behind other boxes. The parser reads 32-bit box sizes only; the size field of a box with a
64-bit size holds 1, where the scan gives up.

* `readSidxHeader_encode`, `readReferences_encode`: the fields of an encoded box are read back;
* `sidxAtFrom_encode`: the scan over the boxes in front of it;
* `parseSidxFragments_eq_iff`: for which size fields the parser decodes what was encoded.
-/

open ByteString

namespace MediaFlow

/-! ### The layout -/

/-- The two versions of the box: the width of its times and offsets differs. -/
inductive SidxVersion where
  | v0
  | v1
deriving DecidableEq

namespace SidxVersion

def number : SidxVersion → ℕ
  | v0 => 0
  | v1 => 1

/-- The bytes of `earliest_presentation_time` and of `first_offset`. -/
def width : SidxVersion → ℕ
  | v0 => 4
  | v1 => 8

end SidxVersion

/-- An entry of the reference list. -/
structure SidxEntry where
  isIndex : Bool
  referencedSize : BitVec 31
  subsegmentDuration : BitVec 32
  /-- `starts_with_SAP`, `SAP_type` and `SAP_delta_time`. -/
  sap : BitVec 32
deriving DecidableEq

namespace SidxEntry

variable (e : SidxEntry)

/-- The field of the reference type and the referenced size. -/
def refField : ℕ := (if e.isIndex then 2 ^ 31 else 0) + e.referencedSize.toNat

def bytes : Bytes :=
  toBe 4 e.refField ++ (toBe 4 e.subsegmentDuration.toNat ++ toBe 4 e.sap.toNat)

/-- What the parser reads of it. -/
def reference : SidxReference := ⟨e.isIndex, e.referencedSize.toNat, e.subsegmentDuration.toNat⟩

@[simp] theorem length_bytes : e.bytes.length = 12 := by
  simp [bytes]

theorem refField_lt : e.refField < 256 ^ 4 := by
  have h := e.referencedSize.isLt
  unfold refField
  split <;> omega

end SidxEntry

/-- A segment index box. -/
structure SidxBox where
  version : SidxVersion
  flags : BitVec 24
  referenceId : BitVec 32
  timescale : BitVec 32
  earliestPresentationTime : BitVec (8 * version.width)
  firstOffset : BitVec (8 * version.width)
  references : List SidxEntry
  count_lt : references.length < 2 ^ 16

namespace SidxBox

variable (b : SidxBox)

/-- The payload up to the references. -/
def header : Bytes :=
  toBe 1 b.version.number ++ (toBe 3 b.flags.toNat ++ (toBe 4 b.referenceId.toNat ++
    (toBe 4 b.timescale.toNat ++ (toBe b.version.width b.earliestPresentationTime.toNat ++
      (toBe b.version.width b.firstOffset.toNat ++ (toBe 2 0 ++ toBe 2 b.references.length))))))

def box : Mp4Atom := ⟨.sidx, b.header ++ b.references.flatMap SidxEntry.bytes⟩

/-- The references as the parser reads them. -/
def refs : List SidxReference := b.references.map SidxEntry.reference

@[simp] theorem length_header : b.header.length = 16 + 2 * b.version.width := by
  simp [header]
  omega

theorem length_data : b.box.data.length = 16 + 2 * b.version.width + 12 * b.references.length := by
  simp [box, List.length_flatMap, Nat.mul_comm]

theorem fits : b.box.Fits := by
  have hcount := b.count_lt
  have hwidth : b.version.width ≤ 8 := by cases b.version <;> decide
  have hlen := b.length_data
  show b.box.data.length + 8 < 2 ^ 32
  omega

end SidxBox

/-! ### Fields -/

section Fields

variable {data l : Bytes} {width value pos : ℕ}

/-- A field that is written at the position is read back. -/
theorem beAt_of_prefix (hdata : ∃ rest, l ++ (toBe width value ++ rest) = data)
    (hpos : l.length = pos) (h : value < 256 ^ width) : beAt data pos width = value := by
  obtain ⟨rest, hdata⟩ := hdata
  have hread := beAt_append_right l (toBe width value ++ rest) 0 width
  rw [Nat.add_zero] at hread
  rw [← hdata, ← hpos, hread, beAt, List.drop_zero, List.take_left' (length_toBe _ _), ofBe_toBe h]

theorem readBe_of_prefix (hdata : ∃ rest, l ++ (toBe width value ++ rest) = data)
    (hpos : l.length = pos) (h : value < 256 ^ width) : readBe data pos width = some value := by
  have hread := beAt_of_prefix hdata hpos h
  obtain ⟨rest, hdata⟩ := hdata
  rw [readBe, hread, if_pos (by rw [← hdata, ← hpos]; simp)]

end Fields

section Header

variable (b : SidxBox) (pre rest : Bytes)

/-- A field of the header, with what stands before it. -/
theorem encode_split {l : Bytes} {width value : ℕ}
    (h : ∃ m, l ++ (toBe width value ++ m) = b.header) :
    ∃ r, (pre ++ l) ++ (toBe width value ++ r) = pre ++ (b.box.data ++ rest) := by
  obtain ⟨m, h⟩ := h
  refine ⟨m ++ (b.references.flatMap SidxEntry.bytes ++ rest), ?_⟩
  rw [SidxBox.box, ← h]
  simp only [List.append_assoc]

theorem readVersion :
    r8 (pre ++ (b.box.data ++ rest)) pre.length = some b.version.number :=
  readBe_of_prefix (encode_split b pre rest (l := []) ⟨_, rfl⟩) (by simp)
    (by cases b.version <;> decide)

theorem readTimescale :
    r32 (pre ++ (b.box.data ++ rest)) (pre.length + 4 + 4) = some b.timescale.toNat := by
  refine readBe_of_prefix (encode_split b pre rest (l := toBe 1 b.version.number ++
    (toBe 3 b.flags.toNat ++ toBe 4 b.referenceId.toNat)) ⟨toBe b.version.width
      b.earliestPresentationTime.toNat ++ (toBe b.version.width b.firstOffset.toNat ++
        (toBe 2 0 ++ toBe 2 b.references.length)), ?_⟩) (by simp) b.timescale.isLt
  simp only [SidxBox.header, List.append_assoc]

theorem readFirstOffset :
    readBe (pre ++ (b.box.data ++ rest)) (pre.length + 4 + 4 + 4 + b.version.width) b.version.width
      = some b.firstOffset.toNat := by
  have hlt := b.firstOffset.isLt
  rw [pow_mul] at hlt
  refine readBe_of_prefix (encode_split b pre rest (l := toBe 1 b.version.number ++
    (toBe 3 b.flags.toNat ++ (toBe 4 b.referenceId.toNat ++ (toBe 4 b.timescale.toNat ++
      toBe b.version.width b.earliestPresentationTime.toNat))))
    ⟨toBe 2 0 ++ toBe 2 b.references.length, ?_⟩) ?_ hlt
  · simp only [SidxBox.header, List.append_assoc]
  · simp only [List.length_append, length_toBe]
    omega

theorem readReferenceCount :
    r16 (pre ++ (b.box.data ++ rest))
      (pre.length + 4 + 4 + 4 + b.version.width + b.version.width + 2)
      = some b.references.length := by
  refine readBe_of_prefix (encode_split b pre rest (l := toBe 1 b.version.number ++
    (toBe 3 b.flags.toNat ++ (toBe 4 b.referenceId.toNat ++ (toBe 4 b.timescale.toNat ++
      (toBe b.version.width b.earliestPresentationTime.toNat ++
        (toBe b.version.width b.firstOffset.toNat ++ toBe 2 0)))))) ⟨[], ?_⟩) ?_ b.count_lt
  · simp only [SidxBox.header, List.append_assoc, List.append_nil]
  · simp only [List.length_append, length_toBe]
    omega

/-- A header of version 0. -/
theorem readSidxHeader_v0 {data : Bytes} {off timescale firstOffset count : ℕ}
    (hversion : r8 data off = some 0) (htimescale : r32 data (off + 4 + 4) = some timescale)
    (hoffset : r32 data (off + 4 + 4 + 4 + 4) = some firstOffset)
    (hcount : r16 data (off + 4 + 4 + 4 + 4 + 4 + 2) = some count) :
    readSidxHeader data off = some ⟨timescale, firstOffset, count, off + (16 + 2 * 4)⟩ := by
  unfold readSidxHeader
  rw [hversion]
  simp only [Option.bind_eq_bind, Option.bind_some, htimescale, if_true, hoffset, Option.pure_def,
    hcount]

/-- A header of any later version. -/
theorem readSidxHeader_v1 {data : Bytes} {off timescale firstOffset count : ℕ}
    (hversion : r8 data off = some 1) (htimescale : r32 data (off + 4 + 4) = some timescale)
    (hoffset : r64 data (off + 4 + 4 + 4 + 8) = some firstOffset)
    (hcount : r16 data (off + 4 + 4 + 4 + 8 + 8 + 2) = some count) :
    readSidxHeader data off = some ⟨timescale, firstOffset, count, off + (16 + 2 * 8)⟩ := by
  unfold readSidxHeader
  rw [hversion]
  simp only [Option.bind_eq_bind, Option.bind_some, htimescale, one_ne_zero, if_false, hoffset,
    Option.pure_def, hcount]

/-- **The header of an encoded box** is read back, wherever it stands. -/
theorem readSidxHeader_encode :
    readSidxHeader (pre ++ (b.box.data ++ rest)) pre.length
      = some ⟨b.timescale.toNat, b.firstOffset.toNat, b.references.length,
        pre.length + b.header.length⟩ := by
  have hversion := readVersion b pre rest
  have htimescale := readTimescale b pre rest
  have hoffset := readFirstOffset b pre rest
  have hcount := readReferenceCount b pre rest
  have hlen := b.length_header
  obtain ⟨version, flags, referenceId, timescale, earliest, firstOffset, references, hlt⟩ := b
  rw [hlen]
  -- the layout depends on the version
  cases version with
  | v0 => exact readSidxHeader_v0 hversion htimescale hoffset hcount
  | v1 => exact readSidxHeader_v1 hversion htimescale hoffset hcount

end Header

/-- **The references of an encoded box** are read back, wherever they stand. -/
theorem readReferences_encode (entries : List SidxEntry) (pre rest : Bytes) :
    readReferences (pre ++ (entries.flatMap SidxEntry.bytes ++ rest)) entries.length pre.length
      = entries.map SidxEntry.reference := by
  induction entries generalizing pre with
  | nil => rfl
  | cons e entries ih =>
    have hdata : pre ++ ((e :: entries).flatMap SidxEntry.bytes ++ rest)
        = pre ++ e.bytes ++ (entries.flatMap SidxEntry.bytes ++ rest) := by
      rw [List.flatMap_cons, List.append_assoc, List.append_assoc]
    have hfield : beAt (pre ++ ((e :: entries).flatMap SidxEntry.bytes ++ rest)) pre.length 4
        = e.refField := by
      refine beAt_of_prefix ⟨toBe 4 e.subsegmentDuration.toNat ++ (toBe 4 e.sap.toNat ++
        (entries.flatMap SidxEntry.bytes ++ rest)), ?_⟩ rfl e.refField_lt
      simp only [hdata, SidxEntry.bytes, List.append_assoc]
    have hduration : beAt (pre ++ ((e :: entries).flatMap SidxEntry.bytes ++ rest))
        (pre.length + 4) 4 = e.subsegmentDuration.toNat := by
      refine beAt_of_prefix (l := pre ++ toBe 4 e.refField) ⟨toBe 4 e.sap.toNat ++
        (entries.flatMap SidxEntry.bytes ++ rest), ?_⟩ (by simp) e.subsegmentDuration.isLt
      simp only [hdata, SidxEntry.bytes, List.append_assoc]
    have hroom : ¬ pre.length + 12
        > (pre ++ ((e :: entries).flatMap SidxEntry.bytes ++ rest)).length := by
      rw [hdata, List.length_append, List.length_append, e.length_bytes]
      omega
    have hrest := ih (pre ++ e.bytes)
    rw [← hdata, List.length_append, e.length_bytes] at hrest
    rw [List.length_cons, readReferences, if_neg hroom, hfield, hduration, hrest, List.map_cons,
      SidxEntry.reference]
    have hsize := e.referencedSize.isLt
    have hindex : decide (e.refField / 2 ^ 31 % 2 ≠ 0) = e.isIndex := by
      unfold SidxEntry.refField
      cases e.isIndex with
      | true => exact decide_eq_true (by rw [if_pos rfl]; omega)
      | false => exact decide_eq_false (by rw [if_neg Bool.false_ne_true]; omega)
    have hmod : e.refField % 2 ^ 31 = e.referencedSize.toNat := by
      unfold SidxEntry.refField
      split <;> omega
    rw [hindex, hmod]

/-! ### The scan -/

/-- The bytes of a list of boxes, each with its form of header. -/
def encodeBoxes (items : List (Mp4Atom × HeaderForm)) : Bytes :=
  items.flatMap fun p => p.1.encode p.2

theorem encodeBoxes_nil : encodeBoxes [] = [] := rfl

theorem encodeBoxes_cons (p : Mp4Atom × HeaderForm) (items : List (Mp4Atom × HeaderForm)) :
    encodeBoxes (p :: items) = p.1.encode p.2 ++ encodeBoxes items := List.flatMap_cons

/-- **The scan reaches the box** behind any other boxes, if all size fields have 32 bits. -/
theorem sidxAtFrom_encode {items : List (Mp4Atom × HeaderForm)}
    (hne : ∀ p ∈ items, p.1.atomType ≠ .sidx) (hfits : ∀ p ∈ items, p.1.FitsForm p.2)
    {b : Mp4Atom} (hb : b.atomType = .sidx) {form : HeaderForm} (hform : b.FitsForm form)
    (pre rest : Bytes) (fuel : ℕ) (hfuel : items.length < fuel) :
    sidxAtFrom (pre ++ (encodeBoxes items ++ (b.encode form ++ rest))) fuel
        pre.length
      = if (∀ p ∈ items, p.2 = .short) ∧ form = .short then
          some (pre.length + (encodeBoxes items).length)
        else none := by
  induction items generalizing pre fuel with
  | nil =>
    obtain ⟨fuel, rfl⟩ := Nat.exists_eq_add_one_of_ne_zero (Nat.ne_of_gt hfuel)
    have hge := length_encode_ge b form
    rw [encodeBoxes_nil, List.nil_append, ← List.append_assoc, sidxAtFrom,
      if_neg (by rw [List.length_append, List.length_append]; omega)]
    cases form with
    | long => rw [beAt_encode_long, if_pos (by norm_num), if_neg (fun h => by cases h.2)]
    | short =>
      have hsize : 8 ≤ b.packedLen := Nat.le_add_left 8 _
      rw [Mp4Atom.encode, beAt_pack pre rest hform, if_neg (by omega), atomType_pack, hb,
        if_pos rfl, if_pos ⟨fun p hp => absurd hp List.not_mem_nil, rfl⟩]
      rfl
  | cons p items ih =>
    obtain ⟨a, f⟩ := p
    obtain ⟨fuel, rfl⟩ := Nat.exists_eq_add_one_of_ne_zero (Nat.ne_of_gt (Nat.zero_lt_of_lt hfuel))
    have hge := length_encode_ge a f
    have hdata : pre ++ (encodeBoxes ((a, f) :: items)
          ++ (b.encode form ++ rest))
        = pre ++ a.encode f ++ (encodeBoxes items
          ++ (b.encode form ++ rest)) := by
      rw [encodeBoxes_cons, List.append_assoc, List.append_assoc]
    rw [hdata, sidxAtFrom, if_neg (by rw [List.length_append, List.length_append]; omega)]
    cases f with
    | long =>
      rw [beAt_encode_long, if_pos (by norm_num), if_neg fun h => ?_]
      have hlong := h.1 _ List.mem_cons_self
      cases hlong
    | short =>
      have hfit : a.Fits := hfits _ List.mem_cons_self
      have hsize : 8 ≤ a.packedLen := Nat.le_add_left 8 _
      have hnext : pre.length + a.packedLen = (pre ++ a.encode .short).length := by
        rw [List.length_append, Mp4Atom.encode, Mp4Atom.length_pack]
      have hrest := ih (fun q hq => hne q (List.mem_cons_of_mem _ hq))
        (fun q hq => hfits q (List.mem_cons_of_mem _ hq)) (pre ++ a.encode .short)
        fuel (by simpa using hfuel)
      have hshort : ((∀ p ∈ (a, HeaderForm.short) :: items, p.2 = .short) ∧ form = .short) ↔
          (∀ p ∈ items, p.2 = .short) ∧ form = .short := by simp
      have hread := beAt_pack pre (encodeBoxes items ++ (b.encode form ++ rest)) hfit
      have htype := atomType_pack pre (encodeBoxes items ++ (b.encode form ++ rest)) a
      rw [← hnext] at hrest
      rw [Mp4Atom.encode] at hrest ⊢
      rw [hread, if_neg (by omega), htype, if_neg (hne _ List.mem_cons_self), hrest,
        if_congr hshort rfl rfl, encodeBoxes_cons, List.length_append, Mp4Atom.encode,
        Mp4Atom.length_pack, Nat.add_assoc]

/-! ### The fragments -/

theorem fragmentsOf_eq_nil_iff (timescale : ℕ) (refs : List SidxReference) (fragStart : ℕ) :
    fragmentsOf timescale refs fragStart = [] ↔ ∀ r ∈ refs, r.isIndex = true := by
  induction refs generalizing fragStart with
  | nil => exact iff_of_true rfl fun r hr => absurd hr List.not_mem_nil
  | cons r rs ih =>
    rw [fragmentsOf, List.forall_mem_cons]
    cases r.isIndex with
    | true => simpa using ih (fragStart + r.size)
    | false => simp

namespace SidxBox

variable (b : SidxBox)

/-- The fragments a box stands for that ends at `fileEnd`: one for each media reference, from the
first offset on, behind all that earlier references stand for. -/
def fragments (fileEnd : ℕ) : List SidxFragment :=
  fragmentsOf b.timescale.toNat b.refs (fileEnd + b.firstOffset.toNat)

theorem fragments_eq_nil_iff (fileEnd : ℕ) :
    b.fragments fileEnd = [] ↔ ∀ e ∈ b.references, e.isIndex = true := by
  rw [fragments, fragmentsOf_eq_nil_iff, refs, List.forall_mem_map]
  rfl

end SidxBox

section Decode

variable (b : SidxBox)

/-- The references of a box with a 32-bit size, behind other bytes. -/
theorem readReferences_box (pre rest : Bytes) :
    readReferences (pre ++ (b.box.pack ++ rest)) b.references.length
      (pre.length + 8 + b.header.length) = b.refs := by
  have hdata : pre ++ (b.box.pack ++ rest)
      = (pre ++ (toBe 4 ((b.box.data.length + 8) % 2 ^ 32) ++ b.box.atomType.bytes) ++ b.header)
        ++ (b.references.flatMap SidxEntry.bytes ++ rest) := by
    simp [Mp4Atom.pack, SidxBox.box]
  have hlen : (pre ++ (toBe 4 ((b.box.data.length + 8) % 2 ^ 32) ++ b.box.atomType.bytes)
      ++ b.header).length = pre.length + 8 + b.header.length := by
    rw [List.length_append, List.length_append, List.length_append, length_toBe,
      FourCC.length_bytes]
  rw [hdata, ← hlen]
  exact readReferences_encode b.references _ rest

theorem readSidxHeader_box (pre rest : Bytes) :
    readSidxHeader (pre ++ (b.box.pack ++ rest)) (pre.length + 8)
      = some ⟨b.timescale.toNat, b.firstOffset.toNat, b.references.length,
        pre.length + 8 + b.header.length⟩ := by
  have hdata : pre ++ (b.box.pack ++ rest)
      = (pre ++ (toBe 4 ((b.box.data.length + 8) % 2 ^ 32) ++ b.box.atomType.bytes))
        ++ (b.box.data ++ rest) := by
    simp [Mp4Atom.pack]
  have hlen : (pre ++ (toBe 4 ((b.box.data.length + 8) % 2 ^ 32) ++ b.box.atomType.bytes)).length
      = pre.length + 8 := by
    simp
  rw [hdata, ← hlen]
  exact readSidxHeader_encode b _ rest

variable {items : List (Mp4Atom × HeaderForm)} {form : HeaderForm} {rest : Bytes}
  {indexRangeStart : ℕ}

/-- **The parser decodes what was encoded** exactly when all size fields up to the box have 32
bits, or nothing but indexes is referenced. -/
theorem parseSidxFragments_eq_iff (hne : ∀ p ∈ items, p.1.atomType ≠ .sidx)
    (hfits : ∀ p ∈ items, p.1.FitsForm p.2)
    (hlen : (encodeBoxes items ++ (b.box.encode form ++ rest)).length
      < 2 ^ 63)
    (hsum : indexRangeStart
      + (encodeBoxes items ++ b.box.encode form).length
      + b.firstOffset.toNat + totalSize b.refs < 2 ^ 64) :
    parseSidxFragments (encodeBoxes items ++ (b.box.encode form ++ rest))
        indexRangeStart
      = b.fragments (indexRangeStart
        + (encodeBoxes items ++ b.box.encode form).length) ↔
      ((∀ p ∈ items, p.2 = .short) ∧ form = .short) ∨ ∀ e ∈ b.references, e.isIndex = true := by
  have hform : b.box.FitsForm form := by
    cases form with
    | short => exact b.fits
    | long => trivial
  have hcount : items.length ≤ (encodeBoxes items).length := length_le_length_flatMap_encode items
  have hscan := sidxAtFrom_encode hne hfits rfl hform [] rest
    ((encodeBoxes items ++ (b.box.encode form ++ rest)).length + 1)
    (by rw [List.length_append]; omega)
  rw [List.nil_append, List.length_nil, Nat.zero_add] at hscan
  by_cases hshort : (∀ p ∈ items, p.2 = .short) ∧ form = .short
  · obtain ⟨-, rfl⟩ := id hshort
    rw [if_pos hshort] at hscan
    refine iff_of_true ?_ (.inl hshort)
    have hsize : beAt (encodeBoxes items ++ (b.box.pack ++ rest))
        (encodeBoxes items).length 4 = b.box.pack.length := by
      rw [← List.append_assoc, beAt_pack _ rest b.fits, Mp4Atom.length_pack]
    have hsum' := hsum
    rw [List.length_append, Mp4Atom.encode, ← Nat.add_assoc] at hsum'
    rw [Mp4Atom.encode] at hscan hlen ⊢
    have hheader := readSidxHeader_box b (encodeBoxes items) rest
    have hrefs := readReferences_box b (encodeBoxes items) rest
    have hparse := parseSidxFragments_of_sum indexRangeStart hlen hscan hheader
      (by rw [hsize]; simp only [hrefs]; exact hsum')
    rw [hparse, hsize, SidxBox.fragments, List.length_append, ← Nat.add_assoc]
    simp only [hrefs]
  · rw [if_neg hshort] at hscan
    rw [parseSidxFragments_of_none hlen hscan, eq_comm, b.fragments_eq_nil_iff]
    exact (or_iff_right hshort).symm

/-- One media reference of 100 bytes. -/
def oneMedia : SidxBox where
  version := .v0
  flags := 0
  referenceId := 1
  timescale := 1000
  earliestPresentationTime := 0
  firstOffset := 0
  references := [⟨false, 100, 2000, 0⟩]
  count_lt := by decide

/-- An empty `styp`. -/
def emptyStyp (form : HeaderForm) : List (Mp4Atom × HeaderForm) :=
  [(⟨.lit 's' 't' 'y' 'p', []⟩, form)]

theorem emptyStyp_fits (form : HeaderForm) : ∀ p ∈ emptyStyp form, p.1.FitsForm p.2 := by
  intro p hp
  rw [List.mem_singleton.mp hp]
  cases form with
  | short => show 0 + 8 < 2 ^ 32; norm_num
  | long => trivial

/-- Behind an empty `styp` the fragment is found, after the 52 bytes of both boxes. -/
theorem parseSidxFragments_oneMedia :
    parseSidxFragments (encodeBoxes (emptyStyp .short) ++ (oneMedia.box.encode .short ++ [])) 0
      = oneMedia.fragments
        (0 + (encodeBoxes (emptyStyp .short) ++ oneMedia.box.encode .short).length) :=
  (parseSidxFragments_eq_iff oneMedia (by decide) (emptyStyp_fits .short) (by decide +kernel)
    (by decide +kernel)).mpr (.inl ⟨by decide, rfl⟩)

/-- Behind an empty `styp` with a 64-bit size nothing is found. -/
theorem not_parseSidxFragments_eq :
    ¬ ∀ (b : SidxBox) (items : List (Mp4Atom × HeaderForm)) (form : HeaderForm) (rest : Bytes)
      (indexRangeStart : ℕ), (∀ p ∈ items, p.1.atomType ≠ .sidx) →
      (∀ p ∈ items, p.1.FitsForm p.2) →
      (encodeBoxes items ++ (b.box.encode form ++ rest)).length < 2 ^ 63 →
      indexRangeStart + (encodeBoxes items ++ b.box.encode form).length + b.firstOffset.toNat
        + totalSize b.refs < 2 ^ 64 →
      parseSidxFragments (encodeBoxes items ++ (b.box.encode form ++ rest)) indexRangeStart
        = b.fragments (indexRangeStart + (encodeBoxes items ++ b.box.encode form).length) := by
  intro h
  have hlong := h oneMedia (emptyStyp .long) .short [] 0 (by decide)
    (emptyStyp_fits .long) (by decide +kernel) (by decide +kernel)
  exact absurd hlong (by decide +kernel)

end Decode

end MediaFlow
