import MediaFlow.Mpd.SidxBox

/-!
# Rewriting a segment index

`processSidx` shortens the first referenced size by the encryption overhead of the segment. It
patches the four bytes at offset 32 of the payload, which is where the references start in a box of
version 1; in a box of version 0 they start at 24, and the patched field is the SAP field of the
first entry. `parseSidxFragments` follows the version.

* `processSidx_v1`, `processSidx_v0`: the box that comes out, in both versions;
* `wrapFragments_shift`: what a moved start does to the fragments;
* `rewritesFirstSize_iff`: for which boxes only the first size changes.
-/

open ByteString

namespace MediaFlow

/-! ### Fragments of the release build -/

/-- Subtraction of the release build. -/
def wrapSub (a b : ℕ) : ℕ := (a + (2 ^ 64 - b)) % 2 ^ 64

/-- The fragments of a list of references, with the sums of the release build. -/
def wrapFragments (timescale : ℕ) : List SidxReference → ℕ → List SidxFragment
  | [], _ => []
  | r :: rs, fragStart =>
    (if r.isIndex then []
      else [⟨fragStart, wrapSub ((fragStart + r.size) % 2 ^ 64) 1, r.duration, timescale⟩])
      ++ wrapFragments timescale rs ((fragStart + r.size) % 2 ^ 64)

theorem buildFragments_eq_wrapFragments (timescale : ℕ) (refs : List SidxReference)
    (fragStart : ℕ) :
    buildFragments .wrapping timescale refs fragStart
      = some (wrapFragments timescale refs fragStart) := by
  induction refs generalizing fragStart with
  | nil => rfl
  | cons r rs ih =>
    rw [buildFragments_cons timescale .wrapping rfl rfl, ih]
    rfl

/-- A fragment moved towards the start of the file. -/
def SidxFragment.shift (overhead : ℕ) (f : SidxFragment) : SidxFragment :=
  { f with start := wrapSub f.start overhead, last := wrapSub f.last overhead }

/-- What is left of the fragments of a segment: the first one is shorter, the later ones start
earlier. -/
def shortened (overhead : ℕ) : List SidxFragment → List SidxFragment
  | [] => []
  | f :: rest =>
    { f with last := wrapSub f.last overhead } :: rest.map (SidxFragment.shift overhead)

section Shift

variable {timescale overhead fragStart : ℕ}

/-- **A start that is moved moves every fragment.** -/
theorem wrapFragments_shift (refs : List SidxReference) :
    wrapFragments timescale refs (wrapSub fragStart overhead)
      = (wrapFragments timescale refs fragStart).map (SidxFragment.shift overhead) := by
  induction refs generalizing fragStart with
  | nil => rfl
  | cons r rs ih =>
    have hnext : (wrapSub fragStart overhead + r.size) % 2 ^ 64
        = wrapSub ((fragStart + r.size) % 2 ^ 64) overhead := by
      unfold wrapSub
      omega
    have hlast : wrapSub ((wrapSub fragStart overhead + r.size) % 2 ^ 64) 1
        = wrapSub (wrapSub ((fragStart + r.size) % 2 ^ 64) 1) overhead := by
      unfold wrapSub
      omega
    rw [wrapFragments, wrapFragments, hlast, hnext, ih, List.map_append]
    cases r.isIndex <;> rfl

/-- All offsets are `u64`. -/
theorem lt_of_mem_wrapFragments {refs : List SidxReference} (hstart : fragStart < 2 ^ 64)
    {f : SidxFragment} (hf : f ∈ wrapFragments timescale refs fragStart) :
    f.start < 2 ^ 64 ∧ f.last < 2 ^ 64 := by
  induction refs generalizing fragStart with
  | nil => exact absurd hf List.not_mem_nil
  | cons r rs ih =>
    rw [wrapFragments] at hf
    rcases List.mem_append.mp hf with hf | hf
    · split at hf
      · exact absurd hf List.not_mem_nil
      · rw [List.mem_singleton.mp hf]
        exact ⟨hstart, Nat.mod_lt _ (by norm_num)⟩
    · exact ih (Nat.mod_lt _ (by norm_num)) hf

theorem wrapFragments_eq_nil_iff (refs : List SidxReference) (fragStart : ℕ) :
    wrapFragments timescale refs fragStart = [] ↔ ∀ r ∈ refs, r.isIndex = true := by
  induction refs generalizing fragStart with
  | nil => exact iff_of_true rfl fun r hr => absurd hr List.not_mem_nil
  | cons r rs ih =>
    rw [wrapFragments, List.forall_mem_cons]
    cases r.isIndex with
    | true =>
      rw [if_pos rfl, List.nil_append, ih]
      exact (and_iff_right rfl).symm
    | false => simp

theorem wrapSub_zero {a : ℕ} (ha : a < 2 ^ 64) : wrapSub a 0 = a := by
  unfold wrapSub
  omega

theorem wrapSub_ne {a : ℕ} (hpos : 0 < overhead) (hov : overhead < 2 ^ 64) :
    wrapSub a overhead ≠ a := by
  unfold wrapSub
  omega

theorem shift_zero {f : SidxFragment} (hf : f.start < 2 ^ 64 ∧ f.last < 2 ^ 64) :
    f.shift 0 = f := by
  rw [SidxFragment.shift, wrapSub_zero hf.1, wrapSub_zero hf.2]

theorem shortened_zero {l : List SidxFragment} (hl : ∀ f ∈ l, f.start < 2 ^ 64 ∧ f.last < 2 ^ 64) :
    shortened 0 l = l := by
  cases l with
  | nil => rfl
  | cons f rest =>
    have hf := hl f List.mem_cons_self
    have hrest : rest.map (SidxFragment.shift 0) = rest :=
      (List.map_congr_left fun g hg => shift_zero (hl g (List.mem_cons_of_mem f hg))).trans
        (List.map_id rest)
    rw [shortened, wrapSub_zero hf.2, hrest]

end Shift

/-! ### The box that comes out -/

namespace SidxEntry

variable (e : SidxEntry) (overhead : ℕ)

def setSize (n : BitVec 31) : SidxEntry := { e with referencedSize := n }

/-- The entry with its referenced size shortened. -/
def shrink : SidxEntry := e.setSize (BitVec.ofNat 31 (e.referencedSize.toNat - overhead))

def setSap (n : BitVec 32) : SidxEntry := { e with sap := n }

/-- The entry with the low bits of its SAP field taken for a size. -/
def shrinkSap : SidxEntry :=
  e.setSap (BitVec.ofNat 32 (e.sap.toNat / 2 ^ 31 * 2 ^ 31 + (e.sap.toNat % 2 ^ 31 - overhead)))

@[simp] theorem isIndex_setSize (n : BitVec 31) : (e.setSize n).isIndex = e.isIndex := rfl

@[simp] theorem subsegmentDuration_setSize (n : BitVec 31) :
    (e.setSize n).subsegmentDuration = e.subsegmentDuration := rfl

@[simp] theorem sap_setSize (n : BitVec 31) : (e.setSize n).sap = e.sap := rfl

@[simp] theorem referencedSize_setSap (n : BitVec 32) :
    (e.setSap n).referencedSize = e.referencedSize := rfl

@[simp] theorem isIndex_setSap (n : BitVec 32) : (e.setSap n).isIndex = e.isIndex := rfl

@[simp] theorem subsegmentDuration_setSap (n : BitVec 32) :
    (e.setSap n).subsegmentDuration = e.subsegmentDuration := rfl

@[simp] theorem sap_setSap (n : BitVec 32) : (e.setSap n).sap = n := rfl

@[simp] theorem subsegmentDuration_shrinkSap :
    (e.shrinkSap overhead).subsegmentDuration = e.subsegmentDuration := by
  rw [shrinkSap, subsegmentDuration_setSap]

@[simp] theorem refField_shrinkSap : (e.shrinkSap overhead).refField = e.refField := by
  rw [refField, refField, shrinkSap, isIndex_setSap, referencedSize_setSap]

theorem reference_shrinkSap : (e.shrinkSap overhead).reference = e.reference := by
  rw [reference, reference, shrinkSap, isIndex_setSap, referencedSize_setSap,
    subsegmentDuration_setSap]

theorem toNat_sap_shrinkSap : (e.shrinkSap overhead).sap.toNat
    = e.sap.toNat / 2 ^ 31 * 2 ^ 31 + (e.sap.toNat % 2 ^ 31 - overhead) := by
  have hsap := e.sap.isLt
  rw [shrinkSap, sap_setSap, BitVec.toNat_ofNat]
  exact Nat.mod_eq_of_lt (by omega)

theorem toNat_referencedSize_shrink : (e.shrink overhead).referencedSize.toNat
    = e.referencedSize.toNat - overhead := by
  have hsize := e.referencedSize.isLt
  rw [shrink, setSize, BitVec.toNat_ofNat]
  exact Nat.mod_eq_of_lt (by omega)

end SidxEntry

namespace SidxBox

variable (b : SidxBox)

/-- The box with its first entry changed. -/
def modifyFirst (f : SidxEntry → SidxEntry) : SidxBox where
  version := b.version
  flags := b.flags
  referenceId := b.referenceId
  timescale := b.timescale
  earliestPresentationTime := b.earliestPresentationTime
  firstOffset := b.firstOffset
  references := b.references.modifyHead f
  count_lt := by
    rw [List.length_modifyHead]
    exact b.count_lt

theorem header_modifyFirst (f : SidxEntry → SidxEntry) : (b.modifyFirst f).header = b.header := by
  unfold header modifyFirst
  rw [List.length_modifyHead]

theorem box_modifyFirst {b : SidxBox} {e : SidxEntry} {es : List SidxEntry}
    (hrefs : b.references = e :: es) (f : SidxEntry → SidxEntry) :
    (b.modifyFirst f).box = ⟨.sidx, b.header ++ ((f e).bytes ++ es.flatMap SidxEntry.bytes)⟩ := by
  have hhead : (b.modifyFirst f).references = f e :: es := by
    show b.references.modifyHead f = _
    rw [hrefs, List.modifyHead_cons]
  rw [box, b.header_modifyFirst, hhead, List.flatMap_cons]

end SidxBox

/-- A patch of a field by one of the same width. -/
theorem patch_field {l x y rest : Bytes} {pos : ℕ} (hpos : l.length = pos)
    (h : x.length = y.length) : patch (l ++ (x ++ rest)) pos y = l ++ (y ++ rest) := by
  rw [patch, ← hpos, List.take_left, ← List.append_assoc, ← h, ← List.length_append,
    List.drop_left, List.append_assoc]

namespace Mp4Decrypter

section Process

variable (s : Mp4Decrypter) {b : SidxBox} {e : SidxEntry} {es : List SidxEntry}

/-- The field at offset 32 is replaced. -/
theorem processSidx_field {l rest : Bytes} {value : ℕ} (hl : l.length = 32)
    (hvalue : value < 256 ^ 4) :
    processSidx s ⟨.sidx, l ++ (toBe 4 value ++ rest)⟩
      = ⟨.sidx, l ++ (toBe 4 (value / 2 ^ 31 * 2 ^ 31
        + (value % 2 ^ 31 - s.totalEncryptionOverhead % 2 ^ 32)) ++ rest)⟩ := by
  have hread : beAt (l ++ (toBe 4 value ++ rest)) 32 4 = value :=
    beAt_of_prefix ⟨rest, rfl⟩ hl hvalue
  unfold processSidx
  simp only [hread]
  rw [if_pos (by rw [List.length_append, List.length_append, length_toBe, hl]; omega),
    patch_field hl (by rw [length_toBe, length_toBe])]

/-- In version 1 the references start at offset 32. -/
theorem processSidx_v1 (hv : b.version = .v1) (hrefs : b.references = e :: es)
    (hov : s.totalEncryptionOverhead ≤ e.referencedSize.toNat) :
    processSidx s b.box = (b.modifyFirst fun e => e.shrink s.totalEncryptionOverhead).box := by
  have hsize := e.referencedSize.isLt
  have hl : b.header.length = 32 := by rw [b.length_header, hv]; rfl
  have hfield : e.refField / 2 ^ 31 * 2 ^ 31
      + (e.refField % 2 ^ 31 - s.totalEncryptionOverhead % 2 ^ 32)
      = (e.shrink s.totalEncryptionOverhead).refField := by
    unfold SidxEntry.refField
    rw [e.toNat_referencedSize_shrink, SidxEntry.shrink, SidxEntry.isIndex_setSize]
    cases e.isIndex with
    | true => rw [if_pos rfl]; omega
    | false => rw [if_neg Bool.false_ne_true]; omega
  have hbox : b.box = ⟨.sidx, b.header ++ (toBe 4 e.refField ++ (toBe 4 e.subsegmentDuration.toNat
      ++ (toBe 4 e.sap.toNat ++ es.flatMap SidxEntry.bytes)))⟩ := by
    rw [SidxBox.box, hrefs, List.flatMap_cons, SidxEntry.bytes]
    simp only [List.append_assoc]
  rw [hbox, processSidx_field s hl e.refField_lt, hfield, SidxBox.box_modifyFirst hrefs,
    SidxEntry.bytes, List.append_assoc, List.append_assoc]
  rw [SidxEntry.shrink, SidxEntry.subsegmentDuration_setSize, SidxEntry.sap_setSize]

/-- In version 0 the field at offset 32 is the SAP field of the first entry. -/
theorem processSidx_v0 (hv : b.version = .v0) (hrefs : b.references = e :: es)
    (hov : s.totalEncryptionOverhead < 2 ^ 32) :
    processSidx s b.box = (b.modifyFirst fun e => e.shrinkSap s.totalEncryptionOverhead).box := by
  have hsap := e.sap.isLt
  have hl : (b.header ++ (toBe 4 e.refField ++ toBe 4 e.subsegmentDuration.toNat)).length = 32 := by
    rw [List.length_append, List.length_append, length_toBe, length_toBe, b.length_header, hv]
    rfl
  have hfield : e.sap.toNat / 2 ^ 31 * 2 ^ 31
      + (e.sap.toNat % 2 ^ 31 - s.totalEncryptionOverhead % 2 ^ 32)
      = (e.shrinkSap s.totalEncryptionOverhead).sap.toNat := by
    rw [e.toNat_sap_shrinkSap, Nat.mod_eq_of_lt hov]
  have hbox : b.box = ⟨.sidx, (b.header ++ (toBe 4 e.refField ++ toBe 4 e.subsegmentDuration.toNat))
      ++ (toBe 4 e.sap.toNat ++ es.flatMap SidxEntry.bytes)⟩ := by
    rw [SidxBox.box, hrefs, List.flatMap_cons, SidxEntry.bytes]
    simp only [List.append_assoc]
  rw [hbox, processSidx_field s hl hsap, hfield, SidxBox.box_modifyFirst hrefs, SidxEntry.bytes]
  simp only [List.append_assoc, SidxEntry.refField_shrinkSap,
    SidxEntry.subsegmentDuration_shrinkSap]

end Process

/-! ### Parsing the box that comes out -/

/-- Where the first subsegment of a box on its own starts. -/
def firstStart (b : SidxBox) (indexRangeStart : ℕ) : ℕ :=
  ((indexRangeStart % 2 ^ 64 + b.box.pack.length) % 2 ^ 64 + b.firstOffset.toNat) % 2 ^ 64

theorem firstStart_lt (b : SidxBox) (indexRangeStart : ℕ) : firstStart b indexRangeStart < 2 ^ 64 :=
  Nat.mod_lt _ (by norm_num)

/-- The fragments of a box on its own, with the sums of the release build. -/
theorem parseSidxFragments_box (b : SidxBox) (indexRangeStart : ℕ) :
    parseSidxFragments b.box.pack indexRangeStart
      = wrapFragments b.timescale.toNat b.refs (firstStart b indexRangeStart) := by
  have hfits : b.box.data.length + 8 < 2 ^ 32 := b.fits
  have hlen : b.box.pack.length < 2 ^ 63 := by
    rw [Mp4Atom.length_pack, Mp4Atom.packedLen]
    omega
  have hne : ∀ p ∈ ([] : List (Mp4Atom × HeaderForm)), p.1.atomType ≠ .sidx :=
    fun _ hp => absurd hp List.not_mem_nil
  have hform : b.box.FitsForm .short := b.fits
  have hscan := sidxAtFrom_encode hne (fun _ hp => absurd hp List.not_mem_nil) rfl hform [] []
    (b.box.pack.length + 1) (Nat.succ_pos _)
  rw [encodeBoxes_nil, List.nil_append, List.nil_append, List.append_nil, if_pos
    ⟨fun p hp => absurd hp List.not_mem_nil, rfl⟩] at hscan
  have hat : sidxAt b.box.pack = some 0 := hscan
  have hsize : beAt b.box.pack 0 4 = b.box.pack.length := by
    have h := beAt_pack [] [] b.fits
    rw [List.nil_append, List.append_nil] at h
    rw [Mp4Atom.length_pack]
    exact h
  have hheader := readSidxHeader_box b [] []
  have hrefs := readReferences_box b [] []
  rw [List.nil_append, List.append_nil] at hheader hrefs
  have hadd : ∀ x y, U64Arith.wrapping.add x y = some ((x + y) % 2 ^ 64) := fun _ _ => rfl
  rw [parseSidxFragments, sidxInner_of_some U64Arith.exact_wrapping hlen hat, hadd,
    Option.bind_some, hsize, hadd, Option.bind_some]
  erw [hheader]
  rw [Option.elim_some, hadd, Option.bind_some, hrefs, buildFragments_eq_wrapFragments]
  rfl

section Rewritten

variable (s : Mp4Decrypter) {b : SidxBox} {e : SidxEntry} {es : List SidxEntry}

theorem refs_eq (hrefs : b.references = e :: es) :
    b.refs = e.reference :: es.map SidxEntry.reference := by
  rw [SidxBox.refs, hrefs, List.map_cons]

theorem parseSidxFragments_modifyFirst (hrefs : b.references = e :: es)
    (f : SidxEntry → SidxEntry) (indexRangeStart : ℕ) :
    parseSidxFragments (b.modifyFirst f).box.pack indexRangeStart
      = wrapFragments b.timescale.toNat ((f e).reference :: es.map SidxEntry.reference)
        (firstStart b indexRangeStart) := by
  have hhead : (b.modifyFirst f).references = f e :: es := by
    show b.references.modifyHead f = _
    rw [hrefs, List.modifyHead_cons]
  have hlen : (b.modifyFirst f).box.pack.length = b.box.pack.length := by
    simp only [Mp4Atom.length_pack, Mp4Atom.packedLen, SidxBox.length_data, hhead, hrefs,
      List.length_cons]
    rfl
  have hstart : firstStart (b.modifyFirst f) indexRangeStart = firstStart b indexRangeStart := by
    unfold firstStart
    rw [hlen]
    rfl
  rw [parseSidxFragments_box, refs_eq hhead, hstart]
  rfl

/-- Only the first size changes: the fragments are those of a segment that is shorter by the
overhead, and no other field of the box is another. -/
def RewritesFirstSize (b : SidxBox) : Prop :=
  (∀ indexRangeStart, parseSidxFragments (processSidx s b.box).pack indexRangeStart
    = shortened s.totalEncryptionOverhead (parseSidxFragments b.box.pack indexRangeStart)) ∧
  ∃ n, processSidx s b.box = (b.modifyFirst fun e => e.setSize n).box

/-- A list of fragments is what is left of itself only if nothing is taken away. -/
theorem shortened_eq_self_iff (timescale : ℕ) (refs : List SidxReference) {fragStart overhead : ℕ}
    (hstart : fragStart < 2 ^ 64) (hov : overhead < 2 ^ 64) :
    wrapFragments timescale refs fragStart
        = shortened overhead (wrapFragments timescale refs fragStart) ↔
      overhead = 0 ∨ ∀ r ∈ refs, r.isIndex = true := by
  rcases Nat.eq_zero_or_pos overhead with rfl | hpos
  · exact iff_of_true (shortened_zero fun f hf => lt_of_mem_wrapFragments hstart hf).symm (.inl rfl)
  · rw [or_iff_right (Nat.ne_of_gt hpos), ← wrapFragments_eq_nil_iff refs fragStart]
    cases wrapFragments timescale refs fragStart with
    | nil => exact iff_of_true rfl rfl
    | cons f rest =>
      refine iff_of_false (fun h => ?_) (List.cons_ne_nil f rest)
      have hlast : f.last = wrapSub f.last overhead :=
        congrArg SidxFragment.last (List.cons.inj h).1
      exact wrapSub_ne hpos hov hlast.symm

/-- Moving all fragments is not shortening the first. -/
theorem map_shift_eq_shortened_iff (timescale : ℕ) (refs : List SidxReference)
    {fragStart overhead : ℕ} (hstart : fragStart < 2 ^ 64) (hov : overhead < 2 ^ 64) :
    (wrapFragments timescale refs fragStart).map (SidxFragment.shift overhead)
        = shortened overhead (wrapFragments timescale refs fragStart) ↔
      overhead = 0 ∨ ∀ r ∈ refs, r.isIndex = true := by
  rcases Nat.eq_zero_or_pos overhead with rfl | hpos
  · refine iff_of_true ?_ (.inl rfl)
    rw [shortened_zero fun f hf => lt_of_mem_wrapFragments hstart hf]
    exact (List.map_congr_left fun f hf => shift_zero (lt_of_mem_wrapFragments hstart hf)).trans
      (List.map_id _)
  · rw [or_iff_right (Nat.ne_of_gt hpos), ← wrapFragments_eq_nil_iff refs fragStart]
    cases wrapFragments timescale refs fragStart with
    | nil => exact iff_of_true rfl rfl
    | cons f rest =>
      refine iff_of_false (fun h => ?_) (List.cons_ne_nil f rest)
      have hstart' : wrapSub f.start overhead = f.start :=
        congrArg SidxFragment.start (List.cons.inj h).1
      exact wrapSub_ne hpos hov hstart'

theorem forall_isIndex_iff (hrefs : b.references = e :: es) :
    (∀ r ∈ e.reference :: es.map SidxEntry.reference, r.isIndex = true) ↔
      ∀ x ∈ b.references, x.isIndex = true := by
  rw [hrefs, List.forall_mem_cons, List.forall_mem_cons, List.forall_mem_map]
  rfl

/-- In version 0 the size is left as it was. -/
theorem shortens_v0_iff (hv : b.version = .v0) (hrefs : b.references = e :: es)
    (hov : s.totalEncryptionOverhead < 2 ^ 31) :
    (∀ indexRangeStart, parseSidxFragments (processSidx s b.box).pack indexRangeStart
        = shortened s.totalEncryptionOverhead (parseSidxFragments b.box.pack indexRangeStart)) ↔
      s.totalEncryptionOverhead = 0 ∨ ∀ x ∈ b.references, x.isIndex = true := by
  have hout := processSidx_v0 s hv hrefs (by omega)
  simp only [hout, parseSidxFragments_modifyFirst hrefs, SidxEntry.reference_shrinkSap,
    parseSidxFragments_box, refs_eq hrefs]
  rw [← forall_isIndex_iff hrefs]
  have hov' : s.totalEncryptionOverhead < 2 ^ 64 := by omega
  have hiff := fun idx => shortened_eq_self_iff b.timescale.toNat
    (e.reference :: es.map SidxEntry.reference) (firstStart_lt b idx) hov'
  exact ⟨fun h => (hiff 0).mp (h 0), fun h idx => (hiff idx).mpr h⟩

/-- In version 0 the SAP field of the first entry is changed. -/
theorem fields_v0_iff (hv : b.version = .v0) (hrefs : b.references = e :: es)
    (hov : s.totalEncryptionOverhead < 2 ^ 31) :
    (∃ n, processSidx s b.box = (b.modifyFirst fun e => e.setSize n).box) ↔
      s.totalEncryptionOverhead = 0 ∨ e.sap.toNat % 2 ^ 31 = 0 := by
  have hout := processSidx_v0 s hv hrefs (by omega)
  have hvalue := e.toNat_sap_shrinkSap s.totalEncryptionOverhead
  rw [hout, SidxBox.box_modifyFirst hrefs]
  constructor
  · rintro ⟨n, hn⟩
    rw [SidxBox.box_modifyFirst hrefs] at hn
    have hbytes := List.append_cancel_left (congrArg Mp4Atom.data hn)
    -- the SAP field stands behind 8 bytes of the entry
    have hfield : ∀ x : SidxEntry, beAt (x.bytes ++ es.flatMap SidxEntry.bytes) 8 4
        = x.sap.toNat := by
      intro x
      refine beAt_of_prefix (l := toBe 4 x.refField ++ toBe 4 x.subsegmentDuration.toNat)
        ⟨es.flatMap SidxEntry.bytes, ?_⟩ rfl x.sap.isLt
      simp only [SidxEntry.bytes, List.append_assoc]
    have hread := hfield (e.shrinkSap s.totalEncryptionOverhead)
    rw [hbytes, hfield, hvalue] at hread
    rw [SidxEntry.sap_setSize] at hread
    omega
  · intro h
    have hsap : (e.shrinkSap s.totalEncryptionOverhead).sap = e.sap :=
      BitVec.eq_of_toNat_eq (by rw [hvalue]; omega)
    have hentry : (e.shrinkSap s.totalEncryptionOverhead).bytes
        = (e.setSize e.referencedSize).bytes := by
      rw [SidxEntry.bytes, hsap, SidxEntry.refField_shrinkSap,
        SidxEntry.subsegmentDuration_shrinkSap]
      rfl
    exact ⟨e.referencedSize, by rw [SidxBox.box_modifyFirst hrefs, hentry]⟩

/-- In version 1 the first size is shortened, also where it is that of an index. -/
theorem shortens_v1_iff (hv : b.version = .v1) (hrefs : b.references = e :: es)
    (hov : s.totalEncryptionOverhead ≤ e.referencedSize.toNat) :
    (∀ indexRangeStart, parseSidxFragments (processSidx s b.box).pack indexRangeStart
        = shortened s.totalEncryptionOverhead (parseSidxFragments b.box.pack indexRangeStart)) ↔
      s.totalEncryptionOverhead = 0 ∨ e.isIndex = false ∨ ∀ x ∈ b.references, x.isIndex = true := by
  have hsize := e.referencedSize.isLt
  -- the entry ends earlier, and what follows it starts earlier
  have hnext : ∀ start, (start + (e.referencedSize.toNat - s.totalEncryptionOverhead)) % 2 ^ 64
      = wrapSub ((start + e.referencedSize.toNat) % 2 ^ 64) s.totalEncryptionOverhead := by
    intro start
    unfold wrapSub
    omega
  have hlast : ∀ x, wrapSub (wrapSub x s.totalEncryptionOverhead) 1
      = wrapSub (wrapSub x 1) s.totalEncryptionOverhead := by
    intro x
    unfold wrapSub
    omega
  have hafter : ∀ idx, parseSidxFragments (processSidx s b.box).pack idx
      = (if e.isIndex then [] else [⟨firstStart b idx,
          wrapSub (wrapSub ((firstStart b idx + e.referencedSize.toNat) % 2 ^ 64) 1)
            s.totalEncryptionOverhead, e.subsegmentDuration.toNat, b.timescale.toNat⟩])
        ++ (wrapFragments b.timescale.toNat (es.map SidxEntry.reference)
          ((firstStart b idx + e.referencedSize.toNat) % 2 ^ 64)).map
            (SidxFragment.shift s.totalEncryptionOverhead) := by
    intro idx
    rw [processSidx_v1 s hv hrefs hov, parseSidxFragments_modifyFirst hrefs, wrapFragments,
      SidxEntry.reference]
    dsimp only
    rw [e.toNat_referencedSize_shrink, hnext, hlast, wrapFragments_shift, SidxEntry.shrink,
      SidxEntry.isIndex_setSize, SidxEntry.subsegmentDuration_setSize]
  have hbefore : ∀ idx, parseSidxFragments b.box.pack idx
      = (if e.isIndex then [] else [⟨firstStart b idx,
          wrapSub ((firstStart b idx + e.referencedSize.toNat) % 2 ^ 64) 1,
            e.subsegmentDuration.toNat, b.timescale.toNat⟩])
        ++ wrapFragments b.timescale.toNat (es.map SidxEntry.reference)
          ((firstStart b idx + e.referencedSize.toNat) % 2 ^ 64) := by
    intro idx
    rw [parseSidxFragments_box, refs_eq hrefs, wrapFragments]
    rfl
  simp only [hafter, hbefore]
  cases hindex : e.isIndex with
  | false => exact iff_of_true (fun _ => rfl) (.inr (.inl rfl))
  | true =>
    have hov' : s.totalEncryptionOverhead < 2 ^ 64 := by omega
    have hlt : ∀ x, x % 2 ^ 64 < 2 ^ 64 := fun x => Nat.mod_lt x (by norm_num)
    have hiff := fun idx => map_shift_eq_shortened_iff b.timescale.toNat
      (es.map SidxEntry.reference) (hlt (firstStart b idx + e.referencedSize.toNat)) hov'
    have hall : (∀ r ∈ es.map SidxEntry.reference, r.isIndex = true) ↔
        ∀ x ∈ b.references, x.isIndex = true := by
      rw [← forall_isIndex_iff hrefs, List.forall_mem_cons]
      exact (and_iff_right hindex).symm
    rw [or_iff_right (a := true = false) Bool.noConfusion, ← hall]
    exact ⟨fun h => (hiff 0).mp (h 0), fun h idx => (hiff idx).mpr h⟩

theorem fields_v1 (hv : b.version = .v1) (hrefs : b.references = e :: es)
    (hov : s.totalEncryptionOverhead ≤ e.referencedSize.toNat) :
    ∃ n, processSidx s b.box = (b.modifyFirst fun e => e.setSize n).box := by
  refine ⟨BitVec.ofNat 31 (e.referencedSize.toNat - s.totalEncryptionOverhead), ?_⟩
  rw [processSidx_v1 s hv hrefs hov, SidxBox.box_modifyFirst hrefs, SidxBox.box_modifyFirst hrefs]
  rfl

/-- **Only the first size changes** exactly when nothing is taken away, or in a box of version 1
whose first reference is media or that references indexes only, or in a box of version 0 that
references indexes only and whose first SAP field has no low bits. -/
theorem rewritesFirstSize_iff (hrefs : b.references = e :: es)
    (hov : s.totalEncryptionOverhead ≤ e.referencedSize.toNat) :
    RewritesFirstSize s b ↔ s.totalEncryptionOverhead = 0 ∨
      (b.version = .v1 ∧ (e.isIndex = false ∨ ∀ x ∈ b.references, x.isIndex = true)) ∨
      (b.version = .v0 ∧ (∀ x ∈ b.references, x.isIndex = true) ∧ e.sap.toNat % 2 ^ 31 = 0) := by
  have hsize := e.referencedSize.isLt
  unfold RewritesFirstSize
  rcases hv : b.version with _ | _
  · rw [shortens_v0_iff s hv hrefs (by omega), fields_v0_iff s hv hrefs (by omega), ← or_and_left]
    simp
  · rw [shortens_v1_iff s hv hrefs hov, and_iff_left (fields_v1 s hv hrefs hov)]
    simp

end Rewritten

/-- A decrypter whose segment loses 10 bytes of encryption boxes. -/
def tenBytesLess : Mp4Decrypter := { Mp4Decrypter.new ∅ with totalEncryptionOverhead := 10 }

/-- The box of `oneMedia` in version 1. -/
def oneMediaV1 : SidxBox where
  version := .v1
  flags := 0
  referenceId := 1
  timescale := 1000
  earliestPresentationTime := 0
  firstOffset := 0
  references := [⟨false, 100, 2000, 0⟩]
  count_lt := oneMedia.count_lt

theorem rewritesFirstSize_oneMediaV1 : RewritesFirstSize tenBytesLess oneMediaV1 :=
  (rewritesFirstSize_iff tenBytesLess
    (show oneMediaV1.references = ⟨false, 100, 2000, 0⟩ :: [] from rfl) (by decide)).mpr
      (.inr (.inl ⟨rfl, .inl rfl⟩))

/-- In version 0 the fragment keeps its size. -/
theorem not_rewritesFirstSize :
    ¬ ∀ (s : Mp4Decrypter) (b : SidxBox) (e : SidxEntry) (es : List SidxEntry),
      b.references = e :: es → s.totalEncryptionOverhead ≤ e.referencedSize.toNat →
      RewritesFirstSize s b := by
  intro h
  have hone := (h tenBytesLess oneMedia ⟨false, 100, 2000, 0⟩ [] rfl (by decide)).1 0
  exact absurd hone (by decide +kernel)

end Mp4Decrypter

end MediaFlow
