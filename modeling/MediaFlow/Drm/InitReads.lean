import MediaFlow.Drm.BoxReads
import MediaFlow.Drm.Segment

/-!
# Init segments that are processed

The handlers of an init segment open box after box, and index into their payloads. Whether one aborts
depends on the bytes alone, not on what the decrypter has found so far: `initProcessed_iff` says for
which init segments none does.
-/

open ByteString Emit

namespace MediaFlow

/-! ### What the handlers read -/

/-- The boxes of `data` are all read, and `P` holds of each. -/
def ReadsAll (P : Mp4Atom → Prop) (data : Bytes) : Prop :=
  (∀ pos, Reached data pos → LongSizeFits data pos) ∧
    ∀ atoms, listAtoms data = some atoms → ∀ a ∈ atoms, P a

/-- A box of this type is opened, and its payload is as `P` says. -/
def Opened (tag : FourCC) (P : Bytes → Prop) (a : Mp4Atom) : Prop := a.atomType = tag → P a.data

def SchiReads : Bytes → Prop := ReadsAll fun _ => True

def SinfReads : Bytes → Prop := ReadsAll (Opened .schi SchiReads)

/-- The boxes of a sample entry stand after its fixed fields. -/
def SampleEntryReads (entry : Mp4Atom) : Prop :=
  Mp4Decrypter.sampleEntryFixedSize entry.atomType ≤ entry.data.length →
    ReadsAll (Opened .sinf SinfReads)
      (entry.data.drop (Mp4Decrypter.sampleEntryFixedSize entry.atomType))

/-- The first `n` sample entries, from `pos` on. -/
def EntriesRead (data : Bytes) : ℕ → ℕ → Prop
  | 0, _ => True
  | n + 1, pos => LongSizeFits data pos ∧
      ∀ entry next, readAtomAt data pos data.length = some (some (entry, next)) →
        SampleEntryReads entry ∧ EntriesRead data n next

def StsdReads (data : Bytes) : Prop :=
  8 ≤ data.length → EntriesRead (data.drop 8) (beAt data 4 4) 0

def StblReads : Bytes → Prop := ReadsAll (Opened .stsd StsdReads)

def MinfReads : Bytes → Prop := ReadsAll (Opened .stbl StblReads)

def MdiaReads : Bytes → Prop := ReadsAll (Opened .minf MinfReads)

/-- The first `tkhd` of a track is not empty. -/
def TkhdReads (data : Bytes) : Prop :=
  ∀ atoms, listAtoms data = some atoms →
    ∀ tkhd, atoms.find? (fun c => c.atomType = .tkhd) = some tkhd → tkhd.data ≠ []

def TrakReads (data : Bytes) : Prop := ReadsAll (Opened .mdia MdiaReads) data ∧ TkhdReads data

def MoovReads : Bytes → Prop := ReadsAll (Opened .trak TrakReads)

/-- **The condition**: no 64-bit size of a box that is opened on the way runs past the largest
position, and the first `tkhd` of each track is not empty. -/
def InitReads : Bytes → Prop := ReadsAll (Opened .moov MoovReads)

/-- Both functions over an init segment return. -/
structure InitProcessed (s : Mp4Decrypter) (init : Bytes) : Prop where
  processes : (s.processInitOnly init).isSome
  primes : (s.initFromSegment init).isSome

/-! ### Lists of boxes -/

section Boxes

variable {data : Bytes}

theorem length_le_of_lieFrom {pos : ℕ} {atoms : List Mp4Atom} (h : LieFrom data pos atoms) :
    ∀ a ∈ atoms, a.data.length ≤ data.length := by
  induction atoms generalizing pos with
  | nil => exact nofun
  | cons a atoms ih =>
    obtain ⟨start, next, -, hslice, hrest⟩ := h
    refine List.forall_mem_cons.mpr ⟨?_, ih hrest⟩
    have hnext := (slice?_eq_some_iff.mp hslice).2.1
    rw [length_of_slice? hslice]
    omega

/-- A payload is no longer than what it stands in. -/
theorem length_le_of_listAtoms {atoms : List Mp4Atom} (h : listAtoms data = some atoms) :
    ∀ a ∈ atoms, a.data.length ≤ data.length :=
  length_le_of_lieFrom (lieFrom_listAtomsFrom h)

variable (hlen : data.length < 2 ^ 63)

include hlen

/-- **A pass over the boxes** returns if all are read and `P` holds of each, where `P` says when the
handling of one box returns. -/
theorem isSome_bind_listAtoms_iff {β : Type*} {g : List Mp4Atom → Option β} {P : Mp4Atom → Prop}
    (h : ∀ atoms, listAtoms data = some atoms → (∀ a ∈ atoms, a.data.length < 2 ^ 63) →
      ((g atoms).isSome ↔ ∀ a ∈ atoms, P a)) :
    ((listAtoms data).bind g).isSome ↔ ReadsAll P data := by
  unfold ReadsAll
  rw [← isSome_listAtoms_iff hlen]
  refine isSome_bind_iff fun atoms hatoms => ?_
  rw [h atoms hatoms fun a ha => (length_le_of_listAtoms hatoms a ha).trans_lt hlen]
  constructor
  · rintro hall _ hsame
    rw [hatoms] at hsame
    obtain rfl := Option.some.inj hsame
    exact hall
  · exact fun hall => hall atoms hatoms

end Boxes

/-- A box of one type is opened, and the others are not. -/
theorem isSome_ite_opened_iff {β : Type*} {a : Mp4Atom} {target : FourCC} {P : Bytes → Prop}
    {opened other : Option β} (hopened : opened.isSome ↔ P a.data) (hother : other.isSome) :
    (if a.atomType = target then opened else other).isSome ↔ Opened target P a := by
  unfold Opened
  by_cases htarget : a.atomType = target
  · rw [if_pos htarget, forall_prop_of_true htarget]
    exact hopened
  · rw [if_neg htarget]
    exact iff_of_true hother fun h => absurd h htarget

namespace Mp4Decrypter

/-- A container whose children of one type are processed. -/
theorem isSome_rebuild_iff {tag target : FourCC}
    {process : Mp4Decrypter → Mp4Atom → Option (Mp4Atom × Mp4Decrypter)} {P : Bytes → Prop}
    (hprocess : ∀ s a, a.data.length < 2 ^ 63 → ((process s a).isSome ↔ P a.data))
    (s : Mp4Decrypter) {parent : Mp4Atom} (hlen : parent.data.length < 2 ^ 63) :
    (rebuild tag (rewriting target process) s parent).isSome ↔
      ReadsAll (Opened target P) parent.data := by
  refine isSome_bind_listAtoms_iff hlen fun atoms _ hshort => ?_
  refine (isSome_bind_of_total fun _ => rfl).trans ?_
  refine isSome_emitAll_iff (fun s a ha => ?_) s
  refine isSome_ite_opened_iff ?_ rfl
  exact (isSome_bind_of_total fun _ => rfl).trans (hprocess s a (hshort a ha))

/-! ### Sample entries -/

theorem isSome_parseSchi_iff (s : Mp4Decrypter) {schi : Mp4Atom}
    (hlen : schi.data.length < 2 ^ 63) : (parseSchi s schi).isSome ↔ SchiReads schi.data :=
  isSome_bind_listAtoms_iff hlen fun _ _ _ => iff_of_true rfl fun _ _ => trivial

theorem isSome_extractCodecFormat_iff (s : Mp4Decrypter) {sinf : Mp4Atom}
    (hlen : sinf.data.length < 2 ^ 63) : (extractCodecFormat s sinf).isSome ↔ SinfReads sinf.data := by
  refine isSome_bind_listAtoms_iff hlen fun atoms _ hshort => ?_
  refine isSome_foldlM_iff (fun st a ha => ?_) _
  unfold sinfChild
  by_cases hfrma : a.atomType = .frma ∧ a.data.length ≥ 4
  · rw [if_pos hfrma, Opened, hfrma.1]
    exact iff_of_true rfl fun h => absurd h (by decide)
  rw [if_neg hfrma]
  by_cases hschm : a.atomType = .schm
  · rw [if_pos hschm, Opened, hschm]
    exact iff_of_true rfl fun h => absurd h (by decide)
  rw [if_neg hschm]
  refine isSome_ite_opened_iff ?_ rfl
  exact (isSome_bind_of_total fun _ => rfl).trans (isSome_parseSchi_iff st.1 (hshort a ha))

theorem isSome_processSampleEntry_iff (s : Mp4Decrypter) {entry : Mp4Atom}
    (hlen : entry.data.length < 2 ^ 63) :
    (processSampleEntry s entry).isSome ↔ SampleEntryReads entry := by
  unfold processSampleEntry SampleEntryReads
  dsimp only
  by_cases hfixed : entry.data.length < sampleEntryFixedSize entry.atomType
  · rw [if_pos hfixed]
    exact iff_of_true rfl fun h => absurd h (Nat.not_le.mpr hfixed)
  rw [if_neg hfixed, forall_prop_of_true (Nat.not_lt.mp hfixed)]
  have hdrop : (entry.data.drop (sampleEntryFixedSize entry.atomType)).length < 2 ^ 63 := by
    rw [List.length_drop]
    omega
  refine isSome_bind_listAtoms_iff hdrop fun atoms _ hshort => ?_
  refine (isSome_bind_of_total fun _ => rfl).trans ?_
  refine isSome_emitAll_iff (fun st a ha => ?_) _
  refine isSome_ite_opened_iff ?_ ?_
  · exact (isSome_bind_of_total fun _ => rfl).trans
      (isSome_extractCodecFormat_iff st.1 (hshort a ha))
  · split
    · rfl
    · rfl

/-- The loop over the sample entries, whose count the box says. -/
theorem isSome_stsdEntries_iff {data : Bytes} (hlen : data.length < 2 ^ 63) (n pos : ℕ)
    (s : Mp4Decrypter) : (stsdEntries data n pos s).isSome ↔ EntriesRead data n pos := by
  induction n generalizing pos s with
  | zero => exact iff_of_true rfl trivial
  | succ n ih =>
    rw [stsdEntries, EntriesRead, ← isSome_readAtomAt_iff hlen]
    refine isSome_bind_iff fun r hread => ?_
    cases r with
    | none =>
      refine iff_of_true rfl fun entry next hsome => ?_
      rw [hread] at hsome
      cases hsome
    | some p =>
      obtain ⟨entry, next⟩ := p
      have hshort : entry.data.length < 2 ^ 63 := by
        obtain ⟨hadvance, -, hnext⟩ := readAtomAt_advances hread
        unfold Mp4Atom.packedLen at hadvance
        omega
      have hone : (∀ entry' next', readAtomAt data pos data.length = some (some (entry', next')) →
          SampleEntryReads entry' ∧ EntriesRead data n next') ↔
          SampleEntryReads entry ∧ EntriesRead data n next := by
        constructor
        · exact fun h => h entry next hread
        · intro h entry' next' hsame
          rw [hread] at hsame
          cases hsame
          exact h
      rw [hone, ← isSome_processSampleEntry_iff s hshort]
      refine isSome_bind_iff fun b _ => ?_
      rw [← ih next b.2]
      exact isSome_bind_of_total fun _ => rfl

theorem isSome_processStsd_iff (s : Mp4Decrypter) (stsd : Mp4Atom)
    (hlen : stsd.data.length < 2 ^ 63) : (processStsd s stsd).isSome ↔ StsdReads stsd.data := by
  unfold processStsd StsdReads
  by_cases hshort : stsd.data.length < 8
  · rw [if_pos hshort]
    exact iff_of_true rfl fun h => absurd h (Nat.not_le.mpr hshort)
  · have hdrop : (stsd.data.drop 8).length < 2 ^ 63 := by
      rw [List.length_drop]
      omega
    rw [if_neg hshort, forall_prop_of_true (Nat.not_lt.mp hshort),
      ← isSome_stsdEntries_iff hdrop _ _ s]
    exact isSome_bind_of_total fun _ => rfl

/-! ### Tracks -/

theorem isSome_processStbl_iff (s : Mp4Decrypter) (stbl : Mp4Atom)
    (hlen : stbl.data.length < 2 ^ 63) : (processStbl s stbl).isSome ↔ StblReads stbl.data :=
  isSome_rebuild_iff isSome_processStsd_iff s hlen

theorem isSome_processMinf_iff (s : Mp4Decrypter) (minf : Mp4Atom)
    (hlen : minf.data.length < 2 ^ 63) : (processMinf s minf).isSome ↔ MinfReads minf.data :=
  isSome_rebuild_iff isSome_processStbl_iff s hlen

theorem isSome_processMdia_iff (s : Mp4Decrypter) (mdia : Mp4Atom)
    (hlen : mdia.data.length < 2 ^ 63) : (processMdia s mdia).isSome ↔ MdiaReads mdia.data :=
  isSome_rebuild_iff isSome_processMinf_iff s hlen

theorem isSome_readTkhd_iff (s : Mp4Decrypter) (children : List Mp4Atom) :
    (readTkhd s children).isSome ↔
      ∀ tkhd, children.find? (fun c => c.atomType = .tkhd) = some tkhd → tkhd.data ≠ [] := by
  unfold readTkhd
  cases hfind : children.find? (fun c => c.atomType = .tkhd) with
  | none => exact iff_of_true rfl nofun
  | some tkhd =>
    dsimp only
    cases hdata : tkhd.data with
    | nil => exact iff_of_false nofun fun h => h tkhd rfl hdata
    | cons version rest =>
      refine iff_of_true ?_ ?_
      · dsimp only
        generalize (if version = 0 then 12 else 20) = idOffset
        split
        · rfl
        · rfl
      · rintro _ ⟨⟩
        rw [hdata]
        exact List.cons_ne_nil _ _

theorem isSome_processTrak_iff (s : Mp4Decrypter) (trak : Mp4Atom)
    (hlen : trak.data.length < 2 ^ 63) : (processTrak s trak).isSome ↔ TrakReads trak.data := by
  unfold TrakReads ReadsAll TkhdReads
  rw [and_assoc, ← isSome_listAtoms_iff hlen]
  refine isSome_bind_iff fun atoms hatoms => ?_
  have hshort := fun a ha => (length_le_of_listAtoms hatoms a ha).trans_lt hlen
  -- the two passes over the children
  have hpasses : (∀ atoms', listAtoms trak.data = some atoms' → ∀ a ∈ atoms', Opened .mdia MdiaReads a) ∧
      (∀ atoms', listAtoms trak.data = some atoms' →
        ∀ tkhd, atoms'.find? (fun c => c.atomType = .tkhd) = some tkhd → tkhd.data ≠ []) ↔
      (readTkhd s atoms).isSome ∧ ∀ a ∈ atoms, Opened .mdia MdiaReads a := by
    rw [isSome_readTkhd_iff, and_comm]
    refine and_congr ?_ ?_
    · exact ⟨fun h => h atoms hatoms, fun h atoms' hsame => Option.some.inj (hatoms.symm.trans hsame) ▸ h⟩
    · exact ⟨fun h => h atoms hatoms, fun h atoms' hsame => Option.some.inj (hatoms.symm.trans hsame) ▸ h⟩
  rw [hpasses]
  refine isSome_bind_iff fun s' _ => ?_
  refine (isSome_bind_of_total fun _ => rfl).trans ?_
  refine isSome_emitAll_iff (fun s a ha => ?_) s'
  refine isSome_ite_opened_iff ?_ rfl
  exact (isSome_bind_of_total fun _ => rfl).trans (isSome_processMdia_iff s a (hshort a ha))

/-! ### The init segment -/

theorem isSome_processMoov_iff (s : Mp4Decrypter) (moov : Mp4Atom)
    (hlen : moov.data.length < 2 ^ 63) : (processMoov s moov).isSome ↔ MoovReads moov.data := by
  refine isSome_bind_listAtoms_iff hlen fun atoms _ hshort => ?_
  refine (isSome_bind_of_total fun _ => rfl).trans ?_
  refine isSome_emitAll_iff (fun s a ha => ?_) s
  refine isSome_ite_opened_iff ?_ ?_
  · exact (isSome_bind_of_total fun _ => rfl).trans (isSome_processTrak_iff s a (hshort a ha))
  · split
    · rfl
    · rfl

/-- Every `moov` of the segment primes the decrypter. -/
theorem isSome_initFromSegment_iff (s : Mp4Decrypter) {init : Bytes} (hlen : init.length < 2 ^ 63) :
    (s.initFromSegment init).isSome ↔ InitReads init := by
  refine isSome_bind_listAtoms_iff hlen fun atoms _ hshort => ?_
  refine isSome_foldlM_iff (fun s a ha => ?_) s
  refine isSome_ite_opened_iff ?_ rfl
  exact (isSome_bind_of_total fun _ => rfl).trans (isSome_processMoov_iff s a (hshort a ha))

/-- Only the first `moov` is processed when the segment is rewritten. -/
theorem isSome_processInitOnly (s : Mp4Decrypter) {init : Bytes} (hlen : init.length < 2 ^ 63)
    (h : InitReads init) : (s.processInitOnly init).isSome := by
  obtain ⟨hreached, hmoov⟩ := h
  obtain ⟨atoms, hatoms⟩ := Option.isSome_iff_exists.mp ((isSome_listAtoms_iff hlen).mpr hreached)
  unfold processInitOnly
  rw [hatoms, Option.bind_eq_bind, Option.bind_some]
  cases hfind : atoms.find? (fun a => a.atomType = .moov) with
  | none => rfl
  | some moov =>
    have hmem : moov ∈ atoms := List.mem_of_find?_eq_some hfind
    have htag : moov.atomType = .moov := by simpa using List.find?_some hfind
    have hshort := (length_le_of_listAtoms hatoms moov hmem).trans_lt hlen
    refine (isSome_bind_of_total fun _ => rfl).mpr ?_
    exact (isSome_processMoov_iff s moov hshort).mpr (hmoov atoms hatoms moov hmem htag)

end Mp4Decrypter

theorem initProcessed_iff_reads (s : Mp4Decrypter) {init : Bytes} (hlen : init.length < 2 ^ 63) :
    InitProcessed s init ↔ InitReads init := by
  constructor
  · exact fun h => (s.isSome_initFromSegment_iff hlen).mp h.primes
  · exact fun h => ⟨s.isSome_processInitOnly hlen h, (s.isSome_initFromSegment_iff hlen).mpr h⟩

/-- **Init processing aborts** exactly on a box that is opened on the way and whose 64-bit size runs
past the largest position, and on a track whose first `tkhd` is empty. -/
theorem initProcessed_iff (s : Mp4Decrypter) (init : Bytes) (hlen : init.length < 2 ^ 63) :
    InitProcessed s init ↔ InitReads init :=
  initProcessed_iff_reads s hlen

/-- A decrypter with one key. -/
def oneKeyDecrypter : Mp4Decrypter := .new (buildKeyMapFromHex "00".toList "00".toList)

/-- An init segment with a track whose `tkhd` has this payload. -/
def tkhdInit (payload : Bytes) : Bytes :=
  (Mp4Atom.mk .moov (Mp4Atom.mk .trak (Mp4Atom.mk .tkhd payload).pack).pack).pack

theorem oneByteTkhd_reads : InitReads (tkhdInit [0]) :=
  (initProcessed_iff oneKeyDecrypter (tkhdInit [0]) (by decide)).mp ⟨by decide, by decide⟩

theorem emptyTkhd_not_processed :
    oneKeyDecrypter.keyMap.entries ≠ [] ∧ ¬ InitProcessed oneKeyDecrypter (tkhdInit []) := by
  refine ⟨by decide, fun h => ?_⟩
  have hprimes := h.primes
  revert hprimes
  decide

end MediaFlow
