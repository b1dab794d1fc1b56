import MediaFlow.Drm.Fragment

/-!
# Offsets after stripping

`process_moof` shortens a `moof` and shifts the `data_offset` of its `trun`s, so that they keep
pointing at the same `mdat` bytes. The shift is the packed size of the stripped boxes; the length
changes by more than that (`length_processMoof`), because re-packing loses bytes and a `tfhd` may
be synthesised. `offsetsFollow_iff` says when the two agree.

* `length_processMoof`: how long the processed box is;
* `trunDataOffset_modifyTrun`: how far a data offset moves, wrapping included;
* `truns_processMoof`: the processed box, read back, has the modified `trun`s.
-/

open ByteString Emit

namespace MediaFlow

namespace Mp4Decrypter

/-! ### One trun -/

/-- A `trun` that carries a data offset. -/
def HasDataOffset (t : Mp4Atom) : Prop :=
  t.atomType = .trun ∧ (beAt t.data 0 4).testBit 0 ∧ 12 ≤ t.data.length

instance (t : Mp4Atom) : Decidable (HasDataOffset t) := inferInstanceAs (Decidable (_ ∧ _))

@[simp] theorem length_i32Bytes (n : ℤ) : (i32Bytes n).length = 4 := length_toBe 4 _

theorem testBit_mod_24 (n : ℕ) : (n % 2 ^ 24).testBit 0 = n.testBit 0 := by
  rw [Nat.testBit_mod_two_pow]
  simp

theorem modifyTrun_of_hasDataOffset (s : Mp4Decrypter) {t : Mp4Atom} (h : HasDataOffset t) :
    modifyTrun s t = ⟨.trun, patch t.data 8
      (i32Bytes (asI32 (trunDataOffset t.data - asI32 s.totalEncryptionOverhead)))⟩ := by
  obtain ⟨-, hflag, hlen⟩ := h
  unfold modifyTrun trunDataOffset
  simp only
  rw [if_neg (by omega), testBit_mod_24, if_pos hflag, if_pos ⟨hflag, hlen⟩]

@[simp] theorem modifyTrun_length (s : Mp4Decrypter) (t : Mp4Atom) :
    (modifyTrun s t).data.length = t.data.length := by
  unfold modifyTrun
  simp only
  split
  · rfl
  · split
    · rw [length_patch]
      rw [length_i32Bytes]
      omega
    · rfl

@[simp] theorem modifyTrun_packedLen (s : Mp4Decrypter) (t : Mp4Atom) :
    (modifyTrun s t).packedLen = t.packedLen := by
  unfold Mp4Atom.packedLen
  rw [modifyTrun_length]

theorem modifyTrun_atomType (s : Mp4Decrypter) {t : Mp4Atom} (h : t.atomType = .trun) :
    (modifyTrun s t).atomType = .trun := by
  unfold modifyTrun
  simp only
  split
  · exact h
  · split <;> rfl

/-- A data offset moves by the overhead, as an `i32`. -/
theorem trunDataOffset_modifyTrun (s : Mp4Decrypter) {t : Mp4Atom} (h : HasDataOffset t) :
    trunDataOffset (modifyTrun s t).data
      = asI32 (trunDataOffset t.data - s.totalEncryptionOverhead) := by
  rw [modifyTrun_of_hasDataOffset s h, asI32_sub_asI32]
  set n := asI32 (trunDataOffset t.data - s.totalEncryptionOverhead) with hn
  obtain ⟨-, hflag, hlen⟩ := h
  have hpre : (t.data.take 8).length = 8 := by rw [List.length_take]; omega
  have hplen : (patch t.data 8 (i32Bytes n)).length = t.data.length :=
    length_patch (by rw [length_i32Bytes]; omega)
  have hoff : asI32 (beAt (patch t.data 8 (i32Bytes n)) 8 4) = n := by
    have h8 := asI32_beAt_i32Bytes (t.data.take 8) (t.data.drop (8 + (i32Bytes n).length)) n
    rw [hpre] at h8
    rw [patch, h8, hn]
    exact asI32_congr (asI32_emod _)
  have hflags : beAt (patch t.data 8 (i32Bytes n)) 0 4 = beAt t.data 0 4 := by
    unfold beAt patch
    rw [List.drop_zero, List.drop_zero, List.append_assoc, List.take_append_of_le_length
      (by rw [hpre]; omega), List.take_take]
    rfl
  unfold trunDataOffset
  rw [if_pos ⟨by rw [hflags]; exact hflag, by rw [hplen]; exact hlen⟩, hoff]

/-! ### Lengths -/

theorem length_flatMap_pack (boxes : List Mp4Atom) :
    (boxes.flatMap Mp4Atom.pack).length = (boxes.map Mp4Atom.packedLen).sum := by
  rw [List.length_flatMap]
  simp only [Mp4Atom.length_pack]

/-- What one `traf` gains: the 16 bytes of a `tfhd` that is synthesised for it. -/
def synthesizedLen (s : Mp4Decrypter) (children : List Mp4Atom) : ℕ :=
  if hasTfhd children = false ∧ s.currentTrackId > 0 then 16 else 0

theorem sum_packedLen_reemitted (s : Mp4Decrypter) (children : List Mp4Atom) :
    ((children.flatMap (reemitted s)).map Mp4Atom.packedLen).sum + trafOverhead children
      = (children.map Mp4Atom.packedLen).sum := by
  induction children with
  | nil => rfl
  | cons child rest ih =>
    rw [List.flatMap_cons, List.map_append, List.sum_append, List.map_cons, List.sum_cons, ← ih]
    unfold reemitted trafOverhead
    by_cases henc : isEncryptionBox child.atomType = true
    · rw [if_pos henc, List.filter_cons_of_pos (by simpa using henc), List.map_cons, List.sum_cons,
        List.map_nil, List.sum_nil]
      omega
    · rw [if_neg henc, List.filter_cons_of_neg (by simpa using henc)]
      split
      · rw [List.map_singleton, List.sum_singleton, modifyTrun_packedLen]
        omega
      · rw [List.map_singleton, List.sum_singleton]
        omega

theorem sum_packedLen_trafBoxes (s : Mp4Decrypter) (children : List Mp4Atom) :
    ((trafBoxes s children).map Mp4Atom.packedLen).sum + trafOverhead children
      = (children.map Mp4Atom.packedLen).sum + synthesizedLen s children := by
  have h := sum_packedLen_reemitted s children
  unfold trafBoxes synthesizedLen
  rw [List.map_append, List.sum_append]
  split
  · have hlen : (synthesizedTfhd s.currentTrackId).packedLen = 16 := by
      unfold Mp4Atom.packedLen synthesizedTfhd
      rw [List.length_append, length_toBe, length_toBe]
    rw [List.map_singleton, List.sum_singleton, hlen]
    omega
  · rw [List.map_nil, List.sum_nil]
    omega

namespace MoofPart

/-- The box a part was read from. -/
def box : MoofPart → Mp4Atom
  | .traf box _ => box
  | .other box => box

/-- The part that the box of a part is read back as. -/
def processed (s : Mp4Decrypter) : MoofPart → MoofPart
  | .traf box children => .traf (reboxed s (.traf box children)) (trafBoxes s children)
  | .other box => .other box

/-- The bytes that re-packing the children of a `traf` loses. -/
def loss : MoofPart → ℕ
  | .traf box _ => repackLoss box.data
  | .other _ => 0

end MoofPart

theorem readParts_cons {child : Mp4Atom} {rest : List Mp4Atom} {parts : List MoofPart}
    (h : readParts (child :: rest) = some parts) :
    ∃ p ps, readPart child = some p ∧ readParts rest = some ps ∧ parts = p :: ps := by
  simp only [readParts, Option.bind_eq_bind, Option.bind_eq_some_iff, Option.pure_def,
    Option.some.injEq] at h
  obtain ⟨p, hp, ps, hps, rfl⟩ := h
  exact ⟨p, ps, hp, hps, rfl⟩

/-- A part is a `traf` with its children read, or a box of another type. -/
theorem readPart_eq_some {child : Mp4Atom} {p : MoofPart} (h : readPart child = some p) :
    (child.atomType = .traf ∧ ∃ kids, childrenOf child.data = some kids ∧ p = .traf child kids) ∨
      (child.atomType ≠ .traf ∧ p = .other child) := by
  unfold readPart at h
  split at h
  · next ht =>
    obtain ⟨kids, hk, rfl⟩ := Option.map_eq_some_iff.mp h
    exact .inl ⟨ht, kids, hk, rfl⟩
  · next ht =>
    rw [Option.some.injEq] at h
    exact .inr ⟨ht, h.symm⟩

theorem sum_packedLen_reboxed (s : Mp4Decrypter) {children : List Mp4Atom}
    {parts : List MoofPart} (h : readParts children = some parts) :
    ((parts.map (MoofPart.reboxed s)).map Mp4Atom.packedLen).sum + MoofPart.overhead parts
        + (parts.map MoofPart.loss).sum
      = (children.map Mp4Atom.packedLen).sum
        + ((MoofPart.trafs parts).map (synthesizedLen s)).sum := by
  induction children generalizing parts with
  | nil =>
    simp only [readParts, Option.some.injEq] at h
    subst h
    rfl
  | cons child rest ih =>
    obtain ⟨p, ps, hp, hps, rfl⟩ := readParts_cons h
    have hrest := ih hps
    unfold MoofPart.overhead at hrest ⊢
    rcases readPart_eq_some hp with ⟨-, kids, hk, rfl⟩ | ⟨-, rfl⟩
    · have hkids := length_eq_of_listAtoms hk
      have hboxes := sum_packedLen_trafBoxes s kids
      simp only [List.map_cons, List.sum_cons, MoofPart.reboxed, MoofPart.trafs, MoofPart.loss,
        Mp4Atom.packedLen, length_flatMap_pack] at hkids hboxes hrest ⊢
      omega
    · simp only [List.map_cons, List.sum_cons, MoofPart.reboxed, MoofPart.trafs, MoofPart.loss]
        at hrest ⊢
      omega

/-! ### One moof -/

/-- The bytes of a `moof` that are stripped. -/
def strippedLen (moof : Mp4Atom) : ℕ := MoofPart.overhead (partsOf moof)

/-- The bytes that re-packing a `moof` and its `traf`s loses: the second half of 64-bit size
fields, and unreadable tails. -/
def lostLen (moof : Mp4Atom) : ℕ :=
  repackLoss moof.data + ((partsOf moof).map MoofPart.loss).sum

/-- The bytes of the `tfhd`s that are synthesised. -/
def addedLen (s : Mp4Decrypter) (moof : Mp4Atom) : ℕ :=
  ((MoofPart.trafs (partsOf moof)).map (synthesizedLen s)).sum

/-- The `trun`s of the `traf`s among the parts of a `moof`, in order. -/
def MoofPart.truns (parts : List MoofPart) : List Mp4Atom :=
  (MoofPart.trafs parts).flatten.filter fun c => c.atomType = .trun

/-- The `trun`s of a `moof`, in order. -/
def trunsOf (moof : Mp4Atom) : List Mp4Atom := MoofPart.truns (partsOf moof)

/-- A processed `moof` has left its overhead in the decrypter. -/
theorem overhead_processMoof {s s' : Mp4Decrypter} {moof moof' : Mp4Atom}
    (h : processMoof s moof = some (moof', s')) :
    s'.totalEncryptionOverhead = strippedLen moof := by
  obtain ⟨-, -, rfl⟩ := processMoof_eq_some h
  exact afterTrafs_overhead _ _

/-- **The length of a processed `moof`**: it loses the stripped boxes and what re-packing loses,
and gains the synthesised `tfhd`s. -/
theorem length_processMoof {s s' : Mp4Decrypter} {moof moof' : Mp4Atom}
    (h : processMoof s moof = some (moof', s')) :
    moof'.packedLen + strippedLen moof + lostLen moof = moof.packedLen + addedLen s moof := by
  obtain ⟨hparts, rfl, -⟩ := processMoof_eq_some h
  unfold readMoof at hparts
  simp only [Option.bind_eq_bind, Option.bind_eq_some_iff] at hparts
  obtain ⟨children, hch, hread⟩ := hparts
  have hdata := length_eq_of_listAtoms hch
  have hboxes := sum_packedLen_reboxed (enterMoof s (partsOf moof)) hread
  have hsynth : synthesizedLen (enterMoof s (partsOf moof)) = synthesizedLen s := rfl
  rw [hsynth] at hboxes
  unfold Mp4Atom.packedLen strippedLen lostLen addedLen
  simp only [length_flatMap_pack]
  omega

/-! ### Reading the processed box back -/

theorem packedLen_le_sum {boxes : List Mp4Atom} {b : Mp4Atom} (hb : b ∈ boxes) :
    b.packedLen ≤ (boxes.map Mp4Atom.packedLen).sum :=
  List.single_le_sum (fun _ _ => Nat.zero_le _) _ (List.mem_map_of_mem hb)

/-- Boxes whose packed length fits a 32-bit size are read back from a payload. -/
theorem childrenOf_flatMap_pack {boxes : List Mp4Atom}
    (h : (boxes.flatMap Mp4Atom.pack).length < 2 ^ 32) :
    childrenOf (boxes.flatMap Mp4Atom.pack) = some boxes := by
  refine listAtoms_pack boxes (fun b hb => ?_) (by omega)
  have hle := packedLen_le_sum hb
  rw [length_flatMap_pack] at h
  exact lt_of_le_of_lt hle h

theorem readParts_reboxed (s : Mp4Decrypter) {children : List Mp4Atom} {parts : List MoofPart}
    (h : readParts children = some parts)
    (hlen : ((parts.map (MoofPart.reboxed s)).flatMap Mp4Atom.pack).length < 2 ^ 32) :
    readParts (parts.map (MoofPart.reboxed s)) = some (parts.map (MoofPart.processed s)) := by
  induction children generalizing parts with
  | nil =>
    simp only [readParts, Option.some.injEq] at h
    subst h
    rfl
  | cons child rest ih =>
    obtain ⟨p, ps, hp, hps, rfl⟩ := readParts_cons h
    rw [List.map_cons, List.flatMap_cons, List.length_append, Mp4Atom.length_pack] at hlen
    have hrest := ih hps (by omega)
    rw [List.map_cons, List.map_cons, readParts, hrest]
    rcases readPart_eq_some hp with ⟨-, kids, -, rfl⟩ | ⟨ht, rfl⟩
    · have hkids : childrenOf ((trafBoxes s kids).flatMap Mp4Atom.pack) = some (trafBoxes s kids) :=
        childrenOf_flatMap_pack (by
          unfold MoofPart.reboxed Mp4Atom.packedLen at hlen
          simp only at hlen
          omega)
      have hpart : readPart (MoofPart.reboxed s (.traf child kids))
          = some (MoofPart.processed s (.traf child kids)) := by
        have htype : (MoofPart.reboxed s (.traf child kids)).atomType = .traf := rfl
        have hdata : (MoofPart.reboxed s (.traf child kids)).data
            = (trafBoxes s kids).flatMap Mp4Atom.pack := rfl
        rw [readPart, if_pos htype, hdata, hkids]
        rfl
      rw [hpart]
      rfl
    · have hpart : readPart (MoofPart.reboxed s (.other child))
          = some (MoofPart.processed s (.other child)) := if_neg ht
      rw [hpart]
      rfl

theorem filter_trun_reemitted (s : Mp4Decrypter) (children : List Mp4Atom) :
    (children.flatMap (reemitted s)).filter (fun c => decide (c.atomType = .trun))
      = (children.filter fun c => decide (c.atomType = .trun)).map (modifyTrun s) := by
  induction children with
  | nil => rfl
  | cons child rest ih =>
    rw [List.flatMap_cons, List.filter_append, ih]
    by_cases ht : child.atomType = .trun
    · have henc : ¬ isEncryptionBox child.atomType = true := by rw [ht]; decide
      have hmod := modifyTrun_atomType s ht
      rw [reemitted, if_neg henc, if_pos ht]
      simp [ht, hmod]
    · rw [reemitted]
      by_cases henc : isEncryptionBox child.atomType = true
      · simp [ht, henc]
      · simp [ht, henc]

theorem filter_trun_trafBoxes (s : Mp4Decrypter) (children : List Mp4Atom) :
    (trafBoxes s children).filter (fun c => decide (c.atomType = .trun))
      = (children.filter fun c => decide (c.atomType = .trun)).map (modifyTrun s) := by
  unfold trafBoxes
  rw [List.filter_append, filter_trun_reemitted]
  split
  · have htfhd : ¬ (synthesizedTfhd s.currentTrackId).atomType = .trun := by
      show ¬ FourCC.tfhd = FourCC.trun
      decide
    simp [htfhd]
  · rfl

theorem truns_processed (s : Mp4Decrypter) (parts : List MoofPart) :
    MoofPart.truns (parts.map (MoofPart.processed s))
      = (MoofPart.truns parts).map (modifyTrun s) := by
  unfold MoofPart.truns
  induction parts with
  | nil => rfl
  | cons p ps ih =>
    cases p with
    | other box => exact ih
    | traf box kids =>
      rw [List.map_cons, MoofPart.processed, MoofPart.trafs, MoofPart.trafs, List.flatten_cons,
        List.flatten_cons, List.filter_append, List.filter_append, List.map_append, ih,
        filter_trun_trafBoxes]

/-- **The processed box, read back, has the modified `trun`s**, when it fits a 32-bit size. -/
theorem truns_processMoof {s s' : Mp4Decrypter} {moof moof' : Mp4Atom}
    (h : processMoof s moof = some (moof', s')) (hfits : moof'.Fits) :
    trunsOf moof' = (trunsOf moof).map (modifyTrun s') := by
  have hov := overhead_processMoof h
  obtain ⟨hparts, hmoof, -⟩ := processMoof_eq_some h
  set e := enterMoof s (partsOf moof) with he
  have hmod : modifyTrun s' = modifyTrun e := by
    funext t
    unfold modifyTrun
    rw [hov, he]
    rfl
  unfold readMoof at hparts
  simp only [Option.bind_eq_bind, Option.bind_eq_some_iff] at hparts
  obtain ⟨children, hch, hread⟩ := hparts
  have hlen : (((partsOf moof).map (MoofPart.reboxed e)).flatMap Mp4Atom.pack).length < 2 ^ 32 := by
    rw [hmoof] at hfits
    unfold Mp4Atom.Fits at hfits
    simp only at hfits
    omega
  have hback := readParts_reboxed e hread hlen
  have hread' : partsOf moof' = (partsOf moof).map (MoofPart.processed e) := by
    rw [partsOf, hmoof, readMoof, childrenOf_flatMap_pack hlen]
    simp only [Option.bind_eq_bind, Option.bind_some, hback, Option.getD_some]
  rw [trunsOf, trunsOf, hread', hmod, truns_processed]

/-! ### When the shift is the change of length -/

/-- The data offset of every `trun` that has one moves by as much as the length of the `moof`
changes, so it points at the same `mdat` byte. -/
def OffsetsFollow (s' : Mp4Decrypter) (moof moof' : Mp4Atom) : Prop :=
  ∀ t ∈ trunsOf moof, HasDataOffset t →
    trunDataOffset (modifyTrun s' t).data - trunDataOffset t.data
      = (moof'.packedLen : ℤ) - moof.packedLen

/-- For every `trun` with a data offset, what re-packing loses balances the synthesised `tfhd`s
modulo `2 ^ 32`, and the offset that belongs to the new length is an `i32`. -/
def ShiftIsExact (s : Mp4Decrypter) (moof : Mp4Atom) : Prop :=
  ∀ t ∈ trunsOf moof, HasDataOffset t →
    2 ^ 32 ∣ (addedLen s moof : ℤ) - lostLen moof ∧
    -2 ^ 31 ≤ trunDataOffset t.data - strippedLen moof + addedLen s moof - lostLen moof ∧
    trunDataOffset t.data - strippedLen moof + addedLen s moof - lostLen moof < 2 ^ 31

/-- **When offsets follow the length.** The emitted `trun`s are the modified ones, and their
offsets follow the length of the box exactly when the shift is exact. -/
theorem offsetsFollow_iff (s s' : Mp4Decrypter) (moof moof' : Mp4Atom)
    (h : processMoof s moof = some (moof', s')) :
    (moof'.Fits → trunsOf moof' = (trunsOf moof).map (modifyTrun s')) ∧
      (OffsetsFollow s' moof moof' ↔ ShiftIsExact s moof) := by
  refine ⟨truns_processMoof h, forall_congr' fun t => forall_congr' fun _ =>
    forall_congr' fun ht => ?_⟩
  have hlen := length_processMoof h
  have hoff := trunDataOffset_modifyTrun s' ht
  rw [overhead_processMoof h] at hoff
  have hiff := asI32_eq_add_iff (trunDataOffset t.data - strippedLen moof)
    ((addedLen s moof : ℤ) - lostLen moof)
  rw [← hoff] at hiff
  constructor
  · intro heq
    obtain ⟨⟨hlo, hhi⟩, hdvd⟩ := hiff.mp (by omega)
    exact ⟨hdvd, by omega, by omega⟩
  · rintro ⟨hdvd, hlo, hhi⟩
    have := hiff.mpr ⟨⟨by omega, by omega⟩, hdvd⟩
    omega

/-- A `moov` with one track, of id 1. -/
def moovOfTrackOne : Mp4Atom :=
  ⟨.moov, (Mp4Atom.mk .trak (Mp4Atom.mk .tkhd (toBe 12 0 ++ toBe 4 1)).pack).pack⟩

/-- A `trun` without samples and with the data offset 100. -/
def trunAtHundred : Mp4Atom := ⟨.trun, toBe 4 1 ++ toBe 4 0 ++ toBe 4 100⟩

/-- A `moof` whose only `traf` has this `trun` and no `tfhd`. -/
def moofWithoutTfhd : Mp4Atom := ⟨.moof, (Mp4Atom.mk .traf trunAtHundred.pack).pack⟩

/-- `offsetsFollow_iff` on a `moof` processed before any `moov`. -/
theorem offsetsFollow_iff_moofWithoutTfhd :
    ∃ moof' s', (moof'.Fits → trunsOf moof' = (trunsOf moofWithoutTfhd).map (modifyTrun s')) ∧
      (OffsetsFollow s' moofWithoutTfhd moof' ↔ ShiftIsExact (new ∅) moofWithoutTfhd) := by
  have hsome : (processMoof (new ∅) moofWithoutTfhd).isSome := by decide +kernel
  obtain ⟨⟨moof', s'⟩, h⟩ := Option.isSome_iff_exists.mp hsome
  exact ⟨moof', s', offsetsFollow_iff _ _ _ _ h⟩

/-- After that `moov` the `tfhd` that is synthesised makes the box 16 bytes longer, and no offset
moves. -/
theorem synthesizedTfhd_not_offsetsFollow :
    ¬ ∀ (keyMap : KeyMap) (moov moov' moof moof' : Mp4Atom) (s s' : Mp4Decrypter),
      processMoov (new keyMap) moov = some (moov', s) → processMoof s moof = some (moof', s') →
      OffsetsFollow s' moof moof' := by
  intro h
  have hrun : ((processMoov (new ∅) moovOfTrackOne).bind fun r =>
      (processMoof r.2 moofWithoutTfhd).bind fun r' =>
        some (trunDataOffset (modifyTrun r'.2 trunAtHundred).data, r'.1.packedLen))
      = some (100, moofWithoutTfhd.packedLen + 16) := by
    decide +kernel
  simp only [Option.bind_eq_some_iff, Option.some.injEq, Prod.mk.injEq, Prod.exists] at hrun
  obtain ⟨moov', s, hmoov, moof', s', hmoof, hoff, hlen⟩ := hrun
  have hmoves := h ∅ moovOfTrackOne moov' moofWithoutTfhd moof' s s' hmoov hmoof trunAtHundred
    (by decide +kernel) (by decide +kernel)
  have h100 : trunDataOffset trunAtHundred.data = 100 := by decide +kernel
  omega

end Mp4Decrypter
end MediaFlow
