import MediaFlow.Drm.Mp4Decrypter

/-!
# What processing a fragment does

The loop of `process_traf` never aborts and changes two fields of the decrypter; `trafChild_eq`
says once what it emits and keeps for each kind of child. A `moof` that can be read is a list of
`MoofPart`s, its `traf`s with their children and its other boxes, and the results about whole
fragments are stated over it:

* `processTraf_eq`: the boxes a `traf` is re-emitted as, and the decrypter it leaves;
* `processMoof_eq`: the same for a `moof`;
* `SameSetup`: what a `moof` leaves alone, which is everything a `moov` has set.
-/

open ByteString Emit

namespace MediaFlow
namespace Mp4Decrypter

/-! ### One child of a traf -/

/-- The decrypter after one child of a `traf`. -/
def afterTrafChild (s : Mp4Decrypter) (child : Mp4Atom) : Mp4Decrypter :=
  if child.atomType = .tfhd then parseTfhd s child
  else if child.atomType = .trun then (processTrun s child).2
  else s

/-- The local variables of `process_traf` after one child. -/
def TrafLocals.next (s : Mp4Decrypter) (l : TrafLocals) (child : Mp4Atom) : TrafLocals :=
  if child.atomType = .tfhd then
    { l with
      hasTfhd := true
      trackDefaultSampleSize := (parseTfhd s child).defaultSampleSize
      tfhdTrackId := if 8 ≤ child.data.length then beAt child.data 4 4 else l.tfhdTrackId }
  else if child.atomType = .trun then
    { l with
      sampleCount := (processTrun s child).1.1
      trunDataOffset := (processTrun s child).1.2 }
  else if child.atomType = .senc then { l with sampleInfo := parseSenc s child }
  else l

/-- The boxes one child of a `traf` is re-emitted as: encryption boxes are stripped, `trun`
offsets shifted. -/
def reemitted (s : Mp4Decrypter) (child : Mp4Atom) : List Mp4Atom :=
  if isEncryptionBox child.atomType then []
  else if child.atomType = .trun then [modifyTrun s child]
  else [child]

/-- The decrypter with the two fields that `process_traf` overwrites while it reads. -/
def withReads (s : Mp4Decrypter) (defaultSize : ℕ) (sizes : List ℕ) : Mp4Decrypter :=
  { s with defaultSampleSize := defaultSize, trunSampleSizes := sizes }

@[simp] theorem withReads_withReads (s : Mp4Decrypter) (d d' : ℕ) (z z' : List ℕ) :
    (s.withReads d z).withReads d' z' = s.withReads d' z' := rfl

/-- Reading a `trun` overwrites the sample sizes. -/
theorem processTrun_eq (s : Mp4Decrypter) (t : Mp4Atom) :
    ∃ sizes, (processTrun s t).2 = s.withReads s.defaultSampleSize sizes := by
  unfold processTrun
  split
  · exact ⟨s.trunSampleSizes, rfl⟩
  · exact ⟨trunSizes t.data, rfl⟩

/-- Reading a child of a `traf` overwrites the default size and the sizes, nothing else. -/
theorem afterTrafChild_eq (s : Mp4Decrypter) (child : Mp4Atom) :
    ∃ size sizes, afterTrafChild s child = s.withReads size sizes := by
  unfold afterTrafChild
  split
  · exact ⟨(parseTfhd s child).defaultSampleSize, s.trunSampleSizes, rfl⟩
  · split
    · obtain ⟨sizes, h⟩ := processTrun_eq s child
      exact ⟨s.defaultSampleSize, sizes, h⟩
    · exact ⟨s.defaultSampleSize, s.trunSampleSizes, rfl⟩

/-- **One child of a `traf`.** The step of the loop, whatever the child. -/
theorem trafChild_eq (s : Mp4Decrypter) (l : TrafLocals) (child : Mp4Atom) :
    trafChild (s, l) child = some ((reemitted s child).flatMap Mp4Atom.pack,
      afterTrafChild s child, l.next s child) := by
  unfold trafChild reemitted afterTrafChild TrafLocals.next
  by_cases h₁ : child.atomType = .tfhd
  · have hne : child.atomType ≠ .trun := by rw [h₁]; decide
    have henc : ¬ isEncryptionBox child.atomType = true := by rw [h₁]; decide
    rw [if_neg henc, if_neg hne]
    simp only [if_pos h₁, List.flatMap_cons, List.flatMap_nil, List.append_nil]
  by_cases h₂ : child.atomType = .trun
  · have henc : ¬ isEncryptionBox child.atomType = true := by rw [h₂]; decide
    have hmod : modifyTrun (processTrun s child).2 child = modifyTrun s child := by
      obtain ⟨sizes, h⟩ := processTrun_eq s child
      rw [h]
      rfl
    rw [if_neg henc]
    simp only [if_neg h₁, if_pos h₂, List.flatMap_cons, List.flatMap_nil, List.append_nil]
    rw [← hmod]
  by_cases h₃ : child.atomType = .senc
  · have henc : isEncryptionBox child.atomType = true := by rw [h₃]; decide
    rw [if_pos henc]
    simp only [if_neg h₁, if_neg h₂, if_pos h₃, List.flatMap_nil]
  by_cases h₄ : child.atomType = .saiz ∨ child.atomType = .saio
  · have henc : isEncryptionBox child.atomType = true := by
      unfold isEncryptionBox
      simpa [h₃] using h₄
    rw [if_pos henc]
    simp only [if_neg h₁, if_neg h₂, if_neg h₃, if_pos h₄, List.flatMap_nil]
  · have henc : ¬ isEncryptionBox child.atomType = true := by
      unfold isEncryptionBox
      simpa [h₃] using h₄
    rw [if_neg henc]
    simp only [if_neg h₁, if_neg h₂, if_neg h₃, if_neg h₄, List.flatMap_cons, List.flatMap_nil,
      List.append_nil]

/-! ### One traf -/

/-- The decrypter and the local variables after all children of a `traf`. -/
def readTraf (s : Mp4Decrypter) (l : TrafLocals) : List Mp4Atom → Mp4Decrypter × TrafLocals
  | [] => (s, l)
  | child :: rest => readTraf (afterTrafChild s child) (l.next s child) rest

theorem readTraf_eq (s : Mp4Decrypter) (l : TrafLocals) (children : List Mp4Atom) :
    ∃ size sizes, (readTraf s l children).1 = s.withReads size sizes := by
  induction children generalizing s l with
  | nil => exact ⟨s.defaultSampleSize, s.trunSampleSizes, rfl⟩
  | cons child rest ih =>
    obtain ⟨d, z, hstep⟩ := afterTrafChild_eq s child
    obtain ⟨d', z', hrest⟩ := ih (afterTrafChild s child) (l.next s child)
    refine ⟨d', z', ?_⟩
    rw [readTraf, hrest, hstep, withReads_withReads]

theorem emitAll_trafChild (s : Mp4Decrypter) (l : TrafLocals) (children : List Mp4Atom) :
    emitAll trafChild (s, l) children
      = some ((children.flatMap (reemitted s)).flatMap Mp4Atom.pack, readTraf s l children) := by
  induction children generalizing s l with
  | nil => rfl
  | cons child rest ih =>
    have hsame : rest.flatMap (reemitted (afterTrafChild s child)) = rest.flatMap (reemitted s) := by
      obtain ⟨d, z, hstep⟩ := afterTrafChild_eq s child
      rw [hstep]
      rfl
    rw [emitAll, trafChild_eq]
    simp only [Option.bind_eq_bind, Option.bind_some, ih, Option.pure_def, hsame,
      List.flatMap_cons, List.flatMap_append]
    rfl

/-- Does a `traf` with these children carry a `tfhd`? -/
def hasTfhd (children : List Mp4Atom) : Bool := children.any fun c => c.atomType = .tfhd

theorem readTraf_hasTfhd (s : Mp4Decrypter) (l : TrafLocals) (children : List Mp4Atom) :
    (readTraf s l children).2.hasTfhd = (l.hasTfhd || hasTfhd children) := by
  unfold hasTfhd
  induction children generalizing s l with
  | nil => simp [readTraf]
  | cons child rest ih =>
    rw [readTraf, ih, List.any_cons]
    unfold TrafLocals.next
    by_cases h₁ : child.atomType = .tfhd
    · simp [h₁]
    · simp only [h₁, if_false, decide_false, Bool.false_or]
      split
      · rfl
      · split <;> rfl

/-- The boxes a `traf` with these children is re-emitted as. -/
def trafBoxes (s : Mp4Decrypter) (children : List Mp4Atom) : List Mp4Atom :=
  (if hasTfhd children = false ∧ s.currentTrackId > 0 then [synthesizedTfhd s.currentTrackId]
    else [])
  ++ children.flatMap (reemitted s)

/-- The record that `process_traf` makes of a `traf` with these children. -/
def trafRecord (s : Mp4Decrypter) (children : List Mp4Atom) : TrackInfo :=
  trackInfoOf (readTraf s {} children).1 (readTraf s {} children).2

/-- The decrypter after a `traf` with these children. -/
def afterTraf (s : Mp4Decrypter) (children : List Mp4Atom) : Mp4Decrypter :=
  { (readTraf s {} children).1 with
    trackInfos := s.trackInfos ++ [trafRecord s children]
    currentSampleInfo := (readTraf s {} children).2.sampleInfo }

/-- **One `traf`.** It is processed exactly when its children can be read. -/
theorem processTraf_eq (s : Mp4Decrypter) (traf : Mp4Atom) :
    processTraf s traf = (childrenOf traf.data).map fun children =>
      (⟨.traf, (trafBoxes s children).flatMap Mp4Atom.pack⟩, afterTraf s children) := by
  unfold processTraf
  cases h : childrenOf traf.data with
  | none => rfl
  | some children =>
    obtain ⟨d, z, hread⟩ := readTraf_eq s {} children
    have htrack : (readTraf s {} children).1.trackInfos = s.trackInfos := by rw [hread]; rfl
    have hid : (readTraf s {} children).1.currentTrackId = s.currentTrackId := by rw [hread]; rfl
    have htfhd := readTraf_hasTfhd s {} children
    simp only [Option.bind_eq_bind, Option.bind_some, emitAll_trafChild, Option.pure_def,
      Option.map_some, Option.some.injEq, Prod.mk.injEq, Mp4Atom.mk.injEq, true_and]
    refine ⟨?_, by rw [afterTraf, ← htrack]; rfl⟩
    simp only [trafBoxes, hid, htfhd, Bool.false_or]
    by_cases hc : hasTfhd children = true
    · simp [hc]
    · by_cases hpos : s.currentTrackId > 0 <;> simp [hc, hpos]

/-! ### What stays -/

/-- What the `traf`s of a `moof` leave alone: everything a `moov` sets. -/
structure SameSetup (s s' : Mp4Decrypter) : Prop where
  keyMap : s'.keyMap = s.keyMap
  encryptionScheme : s'.encryptionScheme = s.encryptionScheme
  defaultIvSize : s'.defaultIvSize = s.defaultIvSize
  cryptByteBlock : s'.cryptByteBlock = s.cryptByteBlock
  skipByteBlock : s'.skipByteBlock = s.skipByteBlock
  constantIv : s'.constantIv = s.constantIv
  trackEncryptionSettings : s'.trackEncryptionSettings = s.trackEncryptionSettings
  extractedKids : s'.extractedKids = s.extractedKids
  currentTrackId : s'.currentTrackId = s.currentTrackId

theorem SameSetup.refl (s : Mp4Decrypter) : SameSetup s s :=
  ⟨rfl, rfl, rfl, rfl, rfl, rfl, rfl, rfl, rfl⟩

theorem SameSetup.trans {s s' s'' : Mp4Decrypter} (h : SameSetup s s') (h' : SameSetup s' s'') :
    SameSetup s s'' :=
  ⟨h'.keyMap.trans h.keyMap, h'.encryptionScheme.trans h.encryptionScheme,
    h'.defaultIvSize.trans h.defaultIvSize, h'.cryptByteBlock.trans h.cryptByteBlock,
    h'.skipByteBlock.trans h.skipByteBlock, h'.constantIv.trans h.constantIv,
    h'.trackEncryptionSettings.trans h.trackEncryptionSettings,
    h'.extractedKids.trans h.extractedKids, h'.currentTrackId.trans h.currentTrackId⟩

theorem afterTraf_sameSetup (s : Mp4Decrypter) (children : List Mp4Atom) :
    SameSetup s (afterTraf s children) := by
  obtain ⟨d, z, hread⟩ := readTraf_eq s {} children
  unfold afterTraf
  rw [hread]
  exact ⟨rfl, rfl, rfl, rfl, rfl, rfl, rfl, rfl, rfl⟩

theorem afterTraf_overhead (s : Mp4Decrypter) (children : List Mp4Atom) :
    (afterTraf s children).totalEncryptionOverhead = s.totalEncryptionOverhead := by
  obtain ⟨d, z, hread⟩ := readTraf_eq s {} children
  unfold afterTraf
  rw [hread]
  rfl

/-- What is emitted for a `traf` depends on the overhead and on the current track only. -/
theorem trafBoxes_congr {s s' : Mp4Decrypter} (hid : s'.currentTrackId = s.currentTrackId)
    (hov : s'.totalEncryptionOverhead = s.totalEncryptionOverhead) (children : List Mp4Atom) :
    trafBoxes s' children = trafBoxes s children := by
  have hre : reemitted s' = reemitted s := by
    funext c
    simp only [reemitted, modifyTrun, hov]
  rw [trafBoxes, trafBoxes, hid, hre]

/-! ### One moof -/

/-- A child of a `moof`: a `traf` with its own children, or another box. -/
inductive MoofPart where
  | traf (box : Mp4Atom) (children : List Mp4Atom)
  | other (box : Mp4Atom)
deriving DecidableEq

namespace MoofPart

/-- The children of the `traf`s among the parts of a `moof`. -/
def trafs : List MoofPart → List (List Mp4Atom)
  | [] => []
  | .traf _ children :: rest => children :: trafs rest
  | .other _ :: rest => trafs rest

/-- The packed size of all boxes that are stripped. -/
def overhead (parts : List MoofPart) : ℕ := ((trafs parts).map trafOverhead).sum

/-- The box a part is re-emitted as. -/
def reboxed (s : Mp4Decrypter) : MoofPart → Mp4Atom
  | .traf _ children => ⟨.traf, (trafBoxes s children).flatMap Mp4Atom.pack⟩
  | .other box => box

end MoofPart

def readPart (child : Mp4Atom) : Option MoofPart :=
  if child.atomType = .traf then (childrenOf child.data).map (.traf child)
  else some (.other child)

def readParts : List Mp4Atom → Option (List MoofPart)
  | [] => some []
  | child :: rest => do return (← readPart child) :: (← readParts rest)

/-- A `moof` as its parts; `none` when one of the readers aborts. -/
def readMoof (moof : Mp4Atom) : Option (List MoofPart) := do
  readParts (← childrenOf moof.data)

/-- The decrypter after the `traf`s of a `moof`. -/
def afterTrafs (s : Mp4Decrypter) : List (List Mp4Atom) → Mp4Decrypter
  | [] => s
  | children :: rest => afterTrafs (afterTraf s children) rest

theorem afterTrafs_sameSetup (s : Mp4Decrypter) (trafs : List (List Mp4Atom)) :
    SameSetup s (afterTrafs s trafs) := by
  induction trafs generalizing s with
  | nil => exact SameSetup.refl s
  | cons children rest ih => exact (afterTraf_sameSetup s children).trans (ih _)

theorem afterTrafs_overhead (s : Mp4Decrypter) (trafs : List (List Mp4Atom)) :
    (afterTrafs s trafs).totalEncryptionOverhead = s.totalEncryptionOverhead := by
  induction trafs generalizing s with
  | nil => rfl
  | cons children rest ih => rw [afterTrafs, ih, afterTraf_overhead]

/-- The first pass finds the overhead of the parts. -/
theorem encryptionOverhead_eq (children : List Mp4Atom) :
    encryptionOverhead children = (readParts children).map MoofPart.overhead := by
  induction children with
  | nil => rfl
  | cons child rest ih =>
    rw [encryptionOverhead, readParts, readPart]
    split
    · cases h : childrenOf child.data with
      | none => rfl
      | some kids =>
        cases hrest : readParts rest <;> simp [ih, hrest, MoofPart.overhead, MoofPart.trafs]
    · cases hrest : readParts rest <;> simp [ih, hrest, MoofPart.overhead, MoofPart.trafs]

/-- The loop of `process_moof`, part by part. -/
theorem emitAll_processTraf (s : Mp4Decrypter) (children : List Mp4Atom) :
    emitAll (rewriting .traf processTraf) s children
      = (readParts children).map fun parts =>
        ((parts.map (MoofPart.reboxed s)).flatMap Mp4Atom.pack,
          afterTrafs s (MoofPart.trafs parts)) := by
  induction children generalizing s with
  | nil => rfl
  | cons child rest ih =>
    rw [emitAll, readParts, readPart, rewriting]
    split
    · rw [processTraf_eq]
      cases h : childrenOf child.data with
      | none => rfl
      | some kids =>
        have hboxes : MoofPart.reboxed (afterTraf s kids) = MoofPart.reboxed s := by
          funext p
          cases p with
          | other box => rfl
          | traf box k =>
            rw [MoofPart.reboxed, MoofPart.reboxed, trafBoxes_congr
              (afterTraf_sameSetup s kids).currentTrackId (afterTraf_overhead s kids)]
        cases hrest : readParts rest <;>
          simp [ih, hrest, hboxes, MoofPart.trafs, MoofPart.reboxed, afterTrafs]
    · cases hrest : readParts rest <;>
        simp [ih, hrest, MoofPart.trafs, MoofPart.reboxed]

/-- The decrypter with which the `traf`s of a `moof` are processed. -/
def enterMoof (s : Mp4Decrypter) (parts : List MoofPart) : Mp4Decrypter :=
  { s with trackInfos := [], totalEncryptionOverhead := MoofPart.overhead parts }

/-- **One `moof`.** It is processed exactly when it and its `traf`s can be read. -/
theorem processMoof_eq (s : Mp4Decrypter) (moof : Mp4Atom) :
    processMoof s moof = (readMoof moof).map fun parts =>
      (⟨.moof, (parts.map (MoofPart.reboxed (enterMoof s parts))).flatMap Mp4Atom.pack⟩,
        afterTrafs (enterMoof s parts) (MoofPart.trafs parts)) := by
  unfold processMoof readMoof
  cases h : childrenOf moof.data with
  | none => rfl
  | some children =>
    simp only [Option.bind_eq_bind, Option.bind_some, encryptionOverhead_eq, emitAll_processTraf]
    cases hparts : readParts children with
    | none => rfl
    | some parts => rfl

/-- The parts of a `moof`; empty when it cannot be read. -/
def partsOf (moof : Mp4Atom) : List MoofPart := (readMoof moof).getD []

theorem processMoof_eq_some {s s' : Mp4Decrypter} {moof moof' : Mp4Atom}
    (h : processMoof s moof = some (moof', s')) :
    readMoof moof = some (partsOf moof) ∧
      moof' = ⟨.moof, ((partsOf moof).map
        (MoofPart.reboxed (enterMoof s (partsOf moof)))).flatMap Mp4Atom.pack⟩ ∧
      s' = afterTrafs (enterMoof s (partsOf moof)) (MoofPart.trafs (partsOf moof)) := by
  rw [processMoof_eq, Option.map_eq_some_iff] at h
  obtain ⟨parts, hparts, hout⟩ := h
  rw [Prod.mk.injEq] at hout
  have hp : partsOf moof = parts := by rw [partsOf, hparts, Option.getD_some]
  rw [hp]
  exact ⟨hparts, hout.1.symm, hout.2.symm⟩

end Mp4Decrypter
end MediaFlow
