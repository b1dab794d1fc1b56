import MediaFlow.Drm.MoofOffsets
import MediaFlow.Drm.Streaming

/-!
# The buffered and the streaming path

`decryptSegment` processes the first `moov`, `moof` and `mdat` it finds and emits the result for
every box of that type; `decryptSegmentStreaming` processes box after box. On one fragment that is
the same.

* `decryptSegment_eq`: the buffered path over an init segment and the boxes of a media segment;
* `decryptFragment_eq_handleAll`: on one fragment it does what the handler of the stream does, box
  after box;
* `pathsAgree_of_oneFragment`: so both paths end the same way.
-/

open ByteString Emit Text

namespace MediaFlow

/-! ### Outcomes -/

/-- How a call ends for the client: the process aborts, an error is reported, or bytes arrive. -/
inductive Outcome where
  | aborted
  | failed
  | bytes (b : Bytes)
deriving DecidableEq

def batchOutcome : Option (Except Str Bytes) → Outcome
  | none => .aborted
  | some (.error _) => .failed
  | some (.ok b) => .bytes b

/-- The outcome of a stream: its chunks concatenated. -/
def streamOutcome (y : Yielded) : Outcome :=
  if y.aborted then .aborted
  else if y.items.all fun item => item.isOk then .bytes y.bytes
  else .failed

/-- An init segment of one `ftyp` and one `moov` box. -/
structure InitSegment where
  ftyp : Bytes
  ftypForm : HeaderForm
  moov : Bytes
  moovForm : HeaderForm
  moovFirst : Bool
  ftyp_fits : (Mp4Atom.mk .ftyp ftyp).FitsForm ftypForm
  moov_fits : (Mp4Atom.mk .moov moov).FitsForm moovForm

namespace InitSegment

variable (init : InitSegment)

def boxes : List (Mp4Atom × HeaderForm) :=
  if init.moovFirst then [(⟨.moov, init.moov⟩, init.moovForm), (⟨.ftyp, init.ftyp⟩, init.ftypForm)]
  else [(⟨.ftyp, init.ftyp⟩, init.ftypForm), (⟨.moov, init.moov⟩, init.moovForm)]

def bytes : Bytes := init.boxes.flatMap fun p => p.1.encode p.2

theorem boxes_fit : ∀ p ∈ init.boxes, p.1.FitsForm p.2 := by
  intro p hp
  have h₁ := init.ftyp_fits
  have h₂ := init.moov_fits
  unfold boxes at hp
  split at hp <;> simp only [List.mem_cons, List.not_mem_nil, or_false] at hp <;>
    rcases hp with rfl | rfl <;> assumption

/-- An init segment is read back, with the boxes of a media segment after it. -/
theorem listAtoms_append {boxes : List Mp4Atom} (hfits : ∀ a ∈ boxes, a.Fits)
    (hlen : (init.bytes ++ boxes.flatMap Mp4Atom.pack).length < 2 ^ 63) :
    listAtoms (init.bytes ++ boxes.flatMap Mp4Atom.pack)
      = some (init.boxes.map Prod.fst ++ boxes) := by
  have hmap : init.bytes ++ boxes.flatMap Mp4Atom.pack
      = (init.boxes ++ boxes.map fun a => (a, HeaderForm.short)).flatMap
          fun p => p.1.encode p.2 := by
    rw [List.flatMap_append, List.flatMap_map]
    rfl
  have hfst : (boxes.map fun a => (a, HeaderForm.short)).map Prod.fst = boxes := by
    rw [List.map_map]
    exact List.map_id boxes
  have hall : ∀ p ∈ init.boxes ++ boxes.map fun a => (a, HeaderForm.short),
      p.1.FitsForm p.2 := by
    intro p hp
    rcases List.mem_append.mp hp with hp | hp
    · exact init.boxes_fit p hp
    · obtain ⟨a, ha, rfl⟩ := List.mem_map.mp hp
      exact hfits a ha
  rw [hmap] at hlen ⊢
  rw [listAtoms_encode _ hall hlen, List.map_append, hfst]

end InitSegment

/-- Types that a media segment may have at its top level: not those of an init segment, and no
`sidx`, which only the stream drops. -/
def MediaType (t : FourCC) : Prop := t ≠ .ftyp ∧ t ≠ .moov ∧ t ≠ .sidx

instance (t : FourCC) : Decidable (MediaType t) := inferInstanceAs (Decidable (_ ∧ _))

/-- At most one `moof`, at most one `mdat`, and no `mdat` before the `moof`. -/
def OneFragment (types : List FourCC) : Prop :=
  ¬ List.Sublist [.moof, .moof] types ∧ ¬ List.Sublist [.mdat, .mdat] types ∧
    ¬ List.Sublist [.mdat, .moof] types

instance (types : List FourCC) : Decidable (OneFragment types) := inferInstanceAs (Decidable (_ ∧ _))

theorem OneFragment.tail {t : FourCC} {types : List FourCC} (h : OneFragment (t :: types)) :
    OneFragment types :=
  ⟨fun hs => h.1 (hs.cons _), fun hs => h.2.1 (hs.cons _), fun hs => h.2.2 (hs.cons _)⟩

namespace Mp4Decrypter

variable (aes : BlockCipher)

/-! ### The buffered path -/

/-- Process the first box of type `tag`, if there is one. -/
def onFirst (process : Mp4Decrypter → Mp4Atom → Option (Mp4Atom × Mp4Decrypter)) (tag : FourCC)
    (s : Mp4Decrypter) (boxes : List Mp4Atom) : Option (Option Mp4Atom × Mp4Decrypter) :=
  match boxes.find? (fun a => a.atomType = tag) with
  | none => some (none, s)
  | some a => (process s a).map fun p => (some p.1, p.2)

/-- What a box of a media segment is re-emitted as. -/
def reemit (moof mdat : Option Mp4Atom) (a : Mp4Atom) : Mp4Atom :=
  if a.atomType = .moof then moof.getD a else if a.atomType = .mdat then mdat.getD a else a

/-- The buffered path over the boxes of a media segment: the first `moof`, then the first `mdat`,
each re-emitted for all boxes of its type. -/
def decryptFragment (s : Mp4Decrypter) (boxes : List Mp4Atom) : Option Bytes := do
  let (moof, s) ← onFirst (processAtom aes) .moof s boxes
  let (mdat, _) ← onFirst (processAtom aes) .mdat s boxes
  return boxes.flatMap fun a => (reemit moof mdat a).pack

/-- A table of processed boxes with one more entry. -/
def record (processed : FourCC → Option Mp4Atom) (tag : FourCC) (result : Option Mp4Atom) :
    FourCC → Option Mp4Atom :=
  fun t => if t = tag then result.or (processed t) else processed t

theorem processFirst_eq (atoms : List Mp4Atom) (s : Mp4Decrypter)
    (processed : FourCC → Option Mp4Atom) (tag : FourCC) :
    processFirst aes atoms (s, processed) tag
      = (onFirst (processAtom aes) tag s atoms).map fun p => (p.2, record processed tag p.1) := by
  unfold processFirst onFirst
  cases hfind : atoms.find? fun a => a.atomType = tag with
  | none =>
    have hrec : record processed tag none = processed := by
      funext t
      simp [record]
    simp [hrec]
  | some a =>
    cases hp : processAtom aes s a with
    | none => simp [hp]
    | some p =>
      have hrec : record processed tag (some p.1) = Function.update processed tag (some p.1) := by
        funext t
        simp [record, Function.update_apply]
      simp [hp, hrec]

theorem find?_mediaType {boxes : List Mp4Atom} (hty : ∀ a ∈ boxes, MediaType a.atomType)
    {tag : FourCC} (htag : ¬ MediaType tag) : boxes.find? (fun a => a.atomType = tag) = none := by
  rw [List.find?_eq_none]
  intro a ha
  have hne : a.atomType ≠ tag := fun h => htag (h ▸ hty a ha)
  simpa using hne

section AfterInit

variable (init : InitSegment) (boxes : List Mp4Atom)

/-- The boxes of an init segment are its `ftyp` and its `moov`, in either order. -/
theorem initBoxes_eq :
    init.boxes.map Prod.fst = [⟨.ftyp, init.ftyp⟩, ⟨.moov, init.moov⟩] ∨
      init.boxes.map Prod.fst = [⟨.moov, init.moov⟩, ⟨.ftyp, init.ftyp⟩] := by
  unfold InitSegment.boxes
  split
  · exact .inr rfl
  · exact .inl rfl

/-- The `moov` is that of the init segment. -/
theorem onFirst_moov (s : Mp4Decrypter) :
    onFirst (processAtom aes) .moov s (init.boxes.map Prod.fst ++ boxes)
      = (processMoov s ⟨.moov, init.moov⟩).map fun p => (some p.1, p.2) := by
  have hmoov : (init.boxes.map Prod.fst ++ boxes).find? (fun a => a.atomType = .moov)
      = some ⟨.moov, init.moov⟩ := by
    rcases initBoxes_eq init with h | h <;> rw [h] <;> rfl
  rw [onFirst, hmoov]
  rfl

/-- The other boxes are those of the segment. -/
theorem onFirst_other (s : Mp4Decrypter) {tag : FourCC} (h₁ : tag ≠ .ftyp) (h₂ : tag ≠ .moov) :
    onFirst (processAtom aes) tag s (init.boxes.map Prod.fst ++ boxes)
      = onFirst (processAtom aes) tag s boxes := by
  have hother : (init.boxes.map Prod.fst ++ boxes).find? (fun a => a.atomType = tag)
      = boxes.find? (fun a => a.atomType = tag) := by
    rcases initBoxes_eq init with h | h <;> rw [h] <;> simp [h₁.symm, h₂.symm]
  rw [onFirst, hother, onFirst]

variable {boxes}

/-- Without the init segment, the boxes of the segment are left. -/
theorem filter_notInit (hty : ∀ a ∈ boxes, MediaType a.atomType) :
    ((init.boxes.map Prod.fst ++ boxes).filter fun a => decide (false = true ∨
      ¬ (a.atomType = FourCC.ftyp ∨ a.atomType = FourCC.moov))) = boxes := by
  have hboxes : (boxes.filter fun a => decide (false = true ∨
      ¬ (a.atomType = FourCC.ftyp ∨ a.atomType = FourCC.moov))) = boxes := by
    rw [List.filter_eq_self]
    intro a ha
    simpa using ⟨(hty a ha).1, (hty a ha).2.1⟩
  rw [List.filter_append, hboxes]
  rcases initBoxes_eq init with h | h <;> rw [h] <;> rfl

end AfterInit

/-- **The buffered path**: the `moov` of the init segment, then the boxes of the segment. -/
theorem decryptSegment_eq (s : Mp4Decrypter) (init : InitSegment) {boxes : List Mp4Atom}
    (hty : ∀ a ∈ boxes, MediaType a.atomType) (hfits : ∀ a ∈ boxes, a.Fits)
    (hlen : (init.bytes ++ boxes.flatMap Mp4Atom.pack).length < 2 ^ 63) :
    s.decryptSegment aes (init.bytes ++ boxes.flatMap Mp4Atom.pack) false
      = (processMoov s ⟨.moov, init.moov⟩).bind fun p => decryptFragment aes p.2 boxes := by
  have hsidx : ∀ s, onFirst (processAtom aes) .sidx s boxes = some (none, s) := by
    intro s
    rw [onFirst, find?_mediaType hty fun h => h.2.2 rfl]
  have hstep : ∀ tag s pm, tag ≠ .ftyp → tag ≠ .moov →
      processFirst aes (init.boxes.map Prod.fst ++ boxes) (s, pm) tag
        = (onFirst (processAtom aes) tag s boxes).map fun p => (p.2, record pm tag p.1) := by
    intro tag s pm h₁ h₂
    rw [processFirst_eq, onFirst_other aes init boxes s h₁ h₂]
  unfold decryptSegment decryptFragment
  rw [init.listAtoms_append hfits hlen]
  simp only [Option.bind_eq_bind, Option.bind_some, List.foldlM_cons, List.foldlM_nil,
    processFirst_eq aes _ s, onFirst_moov aes init boxes s, Option.pure_def,
    filter_notInit init hty]
  cases processMoov s ⟨.moov, init.moov⟩ with
  | none => rfl
  | some p =>
    simp only [Option.map_some, Option.bind_some, hstep .moof _ _ (by decide) (by decide)]
    cases onFirst (processAtom aes) .moof p.2 boxes with
    | none => rfl
    | some q =>
      simp only [Option.map_some, Option.bind_some, hstep .sidx _ _ (by decide) (by decide),
        hsidx, hstep .mdat _ _ (by decide) (by decide)]
      cases onFirst (processAtom aes) .mdat q.2 boxes with
      | none => rfl
      | some r =>
        simp only [Option.map_some, Option.bind_some, Option.some.injEq]
        refine List.flatMap_congr fun a ha => ?_
        obtain ⟨-, hnm, hns⟩ := hty a ha
        simp only [record, reemit, if_neg hnm, if_neg hns, Option.or_none]
        by_cases h₁ : a.atomType = .moof
        · have hne : ¬ a.atomType = .mdat := by rw [h₁]; decide
          simp only [if_neg hne, if_pos h₁]
        · by_cases h₂ : a.atomType = .mdat
          · simp only [if_pos h₂, if_neg h₁, Option.or_none]
          · simp only [if_neg h₂, if_neg h₁, Option.getD_none]

/-! ### One fragment -/

section OnFirst

variable {process : Mp4Decrypter → Mp4Atom → Option (Mp4Atom × Mp4Decrypter)} {tag : FourCC}

theorem onFirst_cons_of_eq (s : Mp4Decrypter) {a : Mp4Atom} (rest : List Mp4Atom)
    (h : a.atomType = tag) :
    onFirst process tag s (a :: rest) = (process s a).map fun p => (some p.1, p.2) := by
  rw [onFirst, List.find?_cons_of_pos (by simpa using h)]

theorem onFirst_cons_of_ne (s : Mp4Decrypter) {a : Mp4Atom} (rest : List Mp4Atom)
    (h : a.atomType ≠ tag) :
    onFirst process tag s (a :: rest) = onFirst process tag s rest := by
  rw [onFirst, List.find?_cons_of_neg (by simpa using h), onFirst]

theorem onFirst_of_forall_ne (s : Mp4Decrypter) {boxes : List Mp4Atom}
    (h : ∀ a ∈ boxes, a.atomType ≠ tag) : onFirst process tag s boxes = some (none, s) := by
  have hnone : boxes.find? (fun a => a.atomType = tag) = none := by
    rw [List.find?_eq_none]
    intro a ha
    simpa using h a ha
  rw [onFirst, hnone]

end OnFirst

/-- No box of type `u` follows one of type `t` when the pair is forbidden. -/
theorem forall_ne_of_not_sublist {t u : FourCC} {a : Mp4Atom} {rest : List Mp4Atom}
    (ha : a.atomType = t) (h : ¬ List.Sublist [t, u] ((a :: rest).map Mp4Atom.atomType)) :
    ∀ b ∈ rest, b.atomType ≠ u := by
  rintro b hb rfl
  rw [List.map_cons, ha] at h
  exact h ((List.singleton_sublist.mpr (List.mem_map_of_mem hb)).cons_cons t)

/-- The stream handles a box as the buffered path does. -/
theorem handleBox_eq (s : Mp4Decrypter) {a : Mp4Atom} (ha : MediaType a.atomType) :
    handleBox aes s a = (processAtom aes s a).map fun p => (p.1.pack, p.2) := by
  obtain ⟨-, hnm, hns⟩ := ha
  unfold handleBox emitBox processAtom
  rw [if_neg hns, if_neg hnm]
  by_cases h₁ : a.atomType = .moof
  · rw [if_pos h₁, if_pos h₁]
    cases processMoof s a <;> simp
  · rw [if_neg h₁, if_neg h₁, if_neg hns]
    by_cases h₂ : a.atomType = .mdat
    · rw [if_pos h₂, if_pos h₂]
      cases decryptMdat aes s a <;> simp
    · rw [if_neg h₂, if_neg h₂]
      simp

theorem processAtom_other (s : Mp4Decrypter) {a : Mp4Atom} (ha : MediaType a.atomType)
    (h₁ : a.atomType ≠ .moof) (h₂ : a.atomType ≠ .mdat) : processAtom aes s a = some (a, s) := by
  unfold processAtom
  rw [if_neg ha.2.1, if_neg h₁, if_neg ha.2.2, if_neg h₂]

theorem reemit_moof_of_ne {m m' : Option Mp4Atom} (d : Option Mp4Atom) {a : Mp4Atom}
    (h : a.atomType ≠ .moof) : reemit m d a = reemit m' d a := by
  rw [reemit, reemit, if_neg h, if_neg h]

theorem reemit_mdat_of_ne (m : Option Mp4Atom) {d d' : Option Mp4Atom} {a : Mp4Atom}
    (h : a.atomType ≠ .mdat) : reemit m d a = reemit m d' a := by
  rw [reemit, reemit, if_neg h, if_neg h]

/-- On one fragment the buffered path goes box after box. The first `moof` is the only one, so the
boxes after it need no other; the same for the `mdat`, which no `moof` follows. -/
theorem decryptFragment_cons (s : Mp4Decrypter) {a : Mp4Atom} {rest : List Mp4Atom}
    (ha : MediaType a.atomType) (hone : OneFragment ((a :: rest).map Mp4Atom.atomType)) :
    decryptFragment aes s (a :: rest) = (processAtom aes s a).bind fun p =>
      (decryptFragment aes p.2 rest).map (p.1.pack ++ ·) := by
  unfold decryptFragment
  by_cases h₁ : a.atomType = .moof
  · have hno := forall_ne_of_not_sublist h₁ hone.1
    have hmd : a.atomType ≠ .mdat := by rw [h₁]; decide
    rw [onFirst_cons_of_eq s rest h₁]
    cases processAtom aes s a with
    | none => rfl
    | some p =>
      simp only [Option.map_some, Option.bind_eq_bind, Option.bind_some, Option.pure_def,
        onFirst_cons_of_ne p.2 rest hmd, onFirst_of_forall_ne p.2 hno]
      cases onFirst (processAtom aes) .mdat p.2 rest with
      | none => rfl
      | some d =>
        have hemit : reemit (some p.1) d.1 a = p.1 := by rw [reemit, if_pos h₁, Option.getD_some]
        simp only [Option.bind_some, Option.map_some, List.flatMap_cons, hemit]
        rw [List.flatMap_congr fun b hb => by rw [reemit_moof_of_ne d.1 (hno b hb)]]
  by_cases h₂ : a.atomType = .mdat
  · have hnoMoof := forall_ne_of_not_sublist h₂ hone.2.2
    have hnoMdat := forall_ne_of_not_sublist h₂ hone.2.1
    simp only [onFirst_cons_of_ne s rest h₁, onFirst_of_forall_ne s hnoMoof,
      onFirst_cons_of_eq s rest h₂, Option.bind_eq_bind, Option.bind_some, Option.pure_def]
    cases processAtom aes s a with
    | none => rfl
    | some p =>
      have hemit : reemit none (some p.1) a = p.1 := by
        rw [reemit, if_neg h₁, if_pos h₂, Option.getD_some]
      simp only [Option.map_some, Option.bind_some, onFirst_of_forall_ne p.2 hnoMoof,
        onFirst_of_forall_ne p.2 hnoMdat, List.flatMap_cons, hemit]
      rw [List.flatMap_congr fun b hb => by rw [reemit_mdat_of_ne none (hnoMdat b hb)]]
  · have hemit : ∀ m d, reemit m d a = a := fun m d => by rw [reemit, if_neg h₁, if_neg h₂]
    rw [processAtom_other aes s ha h₁ h₂]
    simp only [onFirst_cons_of_ne s rest h₁, Option.bind_eq_bind, Option.bind_some,
      Option.pure_def]
    cases onFirst (processAtom aes) .moof s rest with
    | none => rfl
    | some m =>
      simp only [Option.bind_some, onFirst_cons_of_ne m.2 rest h₂]
      cases onFirst (processAtom aes) .mdat m.2 rest with
      | none => rfl
      | some d => simp only [Option.bind_some, Option.map_some, List.flatMap_cons, hemit]

/-- **On one fragment the buffered path does what the stream does**, box after box. -/
theorem decryptFragment_eq_handleAll (s : Mp4Decrypter) {boxes : List Mp4Atom}
    (hty : ∀ a ∈ boxes, MediaType a.atomType) (hone : OneFragment (boxes.map Mp4Atom.atomType)) :
    decryptFragment aes s boxes
      = if (handleAll (handleBox aes) s boxes).2 then none
        else some (handleAll (handleBox aes) s boxes).1 := by
  induction boxes generalizing s with
  | nil => rfl
  | cons a rest ih =>
    have ha := hty a List.mem_cons_self
    rw [decryptFragment_cons aes s ha hone, handleAll, handleBox_eq aes s ha]
    cases processAtom aes s a with
    | none => rfl
    | some p =>
      have hrest := ih p.2 (fun b hb => hty b (List.mem_cons_of_mem a hb)) hone.tail
      simp only [Option.bind_some, Option.map_some, hrest]
      split <;> rfl

/-! ### The two outcomes -/

/-- The only `moov` of an init segment primes the decrypter. -/
theorem initFromSegment_eq (s : Mp4Decrypter) (init : InitSegment)
    (hlen : init.bytes.length < 2 ^ 63) :
    s.initFromSegment init.bytes = (processMoov s ⟨.moov, init.moov⟩).map Prod.snd := by
  have hatoms := @InitSegment.listAtoms_append init [] (by simp) (by simpa using hlen)
  rw [List.flatMap_nil, List.append_nil, List.append_nil] at hatoms
  have hne : FourCC.ftyp ≠ .moov := by decide
  rw [initFromSegment, hatoms]
  unfold InitSegment.boxes
  split
  · simp only [List.map_cons, List.map_nil, Option.bind_eq_bind, Option.bind_some,
      List.foldlM_cons, List.foldlM_nil, if_true, if_neg hne]
    cases processMoov s ⟨.moov, init.moov⟩ <;> rfl
  · simp only [List.map_cons, List.map_nil, Option.bind_eq_bind, Option.bind_some,
      List.foldlM_cons, List.foldlM_nil, if_true, if_neg hne]
    cases processMoov s ⟨.moov, init.moov⟩ <;> rfl

end Mp4Decrypter

section Outcomes

variable (aes : BlockCipher)

theorem streamChunks_items_ok (mode : StreamMode) (chunks : List Bytes) :
    (streamChunks aes mode (chunks.map .ok)).items.all (fun item => item.isOk) = true := by
  induction chunks generalizing mode with
  | nil => cases mode <;> rfl
  | cons c cs ih =>
    have hok : ∀ out : List Bytes,
        (out.map Except.ok : List (Except AppError Bytes)).all (fun item => item.isOk) = true := by
      intro out
      rw [List.all_map]
      exact List.all_eq_true.mpr fun _ _ => rfl
    cases mode with
    | aborted => rfl
    | forwarding =>
      show (([c].map Except.ok : List (Except AppError Bytes)) ++ _).all _ = true
      rw [List.all_append, hok, ih]
      rfl
    | running st =>
      rw [List.map_cons, streamChunks_running_cons, List.all_append, hok, ih]
      rfl

/-- A stream over the boxes of a segment yields what the handler makes of them. -/
theorem streamChunks_boxes (s : Mp4Decrypter) {boxes : List Mp4Atom} {chunks : List Bytes}
    (hfits : ∀ a ∈ boxes, a.Fits) (hchunks : chunks.flatten = boxes.flatMap Mp4Atom.pack) :
    streamOutcome (streamChunks aes (.running (.start s)) (chunks.map .ok))
      = if (handleAll (handleBox aes) s boxes).2 then .aborted
        else .bytes (handleAll (handleBox aes) s boxes).1 := by
  have hrun := @streamChunks_start aes s chunks
  have hframes : StreamDelivers aes s (boxes.flatMap Mp4Atom.pack)
      (handleAll (handleBox aes) s boxes).1 (handleAll (handleBox aes) s boxes).2 :=
    Delivers.of_frames rfl (fun a ha rest => boxFrame_pack (hfits a ha) rest) s
  rw [hchunks] at hrun
  obtain ⟨hbytes, haborted⟩ := hrun.deterministic hframes
  rw [streamOutcome, streamChunks_items_ok, haborted, hbytes]
  simp

/-- The outcomes of both paths, given what they make of the boxes of the segment. -/
def segmentOutcome (init : InitSegment) (keyId key : Str)
    (run : Mp4Decrypter → Option Bytes) : Outcome :=
  if (buildKeyMapFromHex keyId key).entries = [] then .failed
  else
    match (Mp4Decrypter.new (buildKeyMapFromHex keyId key)).processMoov ⟨.moov, init.moov⟩ with
    | none => .aborted
    | some p => match run p.2 with
      | none => .aborted
      | some b => .bytes b

variable {boxes : List Mp4Atom} {chunks : List Bytes}

theorem batchOutcome_eq (init : InitSegment) (keyId key : Str)
    (hty : ∀ a ∈ boxes, MediaType a.atomType) (hfits : ∀ a ∈ boxes, a.Fits)
    (hlen : (init.bytes ++ boxes.flatMap Mp4Atom.pack).length < 2 ^ 63) :
    batchOutcome (decryptSegment aes init.bytes (boxes.flatMap Mp4Atom.pack) keyId key false)
      = segmentOutcome init keyId key fun s => s.decryptFragment aes boxes := by
  unfold decryptSegment segmentOutcome
  simp only
  split
  · rfl
  · rw [Mp4Decrypter.decryptSegment_eq aes _ init hty hfits hlen]
    cases (Mp4Decrypter.new (buildKeyMapFromHex keyId key)).processMoov ⟨.moov, init.moov⟩ with
    | none => rfl
    | some p =>
      simp only [Option.bind_some]
      cases p.2.decryptFragment aes boxes <;> rfl

theorem streamOutcome_eq (init : InitSegment) (keyId key : Str)
    (hfits : ∀ a ∈ boxes, a.Fits) (hchunks : chunks.flatten = boxes.flatMap Mp4Atom.pack)
    (hlen : init.bytes.length < 2 ^ 63) :
    streamOutcome (decryptSegmentStreaming aes init.bytes (chunks.map .ok) keyId key false)
      = segmentOutcome init keyId key fun s =>
        if (handleAll (handleBox aes) s boxes).2 then none
        else some (handleAll (handleBox aes) s boxes).1 := by
  unfold decryptSegmentStreaming segmentOutcome
  simp only
  split
  · rfl
  · rw [Mp4Decrypter.initFromSegment_eq _ init hlen]
    cases (Mp4Decrypter.new (buildKeyMapFromHex keyId key)).processMoov ⟨.moov, init.moov⟩ with
    | none => rfl
    | some p =>
      simp only [if_neg Bool.false_ne_true, Option.map_some,
        streamChunks_boxes aes p.2 hfits hchunks]
      cases (handleAll (handleBox aes) p.2 boxes).2 <;> rfl

end Outcomes

/-- The two paths end the same way on every segment whose boxes have these types. -/
def PathsAgree (types : List FourCC) : Prop :=
  ∀ (aes : BlockCipher) (init : InitSegment) (keyId key : Str) (boxes : List Mp4Atom)
    (chunks : List Bytes),
    boxes.map Mp4Atom.atomType = types → (∀ a ∈ boxes, a.Fits) →
    chunks.flatten = boxes.flatMap Mp4Atom.pack →
    (init.bytes ++ boxes.flatMap Mp4Atom.pack).length < 2 ^ 63 →
    batchOutcome (decryptSegment aes init.bytes (boxes.flatMap Mp4Atom.pack) keyId key false)
      = streamOutcome (decryptSegmentStreaming aes init.bytes (chunks.map .ok) keyId key false)

theorem pathsAgree_of_oneFragment {types : List FourCC} (hty : ∀ t ∈ types, MediaType t)
    (hone : OneFragment types) : PathsAgree types := by
  rintro aes init keyId key boxes chunks rfl hfits hchunks hlen
  have hty' : ∀ a ∈ boxes, MediaType a.atomType := fun a ha => hty _ (List.mem_map_of_mem ha)
  rw [batchOutcome_eq aes init keyId key hty' hfits hlen,
    streamOutcome_eq aes init keyId key hfits hchunks
      (by rw [List.length_append] at hlen; omega)]
  congr 1
  funext s
  exact s.decryptFragment_eq_handleAll aes hty' hone

end MediaFlow
