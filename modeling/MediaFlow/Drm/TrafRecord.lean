import MediaFlow.Drm.Fragment

/-!
# What a traf records

The loop of `process_traf` reads its local variables and two fields of the decrypter child after
child. This module says what is in them at the end, in terms of the children alone: each is what
the last child of its kind has left, and the value from before the `traf` when there is none.

* `readTraf_*`: the variables after the loop;
* `trafRecord_eq`: the record of a `traf`;
* `trackInfos_processMoof`: the records of a `moof`.
-/

open ByteString

namespace MediaFlow
namespace Mp4Decrypter

/-- The track id after the children of a `traf`: that of the last `tfhd` that has one. -/
def trackIdFrom (id : ℕ) (children : List Mp4Atom) : ℕ :=
  children.foldl (fun id c =>
    if c.atomType = .tfhd ∧ 8 ≤ c.data.length then beAt c.data 4 4 else id) id

/-- The track id of a `traf`; 0 when no `tfhd` gives one. -/
def trackIdOf (children : List Mp4Atom) : ℕ := trackIdFrom 0 children

/-- The default sample size after the children of a `traf`: that of the last `tfhd` that carries
one. -/
def carriedDefault (d : ℕ) (children : List Mp4Atom) : ℕ :=
  children.foldl (fun d c =>
    if c.atomType = .tfhd then (tfhdDefaultSampleSize c.data).getD d else d) d

/-- The sample sizes after the children of a `traf`: those of the last complete `trun`. -/
def carriedSizes (z : List ℕ) (children : List Mp4Atom) : List ℕ :=
  children.foldl (fun z c =>
    if c.atomType = .trun ∧ 8 ≤ c.data.length then trunSizes c.data else z) z

/-- The data offset of a `traf`: that of its last `trun`. -/
def runOffset (children : List Mp4Atom) : ℤ :=
  children.foldl (fun o c =>
    if c.atomType = .trun then if c.data.length < 8 then 0 else trunDataOffset c.data else o) 0

/-- The sample info of a `traf`: that of its last `senc`. -/
def sencInfo (s : Mp4Decrypter) (children : List Mp4Atom) : List SampleInfo :=
  children.foldl (fun i c => if c.atomType = .senc then parseSenc s c else i) []

section ReadTraf

variable (s : Mp4Decrypter) (l : TrafLocals) (children : List Mp4Atom)

theorem readTraf_trackId :
    (readTraf s l children).2.tfhdTrackId = trackIdFrom l.tfhdTrackId children := by
  induction children generalizing s l with
  | nil => rfl
  | cons c rest ih =>
    rw [readTraf, ih, trackIdFrom, trackIdFrom, List.foldl_cons]
    congr 1
    unfold TrafLocals.next
    by_cases h₁ : c.atomType = .tfhd
    · by_cases h₈ : 8 ≤ c.data.length <;> simp [h₁, h₈]
    · simp only [h₁, if_false, false_and]
      split
      · rfl
      · split <;> rfl

theorem afterTrafChild_default (c : Mp4Atom) :
    (afterTrafChild s c).defaultSampleSize
      = if c.atomType = .tfhd then (tfhdDefaultSampleSize c.data).getD s.defaultSampleSize
        else s.defaultSampleSize := by
  unfold afterTrafChild
  split
  · rfl
  · split
    · obtain ⟨z, h⟩ := processTrun_eq s c
      rw [h]
      rfl
    · rfl

theorem readTraf_default :
    (readTraf s l children).1.defaultSampleSize
      = carriedDefault s.defaultSampleSize children := by
  induction children generalizing s l with
  | nil => rfl
  | cons c rest ih =>
    rw [readTraf, ih, carriedDefault, carriedDefault, List.foldl_cons, afterTrafChild_default]

/-- The default size of a track is the one carried when its `tfhd` is read, and no later child
changes what is carried. -/
theorem readTraf_trackDefault :
    (readTraf s l children).2.trackDefaultSampleSize
      = if hasTfhd children then carriedDefault s.defaultSampleSize children
        else l.trackDefaultSampleSize := by
  induction children generalizing s l with
  | nil => rfl
  | cons c rest ih =>
    have hcarried : carriedDefault s.defaultSampleSize (c :: rest)
        = carriedDefault (afterTrafChild s c).defaultSampleSize rest := by
      rw [afterTrafChild_default, carriedDefault, carriedDefault, List.foldl_cons]
    rw [readTraf, ih, hcarried]
    by_cases hrest : hasTfhd rest = true
    · have hcons : hasTfhd (c :: rest) = true := by
        unfold hasTfhd at hrest ⊢
        rw [List.any_cons, hrest, Bool.or_true]
      rw [if_pos hrest, if_pos hcons]
    · -- `c` is the last child that may be a `tfhd`
      have hkeep : carriedDefault (afterTrafChild s c).defaultSampleSize rest
          = (afterTrafChild s c).defaultSampleSize := by
        have hno : ∀ b ∈ rest, ¬ b.atomType = .tfhd := by
          intro b hb htb
          exact hrest (List.any_eq_true.mpr ⟨b, hb, by simpa using htb⟩)
        clear ih hcarried hrest
        generalize (afterTrafChild s c).defaultSampleSize = d
        unfold carriedDefault
        induction rest with
        | nil => rfl
        | cons b bs ih =>
          rw [List.foldl_cons, if_neg (hno b List.mem_cons_self)]
          exact ih fun e he => hno e (List.mem_cons_of_mem b he)
      rw [if_neg hrest, hkeep, afterTrafChild_default]
      unfold TrafLocals.next
      by_cases h₁ : c.atomType = .tfhd
      · have hcons : hasTfhd (c :: rest) = true := by
          unfold hasTfhd
          rw [List.any_cons, decide_eq_true h₁, Bool.true_or]
        rw [if_pos hcons, if_pos h₁, if_pos h₁]
        rfl
      · have hcons : ¬ hasTfhd (c :: rest) = true := by
          unfold hasTfhd at hrest ⊢
          rw [List.any_cons, decide_eq_false h₁, Bool.false_or]
          exact hrest
        rw [if_neg hcons]
        simp only [h₁, if_false]
        split
        · rfl
        · split <;> rfl

theorem afterTrafChild_sizes (c : Mp4Atom) :
    (afterTrafChild s c).trunSampleSizes
      = if c.atomType = .trun ∧ 8 ≤ c.data.length then trunSizes c.data
        else s.trunSampleSizes := by
  have hne : FourCC.tfhd ≠ .trun := by decide
  unfold afterTrafChild
  split
  · next h =>
    rw [if_neg (by rw [h]; exact fun hc => hne hc.1)]
    rfl
  · split
    · next h =>
      unfold processTrun
      by_cases h₈ : c.data.length < 8
      · rw [if_pos h₈, if_neg (by omega)]
      · rw [if_neg h₈, if_pos ⟨h, by omega⟩]
    · next h => rw [if_neg fun hc => h hc.1]

theorem readTraf_sizes :
    (readTraf s l children).1.trunSampleSizes = carriedSizes s.trunSampleSizes children := by
  induction children generalizing s l with
  | nil => rfl
  | cons c rest ih =>
    rw [readTraf, ih, carriedSizes, carriedSizes, List.foldl_cons, afterTrafChild_sizes]

theorem readTraf_dataOffset :
    (readTraf s l children).2.trunDataOffset = children.foldl (fun o c =>
      if c.atomType = .trun then if c.data.length < 8 then 0 else trunDataOffset c.data
      else o) l.trunDataOffset := by
  induction children generalizing s l with
  | nil => rfl
  | cons c rest ih =>
    have hne : FourCC.tfhd ≠ .trun := by decide
    rw [readTraf, ih, List.foldl_cons]
    congr 1
    unfold TrafLocals.next
    split
    · next h => simp only [h, if_neg hne]
    · split
      · unfold processTrun
        split <;> rfl
      · split <;> rfl

theorem readTraf_sampleInfo :
    (readTraf s l children).2.sampleInfo
      = children.foldl (fun i c => if c.atomType = .senc then parseSenc s c else i)
        l.sampleInfo := by
  induction children generalizing s l with
  | nil => rfl
  | cons c rest ih =>
    have hsenc : parseSenc (afterTrafChild s c) = parseSenc s := by
      obtain ⟨d, z, h⟩ := afterTrafChild_eq s c
      rw [h]
      rfl
    have h₁ : FourCC.tfhd ≠ .senc := by decide
    have h₂ : FourCC.trun ≠ .senc := by decide
    rw [readTraf, ih, hsenc, List.foldl_cons]
    congr 1
    unfold TrafLocals.next
    split
    · next h => simp only [h, if_neg h₁]
    · split
      · next h => simp only [h, if_neg h₂]
      · split <;> rfl

end ReadTraf

/-- **The record of a `traf`**, in terms of its children. -/
theorem trafRecord_eq (s : Mp4Decrypter) (children : List Mp4Atom) :
    trafRecord s children =
      { dataOffset := runOffset children
        sampleSizes := carriedSizes s.trunSampleSizes children
        sampleInfo := sencInfo s children
        key := getKeyForTrack s (trackIdOf children)
        defaultSampleSize :=
          if hasTfhd children then carriedDefault s.defaultSampleSize children else 0
        cryptByteBlock := (trackPattern s (trackIdOf children)).1
        skipByteBlock := (trackPattern s (trackIdOf children)).2.1
        constantIv := (trackPattern s (trackIdOf children)).2.2 } := by
  have hid := readTraf_trackId s {} children
  have hdef := readTraf_trackDefault s {} children
  have hsizes := readTraf_sizes s {} children
  have hoff := readTraf_dataOffset s {} children
  have hinfo := readTraf_sampleInfo s {} children
  obtain ⟨d, z, hread⟩ := readTraf_eq s {} children
  have hkey : ∀ id, getKeyForTrack (readTraf s {} children).1 id = getKeyForTrack s id := by
    intro id
    rw [hread]
    rfl
  have hpat : ∀ id, trackPattern (readTraf s {} children).1 id = trackPattern s id := by
    intro id
    rw [hread]
    rfl
  unfold trafRecord trackInfoOf
  rw [hid, hdef, hsizes, hoff, hinfo, hkey, hpat]
  rfl

/-! ### The records of a moof -/

/-- The records of the `traf`s of a `moof`. -/
def records (s : Mp4Decrypter) : List (List Mp4Atom) → List TrackInfo
  | [] => []
  | children :: rest => trafRecord s children :: records (afterTraf s children) rest

theorem afterTrafs_trackInfos (s : Mp4Decrypter) (trafs : List (List Mp4Atom)) :
    (afterTrafs s trafs).trackInfos = s.trackInfos ++ records s trafs := by
  induction trafs generalizing s with
  | nil => exact (List.append_nil _).symm
  | cons children rest ih =>
    have hinfos : (afterTraf s children).trackInfos = s.trackInfos ++ [trafRecord s children] :=
      rfl
    rw [afterTrafs, ih, hinfos, records, List.append_assoc, List.singleton_append]

theorem afterTraf_default (s : Mp4Decrypter) (children : List Mp4Atom) :
    (afterTraf s children).defaultSampleSize = carriedDefault s.defaultSampleSize children :=
  readTraf_default s {} children

theorem records_eq_nil_iff {s : Mp4Decrypter} {trafs : List (List Mp4Atom)} :
    records s trafs = [] ↔ trafs = [] := by
  cases trafs <;> simp [records]

/-- The records of the `traf`s after a `moof`. -/
theorem trackInfos_processMoof {s s' : Mp4Decrypter} {moof moof' : Mp4Atom}
    (h : processMoof s moof = some (moof', s')) :
    s'.trackInfos
      = records (enterMoof s (partsOf moof)) (MoofPart.trafs (partsOf moof)) := by
  obtain ⟨-, -, rfl⟩ := processMoof_eq_some h
  rw [afterTrafs_trackInfos]
  rfl

theorem processMoof_sameSetup {s s' : Mp4Decrypter} {moof moof' : Mp4Atom}
    (h : processMoof s moof = some (moof', s')) : SameSetup s s' := by
  obtain ⟨-, -, rfl⟩ := processMoof_eq_some h
  have henter : SameSetup s (enterMoof s (partsOf moof)) :=
    ⟨rfl, rfl, rfl, rfl, rfl, rfl, rfl, rfl, rfl⟩
  exact henter.trans (afterTrafs_sameSetup _ _)

end Mp4Decrypter
end MediaFlow
