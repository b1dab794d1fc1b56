import MediaFlow.Drm.SegmentPaths

/-!
# The init segment and its two ways to the player

A player gets the boxes of the init segment either in front of every media segment
(`include_init` set) or once, through EXT-X-MAP, from `processDrmInitSegment`; its media segments
then come without them. `decryptSegment` leaves the init out by box type, not by position: only
`ftyp` and `moov` boxes are dropped, so any other box of the init segment comes again with every
media segment.

* `decryptSegment_eq_emission`: what `decryptSegment` emits, over any list of boxes;
* `deliveries_agree_iff`: for which init segments the two ways deliver the same.
-/

open ByteString Text

namespace MediaFlow

/-- `process_drm_init_segment`: strip encryption boxes from an init segment. -/
def processDrmInitSegment (initSegment : Bytes) (keyId key : Str) : Option (Except Str Bytes) :=
  let keyMap := buildKeyMapFromHex keyId key
  if keyMap.entries = [] then some (.error "No valid key/key_id pairs provided".toList)
  else do
    return .ok (← (Mp4Decrypter.new keyMap).processInitOnly initSegment).1

/-- What a player has that takes the init segment through EXT-X-MAP: the processed init segment,
then the media segment without its init. -/
def deliveredThroughMap (aes : BlockCipher) (initSegment segmentContent : Bytes)
    (keyId key : Str) : Option (Except Str Bytes) := do
  let head ← processDrmInitSegment initSegment keyId key
  let body ← decryptSegment aes initSegment segmentContent keyId key false
  return do return (← head) ++ (← body)

/-- The types `decrypt_segment` takes for the init segment: `init_types`. -/
def isInitType (t : FourCC) : Bool := t = .ftyp ∨ t = .moov

/-! ### Media segments -/

/-- A media segment of complete boxes: a last one may extend to the end of the segment, with a
size field of 0. -/
structure BoxSegment where
  boxes : List (Mp4Atom × HeaderForm)
  last : Option Mp4Atom
  boxes_fit : ∀ p ∈ boxes, p.1.FitsForm p.2

namespace BoxSegment

variable (media : BoxSegment)

def atoms : List Mp4Atom := media.boxes.map Prod.fst ++ media.last.toList

/-- A box that extends to the end of the segment. -/
def encodeToEnd (a : Mp4Atom) : Bytes := toBe 4 0 ++ a.atomType.bytes ++ a.data

def bytes : Bytes :=
  media.boxes.flatMap (fun p => p.1.encode p.2) ++ media.last.toList.flatMap encodeToEnd

end BoxSegment

/-- A box that extends to the end is read back. -/
theorem readAtomAt_encodeToEnd (pre : Bytes) (a : Mp4Atom)
    (hlen : (pre ++ BoxSegment.encodeToEnd a).length < 2 ^ 63) :
    readAtomAt (pre ++ BoxSegment.encodeToEnd a) pre.length
        (pre ++ BoxSegment.encodeToEnd a).length
      = some (some (a, (pre ++ BoxSegment.encodeToEnd a).length)) := by
  set data := pre ++ BoxSegment.encodeToEnd a with hdata
  have htotal : data.length = pre.length + (a.data.length + 8) := by
    simp only [hdata, BoxSegment.encodeToEnd, List.length_append, length_toBe,
      FourCC.length_bytes]
    omega
  have hzero : beAt data pre.length 4 = 0 := by
    have h := beAt_append_right pre (BoxSegment.encodeToEnd a) 0 4
    rw [Nat.add_zero] at h
    rw [hdata, h, beAt, List.drop_zero, BoxSegment.encodeToEnd, List.append_assoc,
      List.take_left' (length_toBe 4 _), ofBe_toBe (by norm_num)]
  have htype : FourCC.at' data (pre.length + 4) = a.atomType := by
    have hsplit : data = (pre ++ toBe 4 0) ++ a.atomType.bytes ++ a.data := by
      simp [hdata, BoxSegment.encodeToEnd]
    have hpre : pre.length + 4 = (pre ++ toBe 4 0).length := by
      rw [List.length_append, length_toBe]
    rw [hsplit, hpre, FourCC.at'_bytes]
  have hhdr : headerAt data pre.length data.length = some (8, a.data.length + 8) := by
    unfold headerAt
    simp only [hzero]
    rw [if_neg (by omega), if_neg (by norm_num), if_pos trivial, htotal, Nat.add_sub_cancel_left]
  have hsplit : data = (pre ++ toBe 4 0 ++ a.atomType.bytes) ++ (a.data ++ []) := by
    simp [hdata, BoxSegment.encodeToEnd]
  have hread := readAtomAt_of_header hsplit (by simp) hhdr (Nat.add_comm _ _) htype hlen
  rwa [← htotal] at hread

/-- The boxes of a media segment are read back after those of an init segment. -/
theorem BoxSegment.listAtoms_append (media : BoxSegment) {init : List Mp4Atom}
    (hfits : ∀ a ∈ init, a.Fits)
    (hlen : (init.flatMap Mp4Atom.pack ++ media.bytes).length < 2 ^ 63) :
    listAtoms (init.flatMap Mp4Atom.pack ++ media.bytes) = some (init ++ media.atoms) := by
  set items := init.map (fun a => (a, HeaderForm.short)) ++ media.boxes with hitems
  set tail := media.last.toList.flatMap encodeToEnd with htail
  have hbytes : init.flatMap Mp4Atom.pack ++ media.bytes
      = items.flatMap (fun p => p.1.encode p.2) ++ tail := by
    rw [hitems, List.flatMap_append, List.flatMap_map, List.append_assoc]
    rfl
  have hall : ∀ p ∈ items, p.1.FitsForm p.2 := by
    intro p hp
    rcases List.mem_append.mp hp with hp | hp
    · obtain ⟨a, ha, rfl⟩ := List.mem_map.mp hp
      exact hfits a ha
    · exact media.boxes_fit p hp
  have hfst : items.map Prod.fst ++ media.last.toList = init ++ media.atoms := by
    rw [hitems, List.map_append, List.map_map, atoms, List.append_assoc]
    congr 1
    exact List.map_id init
  rw [hbytes] at hlen ⊢
  rw [← hfst]
  have hcount := length_le_length_flatMap_encode items
  -- the reader goes on with the rest of the bytes as fuel
  have hfuel : (items.flatMap (fun p => p.1.encode p.2) ++ tail).length
      = items.length + ((items.flatMap fun p => p.1.encode p.2).length - items.length
          + tail.length) := by
    rw [List.length_append]
    omega
  have hread := listAtomsFrom_encode_append items hall [] tail hlen
    ((items.flatMap fun p => p.1.encode p.2).length - items.length + tail.length)
  rw [List.nil_append] at hread
  rw [listAtoms, hfuel, List.length_nil.symm, hread]
  cases hlast : media.last with
  | none =>
    have hnil : tail = [] := by rw [htail, hlast]; rfl
    rw [hnil, List.append_nil, listAtomsFrom_of_length_lt (by omega)]
    simp
  | some a =>
    have htail' : tail = encodeToEnd a := by
      rw [htail, hlast]
      exact List.flatMap_singleton ..
    have htl : tail.length = a.data.length + 8 := by
      rw [htail']
      simp only [encodeToEnd, List.length_append, length_toBe, FourCC.length_bytes]
      omega
    have hone := readAtomAt_encodeToEnd (items.flatMap fun p => p.1.encode p.2) a
      (by rw [← htail']; exact hlen)
    rw [← htail'] at hone
    rw [htl, ← Nat.add_assoc, listAtomsFrom, if_pos (by rw [List.length_append]; omega), hone]
    simp [listAtomsFrom_of_length_lt]

/-! ### What is emitted -/

namespace Mp4Decrypter

variable (aes : BlockCipher)

/-- What `decrypt_segment` emits the boxes of each type as: the first box of a processed type
stands for all of them. -/
def emission (s : Mp4Decrypter) (atoms : List Mp4Atom) : Option (FourCC → Option Mp4Atom) := do
  let (_, processed) ← List.foldlM (processFirst aes atoms) (s, fun _ => none)
    [.moov, .moof, .sidx, .mdat]
  return processed

/-- A box as it is emitted. -/
def emitted (processed : FourCC → Option Mp4Atom) (a : Mp4Atom) : Bytes :=
  ((processed a.atomType).getD a).pack

theorem decryptSegment_eq_emission (s : Mp4Decrypter) {combined : Bytes} {atoms : List Mp4Atom}
    (hatoms : listAtoms combined = some atoms) (includeInit : Bool) :
    s.decryptSegment aes combined includeInit = (s.emission aes atoms).map fun processed =>
      (atoms.filter fun a => includeInit || !isInitType a.atomType).flatMap
        (emitted processed) := by
  have hfilter : (atoms.filter fun a => decide (includeInit = true ∨
      ¬ (a.atomType = FourCC.ftyp ∨ a.atomType = FourCC.moov)))
      = atoms.filter fun a => includeInit || !isInitType a.atomType := by
    refine List.filter_congr fun a _ => ?_
    cases includeInit <;> simp [isInitType]
  unfold decryptSegment emission
  rw [hatoms]
  simp only [Option.bind_eq_bind, Option.bind_some, Option.pure_def, hfilter]
  cases List.foldlM (processFirst aes atoms) (s, fun _ => none)
    [FourCC.moov, .moof, .sidx, .mdat] <;> rfl

/-- Only the entry of its own type changes when a box is processed. -/
theorem processFirst_frame {atoms : List Mp4Atom}
    {st st' : Mp4Decrypter × (FourCC → Option Mp4Atom)} {tag t : FourCC}
    (h : processFirst aes atoms st tag = some st') (ht : t ≠ tag) : st'.2 t = st.2 t := by
  rw [processFirst_eq, Option.map_eq_some_iff] at h
  obtain ⟨p, -, rfl⟩ := h
  exact if_neg ht

theorem foldlM_processFirst_frame {atoms : List Mp4Atom} {tags : List FourCC}
    {st st' : Mp4Decrypter × (FourCC → Option Mp4Atom)} {t : FourCC}
    (h : List.foldlM (processFirst aes atoms) st tags = some st') (ht : t ∉ tags) :
    st'.2 t = st.2 t := by
  induction tags generalizing st with
  | nil =>
    cases h
    rfl
  | cons tag tags ih =>
    obtain ⟨mid, hmid, hrest⟩ := Option.bind_eq_some_iff.mp h
    rw [ih hrest fun hmem => ht (List.mem_cons_of_mem tag hmem)]
    exact processFirst_frame aes hmid fun heq => ht (heq ▸ List.mem_cons_self)

section Emission

variable {atoms : List Mp4Atom} {moov : Mp4Atom}

/-- The `moov` is processed first. -/
theorem processFirst_moov (s : Mp4Decrypter)
    (hmoov : atoms.find? (fun a => a.atomType = .moov) = some moov) :
    processFirst aes atoms (s, fun _ => none) .moov = (processMoov s moov).map fun p =>
      (p.2, record (fun _ => none) .moov (some p.1)) := by
  have hty : moov.atomType = .moov := by simpa using List.find?_some hmoov
  rw [processFirst_eq, onFirst, hmoov]
  simp only [processAtom, if_pos hty]
  cases processMoov s moov <;> rfl

theorem emission_eq_none (s : Mp4Decrypter)
    (hmoov : atoms.find? (fun a => a.atomType = .moov) = some moov)
    (h : processMoov s moov = none) : s.emission aes atoms = none := by
  unfold emission
  rw [List.foldlM_cons, processFirst_moov aes s hmoov, h]
  rfl

/-- Boxes of the init segment: the `moov` is emitted as it was processed, `ftyp` boxes as they
are, whatever comes after. -/
theorem emission_initType {s : Mp4Decrypter} {p : Mp4Atom × Mp4Decrypter}
    {processed : FourCC → Option Mp4Atom}
    (hmoov : atoms.find? (fun a => a.atomType = .moov) = some moov)
    (hp : processMoov s moov = some p) (h : s.emission aes atoms = some processed) :
    processed .moov = some p.1 ∧ processed .ftyp = none := by
  unfold emission at h
  obtain ⟨st, hst, hres⟩ := Option.bind_eq_some_iff.mp h
  cases hres
  rw [List.foldlM_cons, processFirst_moov aes s hmoov, hp] at hst
  constructor
  · rw [foldlM_processFirst_frame aes hst (by decide)]
    rfl
  · rw [foldlM_processFirst_frame aes hst (by decide)]
    rfl

end Emission

/-- What `process_init_only` makes of a box, given the processed `moov`. -/
def initEmitted (moov a : Mp4Atom) : Bytes := if a.atomType = .moov then moov.pack else a.pack

theorem length_initEmitted_pos (moov a : Mp4Atom) : 0 < (initEmitted moov a).length := by
  unfold initEmitted
  split
  · rw [Mp4Atom.length_pack]
    exact Nat.succ_pos _
  · rw [Mp4Atom.length_pack]
    exact Nat.succ_pos _

theorem processInitOnly_eq (s : Mp4Decrypter) {init : List Mp4Atom} {moov : Mp4Atom}
    {bytes : Bytes} (hatoms : listAtoms bytes = some init)
    (hmoov : init.find? (fun a => a.atomType = .moov) = some moov) :
    s.processInitOnly bytes
      = (processMoov s moov).map fun p => (init.flatMap (initEmitted p.1), p.2) := by
  unfold processInitOnly
  rw [hatoms, Option.bind_eq_bind, Option.bind_some, hmoov]
  dsimp only
  cases processMoov s moov <;> rfl

/-- The boxes of `l` are emitted twice unless there are none: the lengths tell. -/
theorem flatMap_eq_append_iff {l : List Mp4Atom} {q : Mp4Atom → Bool} {f g : Mp4Atom → Bytes}
    (hsame : ∀ a ∈ l, q a = true → f a = g a) (hpos : ∀ a, 0 < (g a).length) :
    l.flatMap f = l.flatMap g ++ (l.filter fun a => !q a).flatMap f ↔ ∀ a ∈ l, q a = true := by
  have hsplit : ∀ h : Mp4Atom → Bytes, (l.flatMap h).length
      = ((l.filter q).flatMap h).length + ((l.filter fun a => !q a).flatMap h).length := by
    intro h
    rw [← List.length_append, ← List.flatMap_append]
    exact ((List.filter_append_perm q l).flatMap_right h).length_eq.symm
  have hkept : (l.filter q).flatMap f = (l.filter q).flatMap g :=
    List.flatMap_congr fun a ha => hsame a (List.mem_filter.mp ha).1 (List.mem_filter.mp ha).2
  constructor
  · intro heq a ha
    by_contra hq
    have hlen := congrArg List.length heq
    rw [List.length_append, hsplit f, hsplit g, hkept] at hlen
    -- so the boxes that come again have no bytes
    have hzero : ((l.filter fun a => !q a).flatMap g).length = 0 := by omega
    have hnil := List.flatMap_eq_nil_iff.mp (List.length_eq_zero_iff.mp hzero) a
      (List.mem_filter.mpr ⟨ha, by simpa using hq⟩)
    exact absurd (hpos a) (by rw [hnil]; exact lt_irrefl 0)
  · intro hall
    have hnone : (l.filter fun a => !q a) = [] := by
      rw [List.filter_eq_nil_iff]
      intro a ha
      simp [hall a ha]
    rw [hnone, List.flatMap_nil, List.append_nil]
    exact List.flatMap_congr fun a ha => hsame a ha (hall a ha)

end Mp4Decrypter

/-! ### The two ways -/

section Deliveries

open Mp4Decrypter

variable (aes : BlockCipher) {init : List Mp4Atom} {media : BoxSegment} {keyId key : Str}

/-- **The two ways deliver the same exactly when the init segment has no box but `ftyp` and
`moov`**, and one aborts when the other does. -/
theorem deliveries_agree_iff (hinit : ∀ a ∈ init, a.Fits)
    (hmoov : (init.map Mp4Atom.atomType).count .moov = 1)
    (hmedia : ∀ a ∈ media.atoms, isInitType a.atomType = false)
    (hlen : (init.flatMap Mp4Atom.pack ++ media.bytes).length < 2 ^ 63)
    (hkeys : (buildKeyMapFromHex keyId key).entries ≠ []) :
    (decryptSegment aes (init.flatMap Mp4Atom.pack) media.bytes keyId key true = none ↔
      deliveredThroughMap aes (init.flatMap Mp4Atom.pack) media.bytes keyId key = none) ∧
    ∀ out, decryptSegment aes (init.flatMap Mp4Atom.pack) media.bytes keyId key true = some out →
      (deliveredThroughMap aes (init.flatMap Mp4Atom.pack) media.bytes keyId key = some out ↔
        ∀ a ∈ init, isInitType a.atomType = true) := by
  set s := Mp4Decrypter.new (buildKeyMapFromHex keyId key) with hs
  have hread := media.listAtoms_append hinit hlen
  have hreadInit := listAtoms_pack init hinit (by rw [List.length_append] at hlen; omega)
  obtain ⟨moov, hfind⟩ : ∃ moov, init.find? (fun a => a.atomType = .moov) = some moov := by
    rw [← Option.isSome_iff_exists, List.find?_isSome]
    obtain ⟨a, ha, haty⟩ := List.mem_map.mp (List.count_pos_iff.mp (hmoov ▸ Nat.one_pos))
    exact ⟨a, ha, decide_eq_true haty⟩
  have hfindAll : (init ++ media.atoms).find? (fun a => a.atomType = .moov) = some moov := by
    rw [List.find?_append, hfind, Option.some_or]
  -- the boxes that are emitted with the init and without it
  have hwith : ((init ++ media.atoms).filter fun a => true || !isInitType a.atomType)
      = init ++ media.atoms := List.filter_eq_self.mpr fun _ _ => rfl
  have hwithout : ((init ++ media.atoms).filter fun a => false || !isInitType a.atomType)
      = (init.filter fun a => !isInitType a.atomType) ++ media.atoms := by
    rw [List.filter_append]
    congr 1
    exact List.filter_eq_self.mpr fun a ha => by simp [hmedia a ha]
  have htrue : decryptSegment aes (init.flatMap Mp4Atom.pack) media.bytes keyId key true
      = (s.emission aes (init ++ media.atoms)).map fun processed =>
        .ok ((init ++ media.atoms).flatMap (emitted processed)) := by
    unfold decryptSegment
    simp only [if_neg hkeys]
    rw [decryptSegment_eq_emission aes _ hread, hwith]
    cases s.emission aes (init ++ media.atoms) <;> rfl
  have hmap : deliveredThroughMap aes (init.flatMap Mp4Atom.pack) media.bytes keyId key
      = (processMoov s moov).bind fun p =>
        (s.emission aes (init ++ media.atoms)).map fun processed =>
          .ok (init.flatMap (initEmitted p.1) ++
            ((init.filter fun a => !isInitType a.atomType) ++ media.atoms).flatMap
              (emitted processed)) := by
    unfold deliveredThroughMap processDrmInitSegment decryptSegment
    simp only [if_neg hkeys]
    rw [decryptSegment_eq_emission aes _ hread, hwithout, processInitOnly_eq _ hreadInit hfind]
    cases processMoov s moov with
    | none => rfl
    | some p => cases s.emission aes (init ++ media.atoms) <;> rfl
  rw [htrue, hmap]
  cases hp : processMoov s moov with
  | none =>
    rw [emission_eq_none aes s hfindAll hp]
    exact ⟨iff_of_true rfl rfl, nofun⟩
  | some p =>
    rw [Option.bind_some]
    cases hproc : s.emission aes (init ++ media.atoms) with
    | none => exact ⟨iff_of_true rfl rfl, nofun⟩
    | some processed =>
      obtain ⟨hpm, hpf⟩ := emission_initType aes hfindAll hp hproc
      have hsame : ∀ a ∈ init, isInitType a.atomType = true →
          emitted processed a = initEmitted p.1 a := by
        intro a _ hty
        rcases of_decide_eq_true hty with h | h
        · rw [emitted, initEmitted, h, hpf, if_neg (by decide), Option.getD_none]
        · rw [emitted, initEmitted, h, hpm, if_pos rfl, Option.getD_some]
      refine ⟨iff_of_false nofun nofun, fun out hout => ?_⟩
      cases hout
      rw [← flatMap_eq_append_iff hsame fun a => length_initEmitted_pos p.1 a]
      simp only [Option.map_some, Option.some.injEq, Except.ok.injEq, List.flatMap_append,
        ← List.append_assoc, List.append_left_inj]
      exact eq_comm

/-- A media segment without boxes. -/
def noMedia : BoxSegment := ⟨[], none, fun _ h => absurd h List.not_mem_nil⟩

/-- An empty `ftyp` and an empty `moov` reach the player once either way. -/
theorem deliveries_agree_bare :
    deliveredThroughMap (.constant 0) ([⟨.ftyp, []⟩, ⟨.moov, []⟩].flatMap Mp4Atom.pack)
        noMedia.bytes "00".toList "00".toList
      = some (.ok ([⟨.ftyp, []⟩, ⟨.moov, []⟩].flatMap Mp4Atom.pack)) :=
  ((deliveries_agree_iff (.constant 0) (by decide) (by decide)
    (fun _ h => absurd h List.not_mem_nil) (by decide) (by decide +kernel)).2 _
      (by decide +kernel)).mpr (by decide)

/-- With a `free` box between the two, the player that takes the init segment through EXT-X-MAP
gets that box a second time. -/
theorem not_deliveries_agree :
    ¬ ∀ (aes : BlockCipher) (init : List Mp4Atom) (media : BoxSegment) (keyId key : Str),
      (∀ a ∈ init, a.Fits) → (init.map Mp4Atom.atomType).count .moov = 1 →
      (∀ a ∈ media.atoms, isInitType a.atomType = false) →
      (init.flatMap Mp4Atom.pack ++ media.bytes).length < 2 ^ 63 →
      (buildKeyMapFromHex keyId key).entries ≠ [] →
      decryptSegment aes (init.flatMap Mp4Atom.pack) media.bytes keyId key true
        = deliveredThroughMap aes (init.flatMap Mp4Atom.pack) media.bytes keyId key := by
  intro h
  have hfree := h (.constant 0) [⟨.ftyp, []⟩, ⟨.lit 'f' 'r' 'e' 'e', []⟩, ⟨.moov, []⟩] noMedia
    "00".toList "00".toList (by decide) (by decide) (fun _ h => absurd h List.not_mem_nil)
    (by decide) (by decide +kernel)
  exact absurd hfree (by decide +kernel)

end Deliveries

end MediaFlow
