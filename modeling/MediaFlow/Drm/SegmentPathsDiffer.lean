import MediaFlow.Drm.SegmentPaths

/-!
# Where the buffered and the streaming path differ

For every sequence of box types that is not one fragment there are boxes of these types of which
the two paths make different bytes, so `pathsAgree_iff` is exact. The boxes are `Passive` but for
one: a decrypter that knows no samples returns them as they are.

* `not_pathsAgree_of_repeated`: two `moof`s, or two `mdat`s;
* `not_pathsAgree_of_mdat_first`: an `mdat` before the `moof`;
* `pathsAgree_iff`: for which sequences the paths agree.
-/

open ByteString Emit Text

namespace MediaFlow

/-! ### Passive boxes -/

/-- A key that AES takes. -/
def zeroKey : Str := List.replicate 32 '0'

/-- The decrypter of this key, primed with an empty `moov`. -/
def primed : Mp4Decrypter := .new (buildKeyMapFromHex "00".toList zeroKey)

/-- An init segment with nothing in its boxes. -/
def emptyInit : InitSegment where
  ftyp := []
  ftypForm := .short
  moov := []
  moovForm := .short
  moovFirst := false
  ftyp_fits := by
    show 0 + 8 < 2 ^ 32
    norm_num
  moov_fits := by
    show 0 + 8 < 2 ^ 32
    norm_num

/-- Where the paths agree, they make the same of every list of boxes with these types. -/
theorem PathsAgree.fragment {boxes : List Mp4Atom}
    (h : PathsAgree (boxes.map Mp4Atom.atomType)) (aes : BlockCipher)
    (hty : ∀ a ∈ boxes, MediaType a.atomType) (hfits : ∀ a ∈ boxes, a.Fits)
    (hlen : 16 + (boxes.flatMap Mp4Atom.pack).length < 2 ^ 63) :
    primed.decryptFragment aes boxes
      = if (handleAll (handleBox aes) primed boxes).2 then none
        else some (handleAll (handleBox aes) primed boxes).1 := by
  have hchunk : [boxes.flatMap Mp4Atom.pack].flatten = boxes.flatMap Mp4Atom.pack := by simp
  have hinit : emptyInit.bytes.length = 16 := rfl
  have hall : (emptyInit.bytes ++ boxes.flatMap Mp4Atom.pack).length < 2 ^ 63 := by
    rw [List.length_append, hinit]
    exact hlen
  have hagree := h aes emptyInit "00".toList zeroKey boxes [boxes.flatMap Mp4Atom.pack] rfl hfits
    hchunk hall
  rw [batchOutcome_eq aes _ _ _ hty hfits hall,
    streamOutcome_eq aes _ _ _ hfits hchunk (by rw [hinit]; norm_num)] at hagree
  have hkeys : (buildKeyMapFromHex "00".toList zeroKey).entries ≠ [] := by decide +kernel
  have hmoov : (Mp4Decrypter.new (buildKeyMapFromHex "00".toList zeroKey)).processMoov
      ⟨.moov, emptyInit.moov⟩ = some (⟨.moov, []⟩, primed) := rfl
  unfold segmentOutcome at hagree
  rw [if_neg hkeys, if_neg hkeys, hmoov] at hagree
  simp only at hagree
  cases hb : primed.decryptFragment aes boxes with
  | none =>
    rw [hb] at hagree
    cases hab : (handleAll (handleBox aes) primed boxes).2 with
    | true => rfl
    | false => rw [hab] at hagree; cases hagree
  | some b =>
    rw [hb] at hagree
    cases hab : (handleAll (handleBox aes) primed boxes).2 with
    | true => rw [hab] at hagree; cases hagree
    | false =>
      rw [hab] at hagree
      cases hagree
      rfl

/-- Nothing is known of any sample. -/
def Quiet (s : Mp4Decrypter) : Prop := s.trackInfos = [] ∧ s.currentSampleInfo = []

/-- A box that a decrypter without samples returns as it is. -/
def Passive (aes : BlockCipher) (a : Mp4Atom) : Prop :=
  ∀ s, Quiet s → ∃ s', s.processAtom aes a = some (a, s') ∧ Quiet s'

section Passive

variable (aes : BlockCipher)

theorem passive_of_ne_moof {a : Mp4Atom} (ha : MediaType a.atomType) (h : a.atomType ≠ .moof) :
    Passive aes a := by
  rintro s ⟨hinfos, hsamples⟩
  refine ⟨s, ?_, hinfos, hsamples⟩
  by_cases hm : a.atomType = .mdat
  · have hdec : s.decryptMdat aes a = some a := by
      unfold Mp4Decrypter.decryptMdat
      rw [if_neg (by rw [hinfos]; simp)]
      cases s.getCurrentKey with
      | none => rfl
      | some key => exact if_pos hsamples
    unfold Mp4Decrypter.processAtom
    rw [if_neg ha.2.1, if_neg h, if_neg ha.2.2, if_pos hm, hdec]
    rfl
  · exact s.processAtom_other aes ha h hm

/-- A `moof` of whole 32-bit boxes, none of them a `traf`. -/
theorem passive_moof {boxes : List Mp4Atom} (h : ∀ b ∈ boxes, b.atomType ≠ .traf)
    (hlen : (boxes.flatMap Mp4Atom.pack).length < 2 ^ 32) :
    Passive aes ⟨.moof, boxes.flatMap Mp4Atom.pack⟩ := by
  rintro s ⟨-, hsamples⟩
  have hparts : Mp4Decrypter.readParts boxes = some (boxes.map .other) := by
    clear hlen
    induction boxes with
    | nil => rfl
    | cons b rest ih =>
      have hb : Mp4Decrypter.readPart b = some (.other b) := if_neg (h b List.mem_cons_self)
      rw [Mp4Decrypter.readParts, hb, ih fun c hc => h c (List.mem_cons_of_mem b hc)]
      rfl
  have hread : Mp4Decrypter.readMoof ⟨.moof, boxes.flatMap Mp4Atom.pack⟩
      = some (boxes.map .other) := by
    rw [Mp4Decrypter.readMoof, Mp4Decrypter.childrenOf_flatMap_pack hlen]
    exact hparts
  have htrafs : Mp4Decrypter.MoofPart.trafs (boxes.map .other) = [] := by
    clear hread hparts hlen
    induction boxes with
    | nil => rfl
    | cons b rest ih => exact ih fun c hc => h c (List.mem_cons_of_mem b hc)
  have hboxes : ∀ e, (boxes.map Mp4Decrypter.MoofPart.other).map (Mp4Decrypter.MoofPart.reboxed e)
      = boxes := by
    intro e
    rw [List.map_map]
    exact List.map_id boxes
  refine ⟨s.enterMoof (boxes.map .other), ?_, rfl, hsamples⟩
  show s.processMoof _ = _
  rw [Mp4Decrypter.processMoof_eq, hread, Option.map_some, htrafs, hboxes]
  rfl

/-- Passive boxes go through the stream unchanged. -/
theorem handleAll_passive {s : Mp4Decrypter} (hs : Quiet s) {boxes : List Mp4Atom}
    (hty : ∀ a ∈ boxes, MediaType a.atomType) (hp : ∀ a ∈ boxes, Passive aes a)
    (rest : List Mp4Atom) :
    ∃ s', Quiet s' ∧ handleAll (handleBox aes) s (boxes ++ rest)
      = (boxes.flatMap Mp4Atom.pack ++ (handleAll (handleBox aes) s' rest).1,
          (handleAll (handleBox aes) s' rest).2) := by
  induction boxes generalizing s with
  | nil => exact ⟨s, hs, rfl⟩
  | cons a as ih =>
    obtain ⟨s₁, hproc, hs₁⟩ := hp a List.mem_cons_self s hs
    obtain ⟨s', hs', hrun⟩ := ih hs₁ (fun b hb => hty b (List.mem_cons_of_mem a hb))
      (fun b hb => hp b (List.mem_cons_of_mem a hb))
    refine ⟨s', hs', ?_⟩
    rw [List.cons_append, handleAll, s.handleBox_eq aes (hty a List.mem_cons_self), hproc]
    simp only [Option.map_some, hrun, List.flatMap_cons, List.append_assoc]

/-- Lists of boxes with the same packed form are the same. -/
theorem flatMap_pack_injective {as bs : List Mp4Atom} (ha : ∀ a ∈ as, a.Fits)
    (hb : ∀ b ∈ bs, b.Fits) (hlen : (as.flatMap Mp4Atom.pack).length < 2 ^ 63)
    (h : as.flatMap Mp4Atom.pack = bs.flatMap Mp4Atom.pack) : as = bs := by
  have h₁ := listAtoms_pack as ha hlen
  have h₂ := listAtoms_pack bs hb (h ▸ hlen)
  rw [h, h₂, Option.some.injEq] at h₁
  exact h₁.symm

/-- The first of some passive boxes is returned as it is. -/
theorem onFirst_passive {s : Mp4Decrypter} (hs : Quiet s) (tag : FourCC) {boxes : List Mp4Atom}
    (hp : ∀ a ∈ boxes, Passive aes a) :
    ∃ s', Mp4Decrypter.onFirst (Mp4Decrypter.processAtom aes) tag s boxes
      = some (boxes.find? (fun a => a.atomType = tag), s') ∧ Quiet s' := by
  unfold Mp4Decrypter.onFirst
  cases h : boxes.find? (fun a => a.atomType = tag) with
  | none => exact ⟨s, rfl, hs⟩
  | some a =>
    obtain ⟨s', hproc, hs'⟩ := hp a (List.mem_of_find?_eq_some h) s hs
    refine ⟨s', ?_, hs'⟩
    simp only [hproc, Option.map_some]

/-- **Two different boxes of one type.** The buffered path emits the first of them twice. -/
theorem not_pathsAgree_of_pair {boxes : List Mp4Atom} {u : FourCC} (hu : u = .moof ∨ u = .mdat)
    (hty : ∀ a ∈ boxes, MediaType a.atomType) (hfits : ∀ a ∈ boxes, a.Fits)
    (hlen : 16 + (boxes.flatMap Mp4Atom.pack).length < 2 ^ 63)
    (hp : ∀ a ∈ boxes, Passive aes a) {d d' : Bytes} (hd : ⟨u, d⟩ ∈ boxes) (hd' : ⟨u, d'⟩ ∈ boxes)
    (hne : d ≠ d') : ¬ PathsAgree (boxes.map Mp4Atom.atomType) := by
  intro h
  have hquiet : Quiet primed := ⟨rfl, rfl⟩
  have hagree := h.fragment aes hty hfits hlen
  obtain ⟨s', -, hstream⟩ := handleAll_passive aes hquiet hty hp []
  obtain ⟨s₁, hmoof, hs₁⟩ := onFirst_passive aes hquiet .moof hp
  obtain ⟨s₂, hmdat, -⟩ := onFirst_passive aes hs₁ .mdat hp
  set m := boxes.find? fun a => a.atomType = .moof with hm
  set e := boxes.find? fun a => a.atomType = .mdat with he
  rw [List.append_nil] at hstream
  rw [hstream, Mp4Decrypter.decryptFragment] at hagree
  simp only [hmoof, hmdat, Option.bind_eq_bind, Option.bind_some, Option.pure_def, handleAll,
    List.append_nil, if_neg Bool.false_ne_true, Option.some.injEq] at hagree
  -- every box is re-emitted as itself
  have hmem : ∀ a ∈ boxes.map (Mp4Decrypter.reemit m e), a ∈ boxes := by
    intro a ha
    obtain ⟨b, hb, rfl⟩ := List.mem_map.mp ha
    unfold Mp4Decrypter.reemit
    split
    · cases hfind : m with
      | none => exact hb
      | some x => exact List.mem_of_find?_eq_some hfind
    · split
      · cases hfind : e with
        | none => exact hb
        | some x => exact List.mem_of_find?_eq_some hfind
      · exact hb
  have hsame : boxes = boxes.map (Mp4Decrypter.reemit m e) := by
    refine flatMap_pack_injective hfits (fun a ha => hfits a (hmem a ha)) (by omega) ?_
    rw [List.flatMap_map, ← hagree]
  have hfix : ∀ a ∈ boxes, Mp4Decrypter.reemit m e a = a := by
    intro a ha
    have hid : boxes.map (Mp4Decrypter.reemit m e) = boxes.map id := by rw [← hsame, List.map_id]
    exact List.map_inj_left.mp hid a ha
  -- so the two boxes of type `u` are both the first one
  have hfirst : ∃ x, ∀ c, ⟨u, c⟩ ∈ boxes → (⟨u, c⟩ : Mp4Atom) = x := by
    rcases hu with rfl | rfl
    · cases hfind : m with
      | none =>
        have := List.find?_eq_none.mp hfind _ hd
        simp at this
      | some x =>
        refine ⟨x, fun c hc => ?_⟩
        rw [← hfix _ hc, hfind, Mp4Decrypter.reemit, if_pos rfl, Option.getD_some]
    · have hnm : FourCC.mdat ≠ .moof := by decide
      cases hfind : e with
      | none =>
        have := List.find?_eq_none.mp hfind _ hd
        simp at this
      | some x =>
        refine ⟨x, fun c hc => ?_⟩
        rw [← hfix _ hc, hfind, Mp4Decrypter.reemit, if_neg hnm, if_pos rfl, Option.getD_some]
  obtain ⟨x, hx⟩ := hfirst
  have heq := (hx d hd).trans (hx d' hd').symm
  rw [Mp4Atom.mk.injEq] at heq
  exact hne heq.2

end Passive

/-! ### Boxes of given types -/

/-- Boxes of the types `types`: those of type `u` with payload `d`, the others empty. -/
def boxesWith (u : FourCC) (d : Bytes) (types : List FourCC) : List Mp4Atom :=
  types.map fun t => ⟨t, if t = u then d else []⟩

section BoxesWith

variable (u : FourCC) (d : Bytes) (types : List FourCC)

theorem map_atomType_boxesWith : (boxesWith u d types).map Mp4Atom.atomType = types := by
  unfold boxesWith
  rw [List.map_map]
  exact List.map_id types

variable {u d types}

theorem mem_boxesWith (h : u ∈ types) : ⟨u, d⟩ ∈ boxesWith u d types :=
  List.mem_map.mpr ⟨u, h, by rw [if_pos rfl]⟩

theorem data_of_mem_boxesWith {a : Mp4Atom} (h : a ∈ boxesWith u d types) :
    a.atomType ∈ types ∧ (a.atomType = u ∧ a.data = d ∨ a.atomType ≠ u ∧ a.data = []) := by
  obtain ⟨t, ht, rfl⟩ := List.mem_map.mp h
  refine ⟨ht, ?_⟩
  by_cases htu : t = u
  · exact .inl ⟨htu, if_pos htu⟩
  · exact .inr ⟨htu, if_neg htu⟩

theorem eq_of_mem_boxesWith {a : Mp4Atom} (h : a ∈ boxesWith u d types) (hu : a.atomType = u) :
    a = ⟨u, d⟩ := by
  rcases (data_of_mem_boxesWith h).2 with ⟨-, hd⟩ | ⟨hne, -⟩
  · rw [← hu, ← hd]
  · exact absurd hu hne

theorem length_flatMap_pack_boxesWith (hd : d.length ≤ 56) :
    ((boxesWith u d types).flatMap Mp4Atom.pack).length ≤ 64 * types.length := by
  rw [Mp4Decrypter.length_flatMap_pack]
  have hle : ∀ n ∈ (boxesWith u d types).map Mp4Atom.packedLen, n ≤ 64 := by
    intro n hn
    obtain ⟨a, ha, rfl⟩ := List.mem_map.mp hn
    unfold Mp4Atom.packedLen
    rcases (data_of_mem_boxesWith ha).2 with ⟨-, h⟩ | ⟨-, h⟩
    · rw [h]
      omega
    · rw [h, List.length_nil]
      omega
  have hsum := List.sum_le_card_nsmul _ 64 hle
  rw [List.length_map, boxesWith, List.length_map, smul_eq_mul] at hsum
  unfold boxesWith
  omega

/-- Payloads of the same length make boxes of the same length. -/
theorem length_flatMap_pack_congr {d' : Bytes} (h : d.length = d'.length) :
    ((boxesWith u d types).flatMap Mp4Atom.pack).length
      = ((boxesWith u d' types).flatMap Mp4Atom.pack).length := by
  rw [Mp4Decrypter.length_flatMap_pack, Mp4Decrypter.length_flatMap_pack, boxesWith, boxesWith,
    List.map_map, List.map_map]
  congr 1
  refine List.map_congr_left fun t _ => ?_
  simp only [Function.comp_apply, Mp4Atom.packedLen]
  split
  · rw [h]
  · rfl

/-- Where there is no `moof`, only the payload of the `mdat`s changes. -/
theorem flatMap_reemit_boxesWith {m : Option Mp4Atom} {d' : Bytes} (h : FourCC.moof ∉ types) :
    ((boxesWith .mdat d types).flatMap fun a =>
        (Mp4Decrypter.reemit m (some ⟨.mdat, d'⟩) a).pack)
      = (boxesWith .mdat d' types).flatMap Mp4Atom.pack := by
  rw [boxesWith, boxesWith, List.flatMap_map, List.flatMap_map]
  refine List.flatMap_congr fun t ht => ?_
  have htm : t ≠ .moof := fun heq => h (heq ▸ ht)
  rw [Mp4Decrypter.reemit, if_neg htm]
  by_cases htd : t = .mdat
  · rw [if_pos htd, Option.getD_some, if_pos htd, htd]
  · rw [if_neg htd, if_neg htd, if_neg htd]

theorem fits_of_mem_boxesWith (hd : d.length ≤ 56) {a : Mp4Atom} (h : a ∈ boxesWith u d types) :
    a.Fits := by
  unfold Mp4Atom.Fits
  rcases (data_of_mem_boxesWith h).2 with ⟨-, hda⟩ | ⟨-, hda⟩
  · rw [hda]
    omega
  · rw [hda, List.length_nil]
    norm_num

end BoxesWith

/-! ### The forbidden pairs -/

/-- **Two boxes of one type.** The paths differ when the second has another payload. -/
theorem not_pathsAgree_of_repeated {types : List FourCC} (hty : ∀ t ∈ types, MediaType t)
    (hroom : 64 * types.length + 16 < 2 ^ 63) {u : FourCC} (hu : u = .moof ∨ u = .mdat)
    (h : List.Sublist [u, u] types) : ¬ PathsAgree types := by
  obtain ⟨r₁, r₂, rfl, h₁, h₂⟩ := List.cons_sublist_iff.mp h
  rw [List.singleton_sublist] at h₂
  set d := (Mp4Atom.mk (.lit 'f' 'r' 'e' 'e') []).pack with hd
  have hdlen : d.length = 8 := rfl
  set boxes := boxesWith u [] r₁ ++ boxesWith u d r₂ with hboxes
  have htypes : boxes.map Mp4Atom.atomType = r₁ ++ r₂ := by
    rw [hboxes, List.map_append, map_atomType_boxesWith, map_atomType_boxesWith]
  have hdata : ∀ a ∈ boxes, a.atomType ∈ r₁ ++ r₂ ∧ a.Fits ∧ (a.data = [] ∨ a.data = d) := by
    intro a ha
    rcases List.mem_append.mp ha with ha | ha
    · obtain ⟨ht, h⟩ := data_of_mem_boxesWith ha
      exact ⟨List.mem_append_left _ ht, fits_of_mem_boxesWith (by simp) ha,
        .inl (h.elim And.right And.right)⟩
    · obtain ⟨ht, h⟩ := data_of_mem_boxesWith ha
      exact ⟨List.mem_append_right _ ht, fits_of_mem_boxesWith (by omega) ha,
        (h.imp And.right And.right).symm⟩
  have hpassive : ∀ a ∈ boxes, Passive (.constant 1) a := by
    intro a ha
    obtain ⟨ht, -, h⟩ := hdata a ha
    by_cases hm : a.atomType = .moof
    · obtain ⟨t, data⟩ := a
      simp only at hm h
      subst hm
      rcases h with rfl | rfl
      · exact @passive_moof (.constant 1) [] (by simp) (by simp)
      · have hone := @passive_moof (.constant 1) [⟨.lit 'f' 'r' 'e' 'e', []⟩]
          (by simp; decide) (by simp [Mp4Atom.packedLen])
        simpa [hd] using hone
    · exact passive_of_ne_moof (.constant 1) (hty _ ht) hm
  have hlen : 16 + (boxes.flatMap Mp4Atom.pack).length < 2 ^ 63 := by
    have hl₁ := @length_flatMap_pack_boxesWith u [] r₁ (by simp)
    have hl₂ := @length_flatMap_pack_boxesWith u d r₂ (by omega)
    rw [List.length_append] at hroom
    rw [hboxes, List.flatMap_append, List.length_append]
    omega
  rw [← htypes]
  exact not_pathsAgree_of_pair (.constant 1) hu (fun a ha => hty _ (hdata a ha).1)
    (fun a ha => (hdata a ha).2.1) hlen hpassive
    (List.mem_append_left _ (mem_boxesWith h₁)) (List.mem_append_right _ (mem_boxesWith h₂))
    (fun h => by rw [← h] at hdlen; cases hdlen)

/-- The payload of a `moof` with one `traf`: a `tfhd` that gives the size 1 to the samples of
track 1, and a `senc` with one sample. -/
def oneSampleMoof : Bytes :=
  (Mp4Atom.mk .traf ((Mp4Atom.mk .tfhd (toBe 4 16 ++ toBe 4 1 ++ toBe 4 1)).pack
    ++ (Mp4Atom.mk .senc (toBe 4 0 ++ toBe 4 1 ++ toBe 8 0)).pack)).pack

/-- That `moof` makes the constant cipher change the `mdat` byte 0 to 1. -/
theorem decrypt_oneSampleMoof :
    ∃ moof s s', primed.processAtom (.constant 1) ⟨.moof, oneSampleMoof⟩ = some (moof, s) ∧
      s.processAtom (.constant 1) ⟨.mdat, [0]⟩ = some (⟨.mdat, [1]⟩, s') := by
  have hrun : ((primed.processAtom (.constant 1) ⟨.moof, oneSampleMoof⟩).bind fun r =>
      (r.2.processAtom (.constant 1) ⟨.mdat, [0]⟩).bind fun r' => some r'.1) =
        some ⟨.mdat, [1]⟩ := by
    decide +kernel
  simp only [Option.bind_eq_some_iff, Option.some.injEq, Prod.exists] at hrun
  obtain ⟨moof, s, hmoof, mdat, s', hmdat, rfl⟩ := hrun
  exact ⟨moof, s, s', hmoof, hmdat⟩

/-- The first box of a type in lists where all boxes of that type are the same. -/
theorem onFirst_eq {process : Mp4Decrypter → Mp4Atom → Option (Mp4Atom × Mp4Decrypter)}
    {s : Mp4Decrypter} {tag : FourCC} {boxes : List Mp4Atom} {a : Mp4Atom} (ha : a ∈ boxes)
    (htag : a.atomType = tag) (hsame : ∀ b ∈ boxes, b.atomType = tag → b = a) :
    Mp4Decrypter.onFirst process tag s boxes = (process s a).map fun p => (some p.1, p.2) := by
  have hfind : boxes.find? (fun b => b.atomType = tag) = some a := by
    cases h : boxes.find? (fun b => b.atomType = tag) with
    | none =>
      have := List.find?_eq_none.mp h a ha
      simp [htag] at this
    | some b =>
      have hb := List.find?_some h
      rw [hsame b (List.mem_of_find?_eq_some h) (by simpa using hb)]
  rw [Mp4Decrypter.onFirst, hfind]

/-- **An `mdat` before the `moof`.** The stream passes it on, the buffered path decrypts it with
the samples of the later `moof`. -/
theorem not_pathsAgree_of_mdat_first {types : List FourCC} (hty : ∀ t ∈ types, MediaType t)
    (hroom : 64 * types.length + 16 < 2 ^ 63) (h : List.Sublist [.mdat, .moof] types)
    (hmoofs : ¬ List.Sublist [.moof, .moof] types) (hmdats : ¬ List.Sublist [.mdat, .mdat] types) :
    ¬ PathsAgree types := by
  obtain ⟨r₁, r₂, rfl, h₁, h₂⟩ := List.cons_sublist_iff.mp h
  rw [List.singleton_sublist] at h₂
  have hne : FourCC.mdat ≠ .moof := by decide
  have hno₁ : FourCC.moof ∉ r₁ := fun hm => hmoofs
    ((List.singleton_sublist.mpr hm).append (List.singleton_sublist.mpr h₂))
  have hno₂ : FourCC.mdat ∉ r₂ := fun hm => hmdats
    ((List.singleton_sublist.mpr h₁).append (List.singleton_sublist.mpr hm))
  set as := boxesWith .mdat [0] r₁ with has
  set bs := boxesWith .moof oneSampleMoof r₂ with hbs
  have hdlen : oneSampleMoof.length = 52 := by decide +kernel
  have hty₁ : ∀ a ∈ as, MediaType a.atomType := fun a ha =>
    hty _ (List.mem_append_left _ (data_of_mem_boxesWith ha).1)
  have hty₂ : ∀ b ∈ bs, MediaType b.atomType := fun b hb =>
    hty _ (List.mem_append_right _ (data_of_mem_boxesWith hb).1)
  have hfits₁ : ∀ a ∈ as, a.Fits := fun a ha => fits_of_mem_boxesWith (by simp) ha
  have hfits₂ : ∀ b ∈ bs, b.Fits := fun b hb => fits_of_mem_boxesWith (by omega) hb
  have hlen₁ := @length_flatMap_pack_boxesWith .mdat [0] r₁ (by simp)
  have hlen₂ := @length_flatMap_pack_boxesWith .moof oneSampleMoof r₂ (by omega)
  rw [← has] at hlen₁
  rw [← hbs] at hlen₂
  have hmoof₁ : ∀ a ∈ as, a.atomType ≠ .moof := fun a ha heq =>
    hno₁ (heq ▸ (data_of_mem_boxesWith ha).1)
  have htypes : (as ++ bs).map Mp4Atom.atomType = r₁ ++ r₂ := by
    rw [List.map_append, has, hbs, map_atomType_boxesWith, map_atomType_boxesWith]
  rw [← htypes]
  intro hagree
  rw [List.length_append] at hroom
  have hfrag := hagree.fragment (.constant 1)
    (fun a ha => (List.mem_append.mp ha).elim (hty₁ a) (hty₂ a))
    (fun a ha => (List.mem_append.mp ha).elim (hfits₁ a) (hfits₂ a))
    (by rw [List.flatMap_append, List.length_append]; omega)
  -- the stream passes the boxes before the `moof` on
  obtain ⟨s', -, hstream⟩ := handleAll_passive (.constant 1) (s := primed) ⟨rfl, rfl⟩ hty₁
    (fun a ha => passive_of_ne_moof (.constant 1) (hty₁ a ha) (hmoof₁ a ha)) bs
  -- the buffered path decrypts the `mdat` among them
  obtain ⟨moof, s₁, s₂, hmoof, hmdat⟩ := decrypt_oneSampleMoof
  have hfirst : Mp4Decrypter.onFirst (Mp4Decrypter.processAtom (.constant 1)) .moof primed
      (as ++ bs) = some (some moof, s₁) := by
    have hsame : ∀ b ∈ as ++ bs, b.atomType = .moof → b = ⟨.moof, oneSampleMoof⟩ := by
      intro b hb hbt
      rcases List.mem_append.mp hb with hb | hb
      · exact absurd hbt (hmoof₁ b hb)
      · exact eq_of_mem_boxesWith hb hbt
    rw [onFirst_eq (List.mem_append_right _ (mem_boxesWith h₂)) rfl hsame, hmoof]
    rfl
  have hsecond : Mp4Decrypter.onFirst (Mp4Decrypter.processAtom (.constant 1)) .mdat s₁
      (as ++ bs) = some (some ⟨.mdat, [1]⟩, s₂) := by
    have hsame : ∀ b ∈ as ++ bs, b.atomType = .mdat → b = ⟨.mdat, [0]⟩ := by
      intro b hb hbt
      rcases List.mem_append.mp hb with hb | hb
      · exact eq_of_mem_boxesWith hb hbt
      · have hmem := (data_of_mem_boxesWith hb).1
        rw [hbt] at hmem
        exact absurd hmem hno₂
    rw [onFirst_eq (List.mem_append_left _ (mem_boxesWith h₁)) rfl hsame, hmdat]
    rfl
  rw [hstream, Mp4Decrypter.decryptFragment] at hfrag
  simp only [hfirst, hsecond, Option.bind_eq_bind, Option.bind_some, Option.pure_def] at hfrag
  cases hab : (handleAll (handleBox (.constant 1)) s' bs).2 with
  | true => rw [hab] at hfrag; cases hfrag
  | false =>
    rw [hab, if_neg Bool.false_ne_true, Option.some.injEq, List.flatMap_append] at hfrag
    -- both outputs begin with as many bytes for the boxes before the `moof`
    have hsize : ((boxesWith .mdat [1] r₁).flatMap Mp4Atom.pack).length
        = (as.flatMap Mp4Atom.pack).length := length_flatMap_pack_congr rfl
    rw [flatMap_reemit_boxesWith hno₁] at hfrag
    have hpre := List.append_inj_left hfrag hsize
    have hboxes := flatMap_pack_injective (fun a ha => fits_of_mem_boxesWith (by simp) ha) hfits₁
      (by rw [hsize]; omega) hpre
    have hmem : (⟨.mdat, [1]⟩ : Mp4Atom) ∈ as := hboxes ▸ mem_boxesWith h₁
    cases eq_of_mem_boxesWith hmem rfl

/-- **When the two paths agree.** For a sequence of box types of a media segment that fits into
memory, the buffered and the streaming path end the same way on all its boxes exactly when the
sequence is one fragment. -/
theorem pathsAgree_iff (types : List FourCC) (hty : ∀ t ∈ types, MediaType t)
    (hroom : 64 * types.length + 16 < 2 ^ 63) : PathsAgree types ↔ OneFragment types := by
  refine ⟨fun h => ?_, pathsAgree_of_oneFragment hty⟩
  have hmoofs : ¬ List.Sublist [.moof, .moof] types := fun hs =>
    not_pathsAgree_of_repeated hty hroom (.inl rfl) hs h
  have hmdats : ¬ List.Sublist [.mdat, .mdat] types := fun hs =>
    not_pathsAgree_of_repeated hty hroom (.inr rfl) hs h
  exact ⟨hmoofs, hmdats, fun hs => not_pathsAgree_of_mdat_first hty hroom hs hmoofs hmdats h⟩

/-- Two fragments, each of a `moof` without samples and an `mdat`. -/
def twoFragments : List Mp4Atom := [⟨.moof, []⟩, ⟨.mdat, [1]⟩, ⟨.moof, []⟩, ⟨.mdat, [2]⟩]

theorem pathsAgree_iff_twoFragments :
    PathsAgree (twoFragments.map Mp4Atom.atomType)
      ↔ OneFragment (twoFragments.map Mp4Atom.atomType) :=
  pathsAgree_iff _ (by decide) (by decide)

/-- The buffered path emits the first `mdat` for both fragments. -/
theorem twoFragments_not_pathsAgree :
    ¬ ∀ types : List FourCC, (∀ t ∈ types, MediaType t) → PathsAgree types := by
  intro h
  have hagree := h (twoFragments.map Mp4Atom.atomType) (by decide) (.constant 1) emptyInit
    "00".toList zeroKey twoFragments [twoFragments.flatMap Mp4Atom.pack] rfl (by decide) (by simp)
    (by decide +kernel)
  have hbatch : batchOutcome (decryptSegment (.constant 1) emptyInit.bytes
      (twoFragments.flatMap Mp4Atom.pack) "00".toList zeroKey false)
      = .bytes ([⟨.moof, []⟩, ⟨.mdat, [1]⟩, ⟨.moof, []⟩, ⟨.mdat, [1]⟩].flatMap Mp4Atom.pack) := by
    decide +kernel
  have hstream : streamOutcome (decryptSegmentStreaming (.constant 1) emptyInit.bytes
      [.ok (twoFragments.flatMap Mp4Atom.pack)] "00".toList zeroKey false)
      = .bytes (twoFragments.flatMap Mp4Atom.pack) := by
    decide +kernel
  rw [hbatch] at hagree
  have hbytes := hagree.trans hstream
  revert hbytes
  decide +kernel

end MediaFlow
