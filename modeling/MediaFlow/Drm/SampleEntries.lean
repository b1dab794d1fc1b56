import MediaFlow.Drm.MoofOffsets

/-!
# Sample entries

What `processStsd` makes of a table of well-formed sample entries. An entry has the fixed fields of
its media kind and then boxes; a protected entry has one `sinf` among them, whose `frma` names the
codec. `processSampleEntry` finds the boxes by a table of types (`sampleEntryFixedSize`), with 16
bytes of fixed fields for every type that is not in it, and packs again what it reads.

* `processSampleEntry_self_iff`: which entries are returned as they are, whatever their bytes;
* `processSampleEntry_protected`: what a protected entry becomes;
* `onlyProtectedChange_iff`: for which tables only the protected entries change.
-/

open ByteString Emit

namespace MediaFlow

/-- Box types that `process_sample_entry` takes out of an entry next to `sinf`. -/
def isStray (t : FourCC) : Bool := t = .schi ∨ t = .tenc ∨ t = .schm

/-- The types that it takes out. -/
def isProtection (t : FourCC) : Bool := t = .sinf ∨ isStray t

/-! ### Well-formed tables -/

/-- The two kinds of sample entries with fixed fields of their own. -/
inductive MediaKind where
  | audio
  | video
deriving DecidableEq

/-- The bytes of an entry before its boxes: `AudioSampleEntry` and `VisualSampleEntry`. -/
def MediaKind.fixedSize : MediaKind → ℕ
  | audio => 28
  | video => 78

/-- The type of a protected entry. -/
def MediaKind.protectedType : MediaKind → FourCC
  | audio => .lit 'e' 'n' 'c' 'a'
  | video => .lit 'e' 'n' 'c' 'v'

/-- The content of a `sinf`: one `frma`, and other boxes around it. -/
structure ProtectionInfo where
  format : FourCC
  before : List Mp4Atom
  after : List Mp4Atom
  one_frma : ∀ a ∈ before ++ after, a.atomType ≠ .frma
  /-- The scheme information is made of boxes. -/
  schi : ∀ a ∈ before ++ after, a.atomType = .schi →
    ∃ l : List Mp4Atom, a.data = l.flatMap Mp4Atom.pack

namespace ProtectionInfo

variable (p : ProtectionInfo)

def frma : Mp4Atom := ⟨.frma, p.format.bytes⟩

def boxes : List Mp4Atom := p.before ++ p.frma :: p.after

def box : Mp4Atom := ⟨.sinf, p.boxes.flatMap Mp4Atom.pack⟩

end ProtectionInfo

/-- A well-formed sample entry. A clear one may have any type, a protected one has that of its
kind and the `sinf` between its other boxes. -/
structure SampleEntry where
  kind : MediaKind
  codec : FourCC
  fixed : Bytes
  before : List Mp4Atom
  protection : Option ProtectionInfo
  after : List Mp4Atom
  fixed_length : fixed.length = kind.fixedSize
  codec_protected : protection.isSome → codec = kind.protectedType
  one_sinf : ∀ a ∈ before ++ after, a.atomType ≠ .sinf

namespace SampleEntry

variable (e : SampleEntry)

def children : List Mp4Atom := e.before ++ (e.protection.map ProtectionInfo.box).toList ++ e.after

def box : Mp4Atom := ⟨e.codec, e.fixed ++ e.children.flatMap Mp4Atom.pack⟩

/-- The entry without its protection: the `sinf` removed, the type that of its `frma`. -/
def unprotected : SampleEntry where
  kind := e.kind
  codec := (e.protection.map ProtectionInfo.format).getD e.codec
  fixed := e.fixed
  before := e.before
  protection := none
  after := e.after
  fixed_length := e.fixed_length
  codec_protected := fun h => absurd h Bool.false_ne_true
  one_sinf := e.one_sinf

theorem unprotected_of_none (h : e.protection = none) : e.unprotected = e := by
  obtain ⟨kind, codec, fixed, before, protection, after⟩ := e
  cases h
  rfl

theorem unprotected_box :
    e.unprotected.box = ⟨(e.protection.map ProtectionInfo.format).getD e.codec,
      e.fixed ++ (e.before ++ e.after).flatMap Mp4Atom.pack⟩ := by
  simp [unprotected, box, children]

end SampleEntry

/-- A well-formed `stsd`: version, flags and the number of entries, then the entries. Its size
fits 32 bits, and with it the size of every box inside. -/
structure SampleTable where
  versionFlags : Bytes
  entries : List SampleEntry
  versionFlags_length : versionFlags.length = 4
  fits : 16 + (entries.flatMap fun e => e.box.pack).length < 2 ^ 32

namespace SampleTable

variable (t : SampleTable)

def header : Bytes := t.versionFlags ++ toBe 4 t.entries.length

def box : Mp4Atom := ⟨.stsd, t.header ++ t.entries.flatMap fun e => e.box.pack⟩

/-- The `stsd` with the protection of every entry removed. -/
def unprotectedBox : Mp4Atom :=
  ⟨.stsd, t.header ++ t.entries.flatMap fun e => e.unprotected.box.pack⟩

end SampleTable

namespace Mp4Decrypter

/-- **Only protected entries change**, and applying `process_stsd` twice is applying it once. -/
def OnlyProtectedChange (s : Mp4Decrypter) (t : SampleTable) : Prop :=
  ∃ s₁, processStsd s t.box = some (t.unprotectedBox, s₁) ∧
    ∃ s₂, processStsd s₁ t.unprotectedBox = some (t.unprotectedBox, s₂)

/-! ### One entry -/

/-- From the offset of the table on, the entry is a sequence of boxes that stay. -/
def Tiled (entry : Mp4Atom) : Prop :=
  ∃ l : List Mp4Atom, (∀ a ∈ l, isProtection a.atomType = false) ∧
    entry.data.drop (sampleEntryFixedSize entry.atomType) = l.flatMap Mp4Atom.pack

/-- The boxes of an entry that are kept. -/
def kept (l : List Mp4Atom) : List Mp4Atom := l.filter fun a => !isProtection a.atomType

theorem kept_singleton_of_protection {a : Mp4Atom} (h : isProtection a.atomType = true) :
    kept [a] = [] := List.filter_eq_nil_iff.mpr (by simp [h])

theorem kept_singleton {a : Mp4Atom} (h : isProtection a.atomType = false) : kept [a] = [a] :=
  List.filter_eq_self.mpr (by simp [h])

theorem kept_append (l m : List Mp4Atom) : kept (l ++ m) = kept l ++ kept m :=
  List.filter_append ..

theorem kept_eq_self {l : List Mp4Atom} (h : ∀ a ∈ l, isProtection a.atomType = false) :
    kept l = l := List.filter_eq_self.mpr fun a ha => by simp [h a ha]

theorem sampleEntryChild_kept {st st' : Mp4Decrypter × Option FourCC} {a : Mp4Atom} {out : Bytes}
    (h : sampleEntryChild st a = some (out, st')) : out = (kept [a]).flatMap Mp4Atom.pack := by
  unfold sampleEntryChild at h
  by_cases h₁ : a.atomType = .sinf
  · rw [if_pos h₁] at h
    obtain ⟨st₁, -, hst⟩ := Option.bind_eq_some_iff.mp h
    cases hst
    rw [kept_singleton_of_protection (by simp [isProtection, h₁])]
    rfl
  · rw [if_neg h₁] at h
    by_cases h₂ : a.atomType = .schi ∨ a.atomType = .tenc ∨ a.atomType = .schm
    · rw [if_pos h₂] at h
      cases h
      rw [kept_singleton_of_protection (decide_eq_true (.inr (decide_eq_true h₂)))]
      rfl
    · rw [if_neg h₂] at h
      cases h
      have hstray : isStray a.atomType = false := decide_eq_false h₂
      rw [kept_singleton (by simp [isProtection, h₁, hstray]), List.flatMap_singleton]

theorem emitAll_sampleEntryChild_kept {st st' : Mp4Decrypter × Option FourCC} {l : List Mp4Atom}
    {out : Bytes} (h : emitAll sampleEntryChild st l = some (out, st')) :
    out = (kept l).flatMap Mp4Atom.pack := by
  induction l generalizing st out with
  | nil =>
    cases h
    rfl
  | cons a l ih =>
    obtain ⟨out₁, st₁, out₂, h₁, h₂, rfl⟩ := emitAll_cons_eq_some.mp h
    rw [sampleEntryChild_kept h₁, ih h₂, ← List.flatMap_append, ← kept_append]
    rfl

/-- Boxes other than `sinf` leave the format alone. -/
theorem emitAll_sampleEntryChild_of_ne (st : Mp4Decrypter × Option FourCC) {l : List Mp4Atom}
    (h : ∀ a ∈ l, a.atomType ≠ .sinf) :
    emitAll sampleEntryChild st l = some ((kept l).flatMap Mp4Atom.pack, st) := by
  have hstep : ∀ a ∈ l, ∃ out, sampleEntryChild st a = some (out, st) := by
    intro a ha
    unfold sampleEntryChild
    rw [if_neg (h a ha)]
    split
    · exact ⟨[], rfl⟩
    · exact ⟨a.pack, rfl⟩
  have hrun : ∃ out, emitAll sampleEntryChild st l = some (out, st) := by
    clear h
    induction l with
    | nil => exact ⟨[], rfl⟩
    | cons a l ih =>
      obtain ⟨out₁, h₁⟩ := hstep a List.mem_cons_self
      obtain ⟨out₂, h₂⟩ := ih fun b hb => hstep b (List.mem_cons_of_mem a hb)
      exact ⟨out₁ ++ out₂, emitAll_cons_eq_some.mpr ⟨out₁, st, out₂, h₁, h₂, rfl⟩⟩
  obtain ⟨out, hout⟩ := hrun
  rw [hout, emitAll_sampleEntryChild_kept hout]

/-- Where as many bytes are kept as there are, every box is. -/
theorem protection_eq_false_of_length_le {l : List Mp4Atom}
    (h : (l.flatMap Mp4Atom.pack).length ≤ ((kept l).flatMap Mp4Atom.pack).length) :
    ∀ a ∈ l, isProtection a.atomType = false := by
  have hsplit : (l.flatMap Mp4Atom.pack).length = ((kept l).flatMap Mp4Atom.pack).length
      + ((l.filter fun a => isProtection a.atomType).flatMap Mp4Atom.pack).length := by
    rw [Nat.add_comm, ← List.length_append, ← List.flatMap_append]
    exact ((List.filter_append_perm (fun a : Mp4Atom => isProtection a.atomType) l).flatMap_right
      Mp4Atom.pack).length_eq.symm
  intro a ha
  by_contra hp
  -- a box that is taken out would leave a gap
  have hnil : (l.filter fun a => isProtection a.atomType).flatMap Mp4Atom.pack = [] :=
    List.length_eq_zero_iff.mp (by omega)
  have hpack := List.flatMap_eq_nil_iff.mp hnil a (List.mem_filter.mpr ⟨ha, by simpa using hp⟩)
  have hpos : 0 < a.pack.length := by
    rw [Mp4Atom.length_pack]
    exact Nat.succ_pos _
  rw [hpack] at hpos
  exact lt_irrefl 0 hpos

theorem ne_sinf_of_protection {l : List Mp4Atom} (h : ∀ a ∈ l, isProtection a.atomType = false) :
    ∀ a ∈ l, a.atomType ≠ .sinf := by
  intro a ha hsinf
  have hp := h a ha
  rw [hsinf] at hp
  exact Bool.noConfusion hp

/-- **An entry is returned as it is** exactly when it is tiled. -/
theorem processSampleEntry_self_iff (s : Mp4Decrypter) {entry : Mp4Atom} (hfits : entry.Fits) :
    (processSampleEntry s entry).map Prod.fst = some entry ↔ Tiled entry := by
  set rest := entry.data.drop (sampleEntryFixedSize entry.atomType) with hrest
  have hlen : rest.length < 2 ^ 32 := by
    have : entry.data.length + 8 < 2 ^ 32 := hfits
    rw [hrest, List.length_drop]
    omega
  unfold processSampleEntry Tiled
  simp only [← hrest]
  split
  · next hshort =>
    refine iff_of_true rfl ⟨[], fun a ha => absurd ha List.not_mem_nil, ?_⟩
    rw [hrest, List.drop_of_length_le (by omega)]
    rfl
  · next hlong =>
    constructor
    · intro h
      obtain ⟨⟨a, s'⟩, hres, rfl⟩ := Option.map_eq_some_iff.mp h
      obtain ⟨atoms, hatoms, hres⟩ := Option.bind_eq_some_iff.mp hres
      obtain ⟨⟨out, s₁, codec⟩, hout, hres⟩ := Option.bind_eq_some_iff.mp hres
      have hdata : a.data.take (sampleEntryFixedSize a.atomType) ++ out = a.data :=
        congrArg (fun r : Mp4Atom × Mp4Decrypter => r.1.data) (Option.some.inj hres)
      have hout' : out = rest := by
        refine List.append_cancel_left (hdata.trans ?_)
        exact (List.take_append_drop _ _).symm
      have hkept := emitAll_sampleEntryChild_kept hout
      rw [hout'] at hkept
      -- nothing that is read may be taken out, and nothing may be left unread
      have hlength := length_eq_of_listAtoms hatoms
      rw [← length_flatMap_pack] at hlength
      have hall := protection_eq_false_of_length_le (l := atoms) (by rw [← hkept]; omega)
      rw [kept_eq_self hall] at hkept
      exact ⟨atoms, hall, hkept⟩
    · rintro ⟨l, hl, hpack⟩
      rw [hpack] at hlen ⊢
      have hread : listAtoms (l.flatMap Mp4Atom.pack) = some l := childrenOf_flatMap_pack hlen
      rw [hread, Option.bind_eq_bind, Option.bind_some, emitAll_sampleEntryChild_of_ne _
        (ne_sinf_of_protection hl), kept_eq_self hl, ← hpack, hrest]
      show some _ = _
      rw [Option.getD_none, List.take_append_drop]

/-- For the types of the table an entry is tiled by its boxes. -/
theorem tiled_of_fixedSize_eq {e : SampleEntry} (h : sampleEntryFixedSize e.codec = e.fixed.length)
    (hboxes : ∀ a ∈ e.children, isProtection a.atomType = false) : Tiled e.box := by
  refine ⟨e.children, hboxes, ?_⟩
  rw [SampleEntry.box, h, List.drop_left]

/-! ### A protected entry -/

theorem parseSchi_isSome (s : Mp4Decrypter) {schi : Mp4Atom} {l : List Mp4Atom}
    (hdata : schi.data = l.flatMap Mp4Atom.pack) (hlen : schi.data.length < 2 ^ 32) :
    ∃ s', parseSchi s schi = some s' := by
  rw [hdata] at hlen
  rw [parseSchi, hdata, childrenOf_flatMap_pack hlen]
  exact ⟨_, rfl⟩

/-- Boxes of a `sinf` other than `frma` leave the format alone. -/
theorem foldlM_sinfChild_of_ne (s : Mp4Decrypter) (format : Option FourCC) {l : List Mp4Atom}
    (hne : ∀ a ∈ l, a.atomType ≠ .frma)
    (hschi : ∀ a ∈ l, a.atomType = .schi → ∃ k : List Mp4Atom, a.data = k.flatMap Mp4Atom.pack)
    (hlen : (l.flatMap Mp4Atom.pack).length < 2 ^ 32) :
    ∃ s', List.foldlM sinfChild (s, format) l = some (s', format) := by
  induction l generalizing s with
  | nil => exact ⟨s, rfl⟩
  | cons a l ih =>
    rw [List.flatMap_cons, List.length_append, Mp4Atom.length_pack, Mp4Atom.packedLen] at hlen
    have hstep : ∃ s₁, sinfChild (s, format) a = some (s₁, format) := by
      unfold sinfChild
      rw [if_neg fun h => hne a List.mem_cons_self h.1]
      split
      · exact ⟨_, rfl⟩
      split
      · next h =>
        obtain ⟨k, hk⟩ := hschi a List.mem_cons_self h
        obtain ⟨s₁, hs₁⟩ := parseSchi_isSome s hk (by omega)
        exact ⟨s₁, by rw [hs₁]; rfl⟩
      · exact ⟨s, rfl⟩
    obtain ⟨s₁, hs₁⟩ := hstep
    obtain ⟨s', hs'⟩ := ih s₁ (fun b hb => hne b (List.mem_cons_of_mem a hb))
      (fun b hb => hschi b (List.mem_cons_of_mem a hb)) (by omega)
    exact ⟨s', by rw [List.foldlM_cons, hs₁]; exact hs'⟩

/-- The format of a well-formed `sinf` is that of its `frma`. -/
theorem extractCodecFormat_eq (s : Mp4Decrypter) (p : ProtectionInfo)
    (hlen : p.box.data.length < 2 ^ 32) :
    ∃ s', extractCodecFormat s p.box = some (s', some p.format) := by
  have hboxes : p.boxes.flatMap Mp4Atom.pack
      = p.before.flatMap Mp4Atom.pack ++ (p.frma.pack ++ p.after.flatMap Mp4Atom.pack) := by
    rw [ProtectionInfo.boxes, List.flatMap_append, List.flatMap_cons]
  have hsum : p.box.data.length = (p.before.flatMap Mp4Atom.pack).length
      + (p.frma.pack.length + (p.after.flatMap Mp4Atom.pack).length) := by
    rw [ProtectionInfo.box, hboxes, List.length_append, List.length_append]
  obtain ⟨s₁, hs₁⟩ := foldlM_sinfChild_of_ne s none
    (fun a ha => p.one_frma a (List.mem_append_left _ ha))
    (fun a ha => p.schi a (List.mem_append_left _ ha)) (by omega)
  obtain ⟨s₂, hs₂⟩ := foldlM_sinfChild_of_ne s₁ (some p.format)
    (fun a ha => p.one_frma a (List.mem_append_right _ ha))
    (fun a ha => p.schi a (List.mem_append_right _ ha)) (by omega)
  have hfrma : sinfChild (s₁, none) p.frma = some (s₁, some p.format) := by
    unfold sinfChild
    rw [if_pos ⟨rfl, le_rfl⟩]
    rfl
  refine ⟨s₂, ?_⟩
  unfold extractCodecFormat
  rw [ProtectionInfo.box, childrenOf_flatMap_pack hlen, Option.bind_eq_bind, Option.bind_some,
    ProtectionInfo.boxes, List.foldlM_append, hs₁, Option.bind_eq_bind, Option.bind_some,
    List.foldlM_cons, hfrma, Option.bind_eq_bind, Option.bind_some, hs₂]

theorem sampleEntryFixedSize_protectedType (k : MediaKind) :
    sampleEntryFixedSize k.protectedType = k.fixedSize := by
  cases k <;> decide

/-- **A protected entry** gets the type of its `frma` and loses its `sinf`, and any other box that
is taken out. -/
theorem processSampleEntry_protected (s : Mp4Decrypter) {e : SampleEntry} {p : ProtectionInfo}
    (hp : e.protection = some p) (hfits : e.box.Fits) :
    ∃ s', processSampleEntry s e.box = some (⟨p.format,
      e.fixed ++ (kept (e.before ++ e.after)).flatMap Mp4Atom.pack⟩, s') := by
  have hcodec : sampleEntryFixedSize e.codec = e.fixed.length := by
    rw [e.codec_protected (by rw [hp]; rfl), sampleEntryFixedSize_protectedType, e.fixed_length]
  have hchildren : e.children = e.before ++ p.box :: e.after := by
    simp [SampleEntry.children, hp]
  have hdata : e.box.data = e.fixed ++ e.children.flatMap Mp4Atom.pack := rfl
  have hlen : (e.children.flatMap Mp4Atom.pack).length < 2 ^ 32 := by
    have : e.box.data.length + 8 < 2 ^ 32 := hfits
    rw [hdata, List.length_append] at this
    omega
  have hbox : p.box.data.length < 2 ^ 32 := by
    have hle : p.box.packedLen ≤ (e.children.map Mp4Atom.packedLen).sum :=
      packedLen_le_sum (by rw [hchildren]; simp)
    rw [← length_flatMap_pack, Mp4Atom.packedLen] at hle
    omega
  obtain ⟨s', hs'⟩ := extractCodecFormat_eq s p hbox
  have hsinf : sampleEntryChild (s, none) p.box = some ([], (s', some p.format)) := by
    have hty : p.box.atomType = .sinf := rfl
    unfold sampleEntryChild
    rw [if_pos hty, hs']
    rfl
  have hrun : emitAll sampleEntryChild (s, none) e.children
      = some ((kept (e.before ++ e.after)).flatMap Mp4Atom.pack, (s', some p.format)) := by
    have hbefore := emitAll_sampleEntryChild_of_ne (s, none) (l := e.before)
      fun a ha => e.one_sinf a (List.mem_append_left _ ha)
    have hafter := emitAll_sampleEntryChild_of_ne (s', some p.format) (l := e.after)
      fun a ha => e.one_sinf a (List.mem_append_right _ ha)
    have hrest : emitAll sampleEntryChild (s, none) (p.box :: e.after)
        = some ((kept e.after).flatMap Mp4Atom.pack, (s', some p.format)) :=
      emitAll_cons_eq_some.mpr ⟨[], _, _, hsinf, hafter, rfl⟩
    rw [hchildren, emitAll_append hbefore hrest, kept_append, List.flatMap_append]
  have hread : listAtoms (e.children.flatMap Mp4Atom.pack) = some e.children :=
    childrenOf_flatMap_pack hlen
  refine ⟨s', ?_⟩
  have hdrop : e.box.data.drop (sampleEntryFixedSize e.box.atomType)
      = e.children.flatMap Mp4Atom.pack := by
    rw [SampleEntry.box, hcodec, List.drop_left]
  have htake : e.box.data.take (sampleEntryFixedSize e.box.atomType) = e.fixed := by
    rw [SampleEntry.box, hcodec, List.take_left]
  have hlong : ¬ e.box.data.length < sampleEntryFixedSize e.box.atomType := by
    rw [SampleEntry.box, hcodec, List.length_append]
    omega
  unfold processSampleEntry
  simp only [if_neg hlong, hdrop, htake, hread, hrun, Option.bind_eq_bind, Option.bind_some,
    Option.pure_def, Option.getD_some]

/-- What happens to an entry is what should. -/
def UnprotectedExactly (e : SampleEntry) : Prop :=
  if e.protection.isSome then ∀ a ∈ e.before ++ e.after, isStray a.atomType = false
  else Tiled e.box

theorem isProtection_eq_isStray {a : Mp4Atom} (h : a.atomType ≠ .sinf) :
    isProtection a.atomType = isStray a.atomType := by
  simp [isProtection, h]

theorem processSampleEntry_unprotected_iff (s : Mp4Decrypter) {e : SampleEntry}
    (hfits : e.box.Fits) :
    (processSampleEntry s e.box).map Prod.fst = some e.unprotected.box ↔ UnprotectedExactly e := by
  unfold UnprotectedExactly
  cases hp : e.protection with
  | none =>
    rw [e.unprotected_of_none hp, Option.isSome_none, if_neg Bool.false_ne_true]
    exact processSampleEntry_self_iff s hfits
  | some p =>
    obtain ⟨s', hs'⟩ := processSampleEntry_protected s hp hfits
    have hstray : ∀ a ∈ e.before ++ e.after, isProtection a.atomType = isStray a.atomType :=
      fun a ha => isProtection_eq_isStray (e.one_sinf a ha)
    rw [hs', Option.isSome_some, if_pos rfl, e.unprotected_box, hp, Option.map_some,
      Option.map_some, Option.getD_some, Option.some.injEq, Mp4Atom.mk.injEq,
      List.append_right_inj, eq_self_iff_true, true_and]
    constructor
    · intro h a ha
      rw [← hstray a ha]
      exact protection_eq_false_of_length_le (by rw [h]) a ha
    · intro h
      rw [kept_eq_self fun a ha => (hstray a ha).trans (h a ha)]

/-! ### All entries -/

/-- One iteration over the entries. -/
def entryStep (s : Mp4Decrypter) (entry : Mp4Atom) : Option (Bytes × Mp4Decrypter) :=
  (processSampleEntry s entry).map fun p => (p.1.pack, p.2)

/-- A table of packed entries is processed entry by entry. -/
theorem stsdEntries_pack (entries : List Mp4Atom) (pre : Bytes)
    (hlen : (pre ++ entries.flatMap Mp4Atom.pack).length < 2 ^ 32) (s : Mp4Decrypter) :
    stsdEntries (pre ++ entries.flatMap Mp4Atom.pack) entries.length pre.length s
      = emitAll entryStep s entries := by
  induction entries generalizing pre s with
  | nil => rfl
  | cons a entries ih =>
    have hfits : a.Fits := by
      rw [List.flatMap_cons, List.length_append, List.length_append, Mp4Atom.length_pack] at hlen
      exact lt_of_le_of_lt (by unfold Mp4Atom.packedLen; omega) hlen
    rw [List.flatMap_cons, ← List.append_assoc] at hlen ⊢
    have hread := readAtomAt_pack pre (entries.flatMap Mp4Atom.pack) hfits (by omega)
    have hnext : pre.length + a.packedLen = (pre ++ a.pack).length := by
      rw [List.length_append, Mp4Atom.length_pack]
    rw [List.length_cons, stsdEntries, hread, hnext, Option.bind_eq_bind, Option.bind_some, emitAll,
      entryStep]
    dsimp only
    cases processSampleEntry s a with
    | none => rfl
    | some p =>
      simp only [Option.bind_eq_bind, Option.bind_some, Option.map_some, ih (pre ++ a.pack) hlen]

theorem processStsd_eq (s : Mp4Decrypter) {versionFlags : Bytes} (entries : List Mp4Atom)
    (hversion : versionFlags.length = 4)
    (hlen : 16 + (entries.flatMap Mp4Atom.pack).length < 2 ^ 32) :
    processStsd s ⟨.stsd, versionFlags ++ toBe 4 entries.length ++ entries.flatMap Mp4Atom.pack⟩
      = (emitAll entryStep s entries).map fun r =>
        (⟨.stsd, versionFlags ++ toBe 4 entries.length ++ r.1⟩, r.2) := by
  have hheader : (versionFlags ++ toBe 4 entries.length).length = 8 := by
    rw [List.length_append, hversion, length_toBe]
  have hcount : entries.length ≤ (entries.flatMap Mp4Atom.pack).length := by
    have h := length_le_length_flatMap_encode (entries.map fun a => (a, HeaderForm.short))
    rw [List.length_map, List.flatMap_map] at h
    exact h
  have hn : beAt (versionFlags ++ toBe 4 entries.length ++ entries.flatMap Mp4Atom.pack) 4 4
      = entries.length := by
    have h := beAt_append_right versionFlags (toBe 4 entries.length ++ entries.flatMap Mp4Atom.pack)
      0 4
    rw [hversion, Nat.add_zero, ← List.append_assoc] at h
    rw [h, beAt, List.drop_zero, List.take_left' (length_toBe 4 _), ofBe_toBe (by omega)]
  unfold processStsd
  rw [if_neg (by rw [List.length_append, hheader]; omega), List.drop_left' hheader,
    List.take_left' hheader, hn]
  have hrun := stsdEntries_pack entries [] (by rw [List.nil_append]; omega) s
  rw [List.nil_append, List.length_nil] at hrun
  rw [hrun]
  cases emitAll entryStep s entries <;> rfl

/-- A processed entry is not longer than it was. -/
theorem fits_of_processSampleEntry {s s' : Mp4Decrypter} {entry a : Mp4Atom} (hfits : entry.Fits)
    (h : processSampleEntry s entry = some (a, s')) : a.Fits := by
  unfold processSampleEntry at h
  dsimp only at h
  split at h
  · cases h
    exact hfits
  · obtain ⟨atoms, hatoms, h⟩ := Option.bind_eq_some_iff.mp h
    obtain ⟨⟨out, s₁, codec⟩, hout, h⟩ := Option.bind_eq_some_iff.mp h
    cases h
    have hlength := length_eq_of_listAtoms hatoms
    rw [← length_flatMap_pack] at hlength
    have hkept : out.length ≤ (atoms.flatMap Mp4Atom.pack).length := by
      rw [emitAll_sampleEntryChild_kept hout]
      exact (List.filter_sublist.flatMap Mp4Atom.pack).length_le
    have hall : entry.data.length + 8 < 2 ^ 32 := hfits
    rw [List.length_drop] at hlength
    show (List.take _ entry.data ++ out).length + 8 < 2 ^ 32
    rw [List.length_append, List.length_take]
    omega

/-- Packed boxes are told apart. -/
theorem pack_append_inj {a b : Mp4Atom} {x y : Bytes} (ha : a.Fits) (hb : b.Fits)
    (hlen : (a.pack ++ x).length < 2 ^ 32) (h : a.pack ++ x = b.pack ++ y) : a = b ∧ x = y := by
  have hreadA := readAtomAt_pack [] x ha (by rw [List.nil_append]; omega)
  have hreadB := readAtomAt_pack [] y hb (by rw [List.nil_append, ← h]; omega)
  rw [List.nil_append] at hreadA hreadB
  rw [h, hreadB, Option.some.injEq, Option.some.injEq, Prod.mk.injEq] at hreadA
  obtain ⟨rfl, -⟩ := hreadA
  exact ⟨rfl, List.append_cancel_left h⟩

/-- The run over the entries makes of each what should be made of it, if every step does. -/
theorem emitAll_entryStep_iff {l : List SampleEntry} {i o : SampleEntry → Mp4Atom}
    {C : SampleEntry → Prop} (hi : ∀ e ∈ l, (i e).Fits)
    (hC : ∀ s, ∀ e ∈ l, (processSampleEntry s (i e)).map Prod.fst = some (o e) ↔ C e)
    (hlen : ((l.map o).flatMap Mp4Atom.pack).length < 2 ^ 32) (s : Mp4Decrypter) :
    (∃ s', emitAll entryStep s (l.map i) = some ((l.map o).flatMap Mp4Atom.pack, s')) ↔
      ∀ e ∈ l, C e := by
  induction l generalizing s with
  | nil => exact iff_of_true ⟨s, rfl⟩ fun e he => absurd he List.not_mem_nil
  | cons e l ih =>
    rw [List.map_cons, List.flatMap_cons] at hlen
    have htail := ih (fun b hb => hi b (List.mem_cons_of_mem e hb))
      (fun s b hb => hC s b (List.mem_cons_of_mem e hb))
      (by rw [List.length_append] at hlen; omega)
    have ho : (o e).Fits := by
      rw [List.length_append, Mp4Atom.length_pack] at hlen
      exact lt_of_le_of_lt (by unfold Mp4Atom.packedLen; omega) hlen
    rw [List.forall_mem_cons, List.map_cons, List.map_cons, List.flatMap_cons]
    constructor
    · rintro ⟨s', hrun⟩
      obtain ⟨out₁, s₁, out₂, hstep, hrest, heq⟩ := emitAll_cons_eq_some.mp hrun
      obtain ⟨⟨a, s₂⟩, ha, hres⟩ := Option.map_eq_some_iff.mp hstep
      cases hres
      have hfits := fits_of_processSampleEntry (hi e List.mem_cons_self) ha
      obtain ⟨hae, htl⟩ := pack_append_inj ho hfits hlen heq
      refine ⟨(hC s e List.mem_cons_self).mp (by rw [ha, Option.map_some, hae]), ?_⟩
      exact (htail s₂).mp ⟨s', htl ▸ hrest⟩
    · rintro ⟨he, hl⟩
      obtain ⟨⟨a, s₁⟩, ha, hres⟩ := Option.map_eq_some_iff.mp ((hC s e List.mem_cons_self).mpr he)
      obtain ⟨s', hrest⟩ := (htail s₁).mpr hl
      refine ⟨s', emitAll_cons_eq_some.mpr ⟨a.pack, s₁, _, ?_, hrest, ?_⟩⟩
      · rw [entryStep, ha, Option.map_some]
      · rw [← hres]

/-! ### The table -/

section Table

variable (t : SampleTable)

theorem fits_of_mem_entries {e : SampleEntry} (he : e ∈ t.entries) : e.box.Fits := by
  have hfits := t.fits
  have hle : e.box.packedLen ≤ ((t.entries.map SampleEntry.box).map Mp4Atom.packedLen).sum :=
    packedLen_le_sum (List.mem_map_of_mem he)
  rw [← length_flatMap_pack, List.flatMap_map] at hle
  exact lt_of_le_of_lt hle (by omega)

theorem length_unprotected_le (e : SampleEntry) :
    e.unprotected.box.packedLen ≤ e.box.packedLen := by
  rw [e.unprotected_box]
  simp only [Mp4Atom.packedLen, SampleEntry.box, SampleEntry.children, List.flatMap_append,
    List.length_append]
  omega

theorem length_unprotectedBox_le :
    (t.entries.flatMap fun e => e.unprotected.box.pack).length
      ≤ (t.entries.flatMap fun e => e.box.pack).length := by
  rw [List.length_flatMap, List.length_flatMap]
  refine List.sum_le_sum fun e _ => ?_
  rw [Mp4Atom.length_pack, Mp4Atom.length_pack]
  exact length_unprotected_le e

/-- `process_stsd` on a table, as a run over its entries. -/
theorem processStsd_table (s : Mp4Decrypter) (i : SampleEntry → Mp4Atom)
    (hlen : 16 + (t.entries.flatMap fun e => (i e).pack).length < 2 ^ 32) :
    processStsd s ⟨.stsd, t.header ++ t.entries.flatMap fun e => (i e).pack⟩
      = (emitAll entryStep s (t.entries.map i)).map fun r =>
        (⟨.stsd, t.header ++ r.1⟩, r.2) := by
  have h := processStsd_eq s (t.entries.map i) t.versionFlags_length
    (by rw [List.flatMap_map]; exact hlen)
  rw [List.length_map, List.flatMap_map] at h
  exact h

/-- One pass gives the unprotected table, if every entry becomes what it should. -/
theorem processStsd_unprotected_iff (s : Mp4Decrypter) {i : SampleEntry → Mp4Atom}
    {C : SampleEntry → Prop} (hi : ∀ e ∈ t.entries, (i e).Fits)
    (hlen : 16 + (t.entries.flatMap fun e => (i e).pack).length < 2 ^ 32)
    (hC : ∀ s, ∀ e ∈ t.entries,
      (processSampleEntry s (i e)).map Prod.fst = some e.unprotected.box ↔ C e) :
    (∃ s', processStsd s ⟨.stsd, t.header ++ t.entries.flatMap fun e => (i e).pack⟩
        = some (t.unprotectedBox, s')) ↔ ∀ e ∈ t.entries, C e := by
  have hout : ((t.entries.map fun e => e.unprotected.box).flatMap Mp4Atom.pack).length
      < 2 ^ 32 := by
    have hle := length_unprotectedBox_le t
    have hfits := t.fits
    rw [List.flatMap_map]
    omega
  rw [← emitAll_entryStep_iff hi hC hout s, processStsd_table t s i hlen]
  constructor
  · rintro ⟨s', h⟩
    obtain ⟨⟨out, s₁⟩, hrun, heq⟩ := Option.map_eq_some_iff.mp h
    have hdata : t.header ++ out = t.header ++ t.entries.flatMap fun e => e.unprotected.box.pack :=
      congrArg (fun r : Mp4Atom × Mp4Decrypter => r.1.data) heq
    rw [hrun, List.append_cancel_left hdata, List.flatMap_map]
    exact ⟨s₁, rfl⟩
  · rintro ⟨s', h⟩
    refine ⟨s', ?_⟩
    rw [h, Option.map_some, List.flatMap_map]
    rfl

/-- **Only protected entries change, and a second pass changes nothing**, exactly when every
protected entry has no box but its `sinf` that is taken out, and every entry, without its
protection, is tiled. -/
theorem onlyProtectedChange_iff (s : Mp4Decrypter) :
    OnlyProtectedChange s t ↔ ∀ e ∈ t.entries,
      (e.protection.isSome → ∀ a ∈ e.before ++ e.after, isStray a.atomType = false) ∧
        Tiled e.unprotected.box := by
  have hfits := t.fits
  have hle := length_unprotectedBox_le t
  have hunprotected : ∀ e ∈ t.entries, e.unprotected.box.Fits := fun e he =>
    lt_of_le_of_lt (length_unprotected_le e) (fits_of_mem_entries t he)
  have hfirst := processStsd_unprotected_iff t s (fun e he => fits_of_mem_entries t he) hfits
    (fun s e he => processSampleEntry_unprotected_iff s (fits_of_mem_entries t he))
  have hsecond := fun s₁ => processStsd_unprotected_iff t s₁ hunprotected (by omega)
    (fun s e he => processSampleEntry_self_iff s (hunprotected e he))
  have hboth : OnlyProtectedChange s t ↔
      (∀ e ∈ t.entries, UnprotectedExactly e) ∧ ∀ e ∈ t.entries, Tiled e.unprotected.box := by
    rw [← hfirst]
    constructor
    · rintro ⟨s₁, h₁, h₂⟩
      exact ⟨⟨s₁, h₁⟩, (hsecond s₁).mp h₂⟩
    · rintro ⟨⟨s₁, h₁⟩, h₂⟩
      exact ⟨s₁, h₁, (hsecond s₁).mpr h₂⟩
  rw [hboth, ← forall₂_and]
  refine forall₂_congr fun e _ => ?_
  unfold UnprotectedExactly
  split
  · next h => simp only [h, true_imp_iff]
  · next h =>
    have hnone : e.protection = none := Option.not_isSome_iff_eq_none.mp h
    rw [e.unprotected_of_none hnone]
    simp [hnone]

end Table

/-! ### A clear entry that is cut -/

/-- A clear AC-3 entry: two channels of 16 bits at 48 kHz, and an empty `dac3`. -/
def ac3Entry : SampleEntry where
  kind := .audio
  codec := .lit 'a' 'c' '-' '3'
  fixed := List.replicate 7 0 ++ [1] ++ List.replicate 8 0 ++
    [0, 2, 0, 16, 0, 0, 0, 0, 187, 128, 0, 0]
  before := [⟨.lit 'd' 'a' 'c' '3', []⟩]
  protection := none
  after := []
  fixed_length := rfl
  codec_protected := fun h => absurd h Bool.false_ne_true
  one_sinf := by decide

def ac3Table : SampleTable := ⟨[0, 0, 0, 0], [ac3Entry], rfl, by decide⟩

/-- The entry loses everything from its channel count on: what stands there is not a box. -/
theorem not_onlyProtectedChange :
    ¬ ∀ (s : Mp4Decrypter) (t : SampleTable), OnlyProtectedChange s t := by
  intro h
  obtain ⟨s₁, h₁, -⟩ := h (.new ∅) ac3Table
  have hfst : (processStsd (.new ∅) ac3Table.box).map Prod.fst = some ac3Table.unprotectedBox :=
    congrArg (Option.map Prod.fst) h₁
  exact absurd hfst (by decide +kernel)

end Mp4Decrypter

end MediaFlow
