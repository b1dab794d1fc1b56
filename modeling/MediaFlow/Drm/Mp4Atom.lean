import MediaFlow.Lib.Bytes

/-!
# MP4 boxes

The box reader and writer of `drm/mp4_atom.rs`: `Mp4Atom.pack`, `readAtomAt`, `listAtoms`,
`childrenOf`.

A slice with its bounds out of order aborts the process, so the readers return `Option`, with
`none` for the abort. The one place where this can happen is `pos + size` with a 64-bit `size`
read from the buffer: `usize` addition wraps in the release build.

* `listAtoms_encode`: the reader gives back any list of boxes, with 32-bit or 64-bit sizes;
* `listAtoms_pack`: so it does for any list of packed boxes with 32-bit sizes;
* `length_eq_of_listAtoms`: a buffer is as long as its boxes re-packed, plus `repackLoss`, the
  bytes of 64-bit size fields and of an unreadable tail.
-/

open ByteString

namespace MediaFlow

/-- Four-character code: `[u8; 4]`. -/
structure FourCC where
  b0 : UInt8
  b1 : UInt8
  b2 : UInt8
  b3 : UInt8
deriving DecidableEq, Repr

namespace FourCC

def bytes (t : FourCC) : Bytes := [t.b0, t.b1, t.b2, t.b3]

/-- A literal `b"abcd"`. -/
def lit (a b c d : Char) : FourCC :=
  ⟨a.toUInt8, b.toUInt8, c.toUInt8, d.toUInt8⟩

/-- The four bytes at offset `pos`. -/
def at' (data : Bytes) (pos : ℕ) : FourCC :=
  ⟨data.getD pos 0, data.getD (pos + 1) 0, data.getD (pos + 2) 0, data.getD (pos + 3) 0⟩

@[simp] theorem length_bytes (t : FourCC) : t.bytes.length = 4 := rfl

end FourCC

/-- A single MP4 box: a 4-byte type tag plus its payload bytes. -/
structure Mp4Atom where
  atomType : FourCC
  data : Bytes
deriving DecidableEq, Repr

namespace Mp4Atom

/-- `size(4) || type(4) || data`, the size truncated to `u32`. -/
def pack (a : Mp4Atom) : Bytes :=
  toBe 4 ((a.data.length + 8) % 2 ^ 32) ++ a.atomType.bytes ++ a.data

/-- The length of the packed box. -/
def packedLen (a : Mp4Atom) : ℕ := a.data.length + 8

@[simp] theorem length_pack (a : Mp4Atom) : a.pack.length = a.packedLen := by
  simp only [pack, packedLen, List.length_append, length_toBe, FourCC.length_bytes]
  omega

/-- The packed size fits the 32-bit size field. -/
def Fits (a : Mp4Atom) : Prop := a.data.length + 8 < 2 ^ 32

instance (a : Mp4Atom) : Decidable a.Fits := inferInstanceAs (Decidable (_ < _))

end Mp4Atom

/-- `usize` addition of the release build. -/
def usizeAdd (a b : ℕ) : ℕ := (a + b) % 2 ^ 64

/-- The header at `pos`: its length and the size of the whole box. `none` when it is cut off
by `stop`. -/
def headerAt (data : Bytes) (pos stop : ℕ) : Option (ℕ × ℕ) :=
  if pos + 8 > stop then none
  else
    let rawSize := beAt data pos 4
    if rawSize = 1 then
      -- 64-bit extended size
      if pos + 16 > stop then none else some (16, beAt data (pos + 8) 8)
    else if rawSize = 0 then
      -- the atom extends to the end of the file
      some (8, stop - pos)
    else some (8, rawSize)

/-- Parse a single atom starting at `pos`, bounded by `stop`. Returns `(atom, nextPos)`. -/
def readAtomAt (data : Bytes) (pos stop : ℕ) : Option (Option (Mp4Atom × ℕ)) :=
  match headerAt data pos stop with
  | none => some none
  | some (headerLen, size) =>
    if size < headerLen ∨ usizeAdd pos size > stop then some none
    else do
      let payload ← slice? data (pos + headerLen) (usizeAdd pos size)
      return some (⟨FourCC.at' data (pos + 4), payload⟩, usizeAdd pos size)

/-- The loop of `list_atoms`, `fuel` iterations at most: every box takes 8 bytes or more. -/
def listAtomsFrom (data : Bytes) : ℕ → ℕ → Option (List Mp4Atom)
  | 0, _ => some []
  | fuel + 1, pos =>
    if pos + 8 ≤ data.length then do
      match ← readAtomAt data pos data.length with
      | some (a, next) => return a :: (← listAtomsFrom data fuel next)
      | none => return []
    else some []

/-- All atoms at the top level of a buffer. -/
def listAtoms (data : Bytes) : Option (List Mp4Atom) :=
  listAtomsFrom data data.length 0

/-- All child atoms of a parent's payload. -/
def childrenOf (parentData : Bytes) : Option (List Mp4Atom) :=
  listAtoms parentData

/-! ### One read -/

section ReadAtom

variable {data : Bytes} {pos stop : ℕ}

theorem headerAt_of_lt (h : stop < pos + 8) : headerAt data pos stop = none :=
  if_pos h

/-- A header is 8 or 16 bytes long and lies before `stop`. -/
theorem headerAt_some {headerLen size : ℕ} (h : headerAt data pos stop = some (headerLen, size)) :
    (headerLen = 8 ∨ headerLen = 16) ∧ pos + headerLen ≤ stop ∧ size < 2 ^ 64 ∨
      headerLen = 8 ∧ pos + 8 ≤ stop ∧ size = stop - pos := by
  unfold headerAt at h
  simp only at h
  split at h
  · simp at h
  split at h
  · split at h
    · simp at h
    · have hlt := beAt_lt data (pos + 8) 8
      simp only [Option.some.injEq, Prod.mk.injEq] at h
      omega
  split at h
  · simp only [Option.some.injEq, Prod.mk.injEq] at h
    omega
  · have hlt := beAt_lt data pos 4
    simp only [Option.some.injEq, Prod.mk.injEq] at h
    omega

/-- An atom that is read has its header's size, its header's tag and the bytes in between. -/
theorem readAtomAt_some {a : Mp4Atom} {next : ℕ}
    (h : readAtomAt data pos stop = some (some (a, next))) :
    ∃ headerLen size, headerAt data pos stop = some (headerLen, size) ∧
      next = usizeAdd pos size ∧ next ≤ stop ∧ next ≤ data.length ∧
      pos + headerLen + a.data.length = next ∧
      a = ⟨FourCC.at' data (pos + 4), (data.drop (pos + headerLen)).take a.data.length⟩ := by
  unfold readAtomAt at h
  split at h
  · simp at h
  · next headerLen size hhdr =>
    split at h
    · simp at h
    · next hsize =>
      push Not at hsize
      cases hs : slice? data (pos + headerLen) (usizeAdd pos size) with
      | none => simp [hs] at h
      | some payload =>
        simp only [hs, Option.bind_eq_bind, Option.bind_some, Option.pure_def, Option.some.injEq,
          Prod.mk.injEq] at h
        obtain ⟨rfl, rfl⟩ := h
        obtain ⟨hle, hin, hpay⟩ := slice?_eq_some_iff.mp hs
        have hlen := length_of_slice? hs
        refine ⟨headerLen, size, hhdr, rfl, hsize.2, hin, by simp only; omega, ?_⟩
        simp only [hlen, hpay]

/-- The next position is 8 bytes or more further on, and inside the buffer. -/
theorem readAtomAt_advances {a : Mp4Atom} {next : ℕ}
    (h : readAtomAt data pos stop = some (some (a, next))) :
    pos + a.packedLen ≤ next ∧ next ≤ stop ∧ next ≤ data.length := by
  obtain ⟨headerLen, size, hhdr, -, hstop, hlen, hnext, -⟩ := readAtomAt_some h
  have hh := headerAt_some hhdr
  unfold Mp4Atom.packedLen
  omega

end ReadAtom

/-! ### Reading back packed boxes -/

theorem FourCC.at'_bytes (pre : Bytes) (t : FourCC) (rest : Bytes) :
    FourCC.at' (pre ++ t.bytes ++ rest) pre.length = t := by
  unfold FourCC.at' FourCC.bytes
  simp [List.getD]

theorem FourCC.at'_append (a b : Bytes) {pos : ℕ} (h : pos + 4 ≤ a.length) :
    FourCC.at' (a ++ b) pos = FourCC.at' a pos := by
  have hget : ∀ i, i < a.length → (a ++ b).getD i 0 = a.getD i 0 := fun i hi => by
    rw [List.getD_append _ _ _ _ hi]
  unfold FourCC.at'
  rw [hget pos (by omega), hget (pos + 1) (by omega), hget (pos + 2) (by omega),
    hget (pos + 3) (by omega)]

theorem beAt_pack (pre rest : Bytes) {a : Mp4Atom} (ha : a.Fits) :
    beAt (pre ++ a.pack ++ rest) pre.length 4 = a.packedLen := by
  have hsize : (a.data.length + 8) % 2 ^ 32 = a.packedLen := Nat.mod_eq_of_lt ha
  have h := beAt_append_right pre (a.pack ++ rest) 0 4
  rw [Nat.add_zero, ← List.append_assoc] at h
  rw [h, beAt, List.drop_zero, Mp4Atom.pack, hsize, List.append_assoc, List.append_assoc,
    List.take_left' (length_toBe 4 _), ofBe_toBe]
  exact ha.trans_le (by norm_num)

theorem atomType_pack (pre rest : Bytes) (a : Mp4Atom) :
    FourCC.at' (pre ++ a.pack ++ rest) (pre.length + 4) = a.atomType := by
  have hsplit : pre ++ a.pack ++ rest
      = (pre ++ toBe 4 ((a.data.length + 8) % 2 ^ 32)) ++ a.atomType.bytes ++ (a.data ++ rest) := by
    simp [Mp4Atom.pack]
  have hlen : pre.length + 4 = (pre ++ toBe 4 ((a.data.length + 8) % 2 ^ 32)).length := by
    rw [List.length_append, length_toBe]
  rw [hsplit, hlen, FourCC.at'_bytes]

/-- A box is read behind its header, wherever it stands in a buffer shorter than `2 ^ 63`. -/
theorem readAtomAt_of_header {data head rest : Bytes} {pos headerLen size : ℕ} {a : Mp4Atom}
    (hdata : data = head ++ (a.data ++ rest)) (hhead : head.length = pos + headerLen)
    (hhdr : headerAt data pos data.length = some (headerLen, size))
    (hsize : size = headerLen + a.data.length) (htype : FourCC.at' data (pos + 4) = a.atomType)
    (hlen : data.length < 2 ^ 63) :
    readAtomAt data pos data.length = some (some (a, pos + size)) := by
  have htotal : data.length = pos + headerLen + (a.data.length + rest.length) := by
    rw [hdata, List.length_append, List.length_append, hhead]
  have hadd : usizeAdd pos size = pos + size := Nat.mod_eq_of_lt (by omega)
  have hpay : (data.drop (pos + headerLen)).take (pos + size - (pos + headerLen)) = a.data := by
    rw [hdata, List.drop_left' hhead, List.take_left' (by omega)]
  unfold readAtomAt
  rw [hhdr]
  simp only [hadd]
  rw [if_neg (by omega), slice?_of_le (by omega) (by omega), hpay, htype]
  rfl

/-- A packed box is read back. -/
theorem readAtomAt_pack (pre rest : Bytes) {a : Mp4Atom} (ha : a.Fits)
    (hlen : (pre ++ a.pack ++ rest).length < 2 ^ 63) :
    readAtomAt (pre ++ a.pack ++ rest) pre.length (pre ++ a.pack ++ rest).length
      = some (some (a, pre.length + a.packedLen)) := by
  have htotal : (pre ++ a.pack ++ rest).length = pre.length + a.packedLen + rest.length := by
    rw [List.length_append, List.length_append, Mp4Atom.length_pack]
  have hge : 8 ≤ a.packedLen := Nat.le_add_left 8 _
  have hhdr : headerAt (pre ++ a.pack ++ rest) pre.length (pre ++ a.pack ++ rest).length
      = some (8, a.packedLen) := by
    unfold headerAt
    simp only [beAt_pack pre rest ha]
    rw [if_neg (by omega), if_neg (by omega), if_neg (by omega)]
  have hsplit : pre ++ a.pack ++ rest
      = (pre ++ toBe 4 ((a.data.length + 8) % 2 ^ 32) ++ a.atomType.bytes)
        ++ (a.data ++ rest) := by
    simp [Mp4Atom.pack]
  exact readAtomAt_of_header hsplit (by simp) hhdr (Nat.add_comm _ _) (atomType_pack pre rest a) hlen

/-- The two headers of a box that says where it ends. -/
inductive HeaderForm where
  | short -- 32-bit size
  | long -- 64-bit size
deriving DecidableEq

/-- A box with a header of either form. -/
def Mp4Atom.encode (a : Mp4Atom) : HeaderForm → Bytes
  | .short => a.pack
  | .long => toBe 4 1 ++ a.atomType.bytes ++ toBe 8 (a.data.length + 16) ++ a.data

/-- The box can be written with this header. -/
def Mp4Atom.FitsForm (a : Mp4Atom) : HeaderForm → Prop
  | .short => a.Fits
  | .long => True

theorem length_encode_ge (a : Mp4Atom) (f : HeaderForm) : 8 ≤ (a.encode f).length := by
  cases f with
  | short =>
    rw [Mp4Atom.encode, Mp4Atom.length_pack]
    exact Nat.le_add_left 8 _
  | long =>
    simp only [Mp4Atom.encode, List.length_append, length_toBe, FourCC.length_bytes]
    omega

/-- The 32-bit size field of a box with a 64-bit size holds 1. -/
theorem beAt_encode_long (pre rest : Bytes) (a : Mp4Atom) :
    beAt (pre ++ a.encode .long ++ rest) pre.length 4 = 1 := by
  have h := beAt_append_right pre (a.encode .long ++ rest) 0 4
  rw [Nat.add_zero, ← List.append_assoc] at h
  rw [h, beAt, List.drop_zero, Mp4Atom.encode, List.append_assoc, List.append_assoc,
    List.append_assoc, List.take_left' (length_toBe 4 _), ofBe_toBe (by norm_num)]

/-- A box with a 64-bit size is read back, wherever it stands in a buffer shorter than
`2 ^ 63`. -/
theorem readAtomAt_long (pre rest : Bytes) (a : Mp4Atom)
    (hlen : (pre ++ a.encode .long ++ rest).length < 2 ^ 63) :
    readAtomAt (pre ++ a.encode .long ++ rest) pre.length (pre ++ a.encode .long ++ rest).length
      = some (some (a, pre.length + (a.encode .long).length)) := by
  have henc : (a.encode .long).length = a.data.length + 16 := by
    simp only [Mp4Atom.encode, List.length_append, length_toBe, FourCC.length_bytes]
    omega
  have htotal : (pre ++ a.encode .long ++ rest).length
      = pre.length + (a.data.length + 16) + rest.length := by
    rw [List.length_append, List.length_append, henc]
  set data := pre ++ a.encode .long ++ rest with hdata
  have hone : beAt data pre.length 4 = 1 := beAt_encode_long pre rest a
  have htype : FourCC.at' data (pre.length + 4) = a.atomType := by
    have hsplit : data = (pre ++ toBe 4 1) ++ a.atomType.bytes
        ++ (toBe 8 (a.data.length + 16) ++ a.data ++ rest) := by
      simp [hdata, Mp4Atom.encode]
    have hpre : pre.length + 4 = (pre ++ toBe 4 1).length := by
      rw [List.length_append, length_toBe]
    rw [hsplit, hpre, FourCC.at'_bytes]
  have hsize : beAt data (pre.length + 8) 8 = a.data.length + 16 := by
    have hsplit : data = (pre ++ toBe 4 1 ++ a.atomType.bytes)
        ++ (toBe 8 (a.data.length + 16) ++ (a.data ++ rest)) := by
      simp [hdata, Mp4Atom.encode]
    have hpre : pre.length + 8 = (pre ++ toBe 4 1 ++ a.atomType.bytes).length + 0 := by simp
    rw [hsplit, hpre, beAt_append_right, beAt, List.drop_zero, List.take_left' (length_toBe 8 _),
      ofBe_toBe (by omega)]
  have hhdr : headerAt data pre.length data.length = some (16, a.data.length + 16) := by
    unfold headerAt
    simp only [hone, hsize]
    rw [if_neg (by omega), if_pos trivial, if_neg (by omega)]
  have hsplit : data = (pre ++ toBe 4 1 ++ a.atomType.bytes ++ toBe 8 (a.data.length + 16))
      ++ (a.data ++ rest) := by
    simp [hdata, Mp4Atom.encode]
  rw [henc]
  exact readAtomAt_of_header hsplit (by simp) hhdr (Nat.add_comm _ _) htype hlen

theorem readAtomAt_encode (pre rest : Bytes) {a : Mp4Atom} {f : HeaderForm} (ha : a.FitsForm f)
    (hlen : (pre ++ a.encode f ++ rest).length < 2 ^ 63) :
    readAtomAt (pre ++ a.encode f ++ rest) pre.length (pre ++ a.encode f ++ rest).length
      = some (some (a, pre.length + (a.encode f).length)) := by
  cases f with
  | short =>
    have h := readAtomAt_pack pre rest ha hlen
    rw [← Mp4Atom.length_pack] at h
    exact h
  | long => exact readAtomAt_long pre rest a hlen

/-- Boxes are read back before whatever follows them: the reader goes on behind the last one. -/
theorem listAtomsFrom_encode_append (items : List (Mp4Atom × HeaderForm))
    (hfits : ∀ p ∈ items, p.1.FitsForm p.2) (pre tail : Bytes)
    (hlen : (pre ++ items.flatMap (fun p => p.1.encode p.2) ++ tail).length < 2 ^ 63) (fuel : ℕ) :
    listAtomsFrom (pre ++ items.flatMap (fun p => p.1.encode p.2) ++ tail) (items.length + fuel)
        pre.length
      = (listAtomsFrom (pre ++ items.flatMap (fun p => p.1.encode p.2) ++ tail) fuel
          (pre ++ items.flatMap fun p => p.1.encode p.2).length).map (items.map Prod.fst ++ ·) := by
  induction items generalizing pre with
  | nil => simp
  | cons p items ih =>
    obtain ⟨a, f⟩ := p
    have hdata : (pre ++ ((a, f) :: items).flatMap fun p => p.1.encode p.2)
        = pre ++ a.encode f ++ items.flatMap fun p => p.1.encode p.2 := by
      rw [List.flatMap_cons, List.append_assoc]
    rw [hdata] at hlen ⊢
    have hrest := ih (fun q hq => hfits q (List.mem_cons_of_mem _ hq)) (pre ++ a.encode f) hlen
    have hassoc : pre ++ a.encode f ++ items.flatMap (fun p => p.1.encode p.2) ++ tail
        = pre ++ a.encode f ++ (items.flatMap (fun p => p.1.encode p.2) ++ tail) := by
      rw [List.append_assoc]
    have hread := readAtomAt_encode pre (items.flatMap (fun p => p.1.encode p.2) ++ tail)
      (hfits (a, f) List.mem_cons_self) (by rw [← hassoc]; exact hlen)
    rw [← hassoc] at hread
    have hge := length_encode_ge a f
    have hnext : pre.length + (a.encode f).length = (pre ++ a.encode f).length := by
      rw [List.length_append]
    have hroom : pre.length + 8
        ≤ (pre ++ a.encode f ++ items.flatMap (fun p => p.1.encode p.2) ++ tail).length := by
      rw [List.append_assoc, List.length_append, ← hnext]
      omega
    rw [List.length_cons, Nat.add_right_comm, listAtomsFrom, if_pos hroom, hread]
    simp only [Option.bind_eq_bind, Option.bind_some, hnext, hrest, Option.pure_def, List.map_cons]
    cases listAtomsFrom _ fuel _ <;> rfl

theorem listAtomsFrom_of_length_lt {data : Bytes} {pos : ℕ} (h : data.length < pos + 8)
    (fuel : ℕ) : listAtomsFrom data fuel pos = some [] := by
  cases fuel with
  | zero => rfl
  | succ fuel => exact if_neg (Nat.not_le.mpr h)

/-- There are no more boxes than bytes. -/
theorem length_le_length_flatMap_encode (items : List (Mp4Atom × HeaderForm)) :
    items.length ≤ (items.flatMap fun p => p.1.encode p.2).length := by
  rw [List.length_flatMap]
  have hle := List.length_le_sum_of_one_le (items.map fun p => (p.1.encode p.2).length) (by
    intro n hn
    obtain ⟨p, -, rfl⟩ := List.mem_map.mp hn
    have := length_encode_ge p.1 p.2
    omega)
  rw [List.length_map] at hle
  exact hle

/-- **Boxes are read back**, whichever header each of them has. -/
theorem listAtoms_encode (items : List (Mp4Atom × HeaderForm))
    (hfits : ∀ p ∈ items, p.1.FitsForm p.2)
    (hlen : (items.flatMap fun p => p.1.encode p.2).length < 2 ^ 63) :
    listAtoms (items.flatMap fun p => p.1.encode p.2) = some (items.map Prod.fst) := by
  have hle := length_le_length_flatMap_encode items
  have hend : ∀ fuel, listAtomsFrom (items.flatMap fun p => p.1.encode p.2) fuel
      (items.flatMap fun p => p.1.encode p.2).length = some [] :=
    listAtomsFrom_of_length_lt (Nat.lt_add_of_pos_right (by norm_num))
  have h := listAtomsFrom_encode_append items hfits [] [] (by simpa using hlen)
    ((items.flatMap fun p => p.1.encode p.2).length - items.length)
  rw [List.append_nil, List.nil_append, Nat.add_sub_cancel' hle, hend, Option.map_some,
    List.append_nil] at h
  exact h

/-- **Boxes pack and parse back.** The reader gives back any list of packed boxes with 32-bit
sizes. -/
theorem listAtoms_pack (atoms : List Mp4Atom) (hfits : ∀ a ∈ atoms, a.Fits)
    (hlen : (atoms.flatMap Mp4Atom.pack).length < 2 ^ 63) :
    listAtoms (atoms.flatMap Mp4Atom.pack) = some atoms := by
  have hmap : ((atoms.map fun a => (a, HeaderForm.short)).flatMap fun p => p.1.encode p.2)
      = atoms.flatMap Mp4Atom.pack := by
    rw [List.flatMap_map]
    rfl
  have h := listAtoms_encode (atoms.map fun a => (a, .short))
    (by simpa [Mp4Atom.FitsForm] using hfits) (by rw [hmap]; exact hlen)
  have hfst : (atoms.map fun a => (a, HeaderForm.short)).map Prod.fst = atoms := by
    rw [List.map_map]
    exact List.map_id atoms
  rw [hmap, hfst] at h
  exact h

/-! ### What re-packing loses -/

/-- The bytes of `data`, from `pos` on, that are not emitted again when its boxes are re-packed:
the 8 bytes of every 64-bit size field, and the tail the reader does not take for a box. -/
def repackLossFrom (data : Bytes) : ℕ → ℕ → ℕ
  | 0, pos => data.length - pos
  | fuel + 1, pos =>
    match headerAt data pos data.length, readAtomAt data pos data.length with
    | some (headerLen, _), some (some (_, next)) =>
      (headerLen - 8) + repackLossFrom data fuel next
    | _, _ => data.length - pos

/-- The bytes of a payload that re-packing its boxes loses. -/
def repackLoss (data : Bytes) : ℕ := repackLossFrom data data.length 0

theorem length_eq_of_listAtomsFrom {data : Bytes} {fuel pos : ℕ} {atoms : List Mp4Atom}
    (hpos : pos ≤ data.length) (h : listAtomsFrom data fuel pos = some atoms) :
    data.length = pos + (atoms.map Mp4Atom.packedLen).sum + repackLossFrom data fuel pos := by
  induction fuel generalizing pos atoms with
  | zero =>
    simp only [listAtomsFrom, Option.some.injEq] at h
    subst h
    simp [repackLossFrom, hpos]
  | succ fuel ih =>
    rw [listAtomsFrom] at h
    split at h
    · cases hread : readAtomAt data pos data.length with
      | none => simp [hread] at h
      | some r =>
        cases r with
        | none =>
          simp only [hread, Option.bind_eq_bind, Option.bind_some, Option.pure_def,
            Option.some.injEq] at h
          subst h
          rw [repackLossFrom, hread]
          simp [hpos]
        | some p =>
          obtain ⟨a, next⟩ := p
          obtain ⟨headerLen, size, hhdr, -, hstop, -, hnext, -⟩ := readAtomAt_some hread
          have hh := headerAt_some hhdr
          cases hrest : listAtomsFrom data fuel next with
          | none => simp [hread, hrest] at h
          | some rest =>
            simp only [hread, hrest, Option.bind_eq_bind, Option.bind_some, Option.pure_def,
              Option.some.injEq] at h
            subst h
            have hlen := ih hstop hrest
            rw [repackLossFrom, hhdr, hread]
            simp only [List.map_cons, List.sum_cons, Mp4Atom.packedLen] at hlen ⊢
            omega
    · next hroom =>
      simp only [Option.some.injEq] at h
      subst h
      rw [repackLossFrom, headerAt_of_lt (by omega)]
      simp [hpos]

/-- A buffer is as long as its boxes re-packed plus what re-packing loses. -/
theorem length_eq_of_listAtoms {data : Bytes} {atoms : List Mp4Atom}
    (h : listAtoms data = some atoms) :
    data.length = (atoms.map Mp4Atom.packedLen).sum + repackLoss data := by
  have := length_eq_of_listAtomsFrom (Nat.zero_le _) h
  unfold repackLoss
  omega

end MediaFlow
