import MediaFlow.Drm.Mp4Atom

/-!
# Boxes and their bytes

Boxes are packed and read back, and the other way round: the bytes of boxes with 32-bit sizes
(`ShortBoxes`, which says nothing about the packer) are read and packed again.
-/

open ByteString

namespace MediaFlow

/-- A sequence of boxes, each with its length in the first four bytes. -/
inductive ShortBoxes : Bytes → Prop
  | nil : ShortBoxes []
  | cons {data : Bytes} : 8 ≤ beAt data 0 4 → beAt data 0 4 ≤ data.length →
      ShortBoxes (data.drop (beAt data 0 4)) → ShortBoxes data

/-- A box with its length in front is what some atom is packed to. -/
theorem exists_pack_eq {box : Bytes} (hheader : 8 ≤ box.length)
    (hsize : beAt box 0 4 = box.length) :
    ∃ a : Mp4Atom, a.Fits ∧ a.pack = box := by
  have hlt : box.length < 2 ^ 32 := by
    have h := beAt_lt box 0 4
    rw [hsize] at h
    exact h.trans_le (by norm_num)
  have hdata : (box.drop 8).length + 8 = box.length := by
    rw [List.length_drop]
    omega
  have hfits : (box.drop 8).length + 8 < 2 ^ 32 := hdata ▸ hlt
  refine ⟨⟨FourCC.at' box 4, box.drop 8⟩, hfits, ?_⟩
  -- the three fields of the box
  have hfirst : toBe 4 ((box.drop 8).length + 8) = box.take 4 := by
    have hlen : (box.take 4).length = 4 := by
      rw [List.length_take]
      omega
    have hbe : ofBe (box.take 4) = (box.drop 8).length + 8 := by
      rw [hdata, ← hsize]
      rfl
    have h := toBe_ofBe (box.take 4)
    rwa [hlen, hbe] at h
  have htype : (FourCC.at' box 4).bytes = (box.drop 4).take 4 := by
    match box, hheader with
    | _ :: _ :: _ :: _ :: _ :: _ :: _ :: _ :: _, _ => rfl
  show toBe 4 (((box.drop 8).length + 8) % 2 ^ 32) ++ _ ++ _ = box
  rw [Nat.mod_eq_of_lt hfits, hfirst, htype, List.append_assoc]
  have hrest : box.drop 8 = (box.drop 4).drop 4 := by rw [List.drop_drop]
  rw [hrest, List.take_append_drop, List.take_append_drop]

theorem beAt_take {data : Bytes} {n : ℕ} (h : 4 ≤ n) : beAt (data.take n) 0 4 = beAt data 0 4 := by
  unfold beAt
  rw [List.drop_zero, List.drop_zero, List.take_take, Nat.min_eq_left h]

/-- **The bytes of boxes** are packed from atoms. -/
theorem ShortBoxes.exists_atoms {data : Bytes} (h : ShortBoxes data) :
    ∃ atoms : List Mp4Atom, (∀ a ∈ atoms, a.Fits) ∧ atoms.flatMap Mp4Atom.pack = data := by
  induction h with
  | nil => exact ⟨[], nofun, rfl⟩
  | @cons data hmin hmax _ ih =>
    obtain ⟨atoms, hfits, hrest⟩ := ih
    have hlen : (data.take (beAt data 0 4)).length = beAt data 0 4 := by
      rw [List.length_take]
      omega
    have hsize : beAt (data.take (beAt data 0 4)) 0 4 = (data.take (beAt data 0 4)).length := by
      rw [hlen]
      exact beAt_take (by omega)
    obtain ⟨a, ha, hpack⟩ := exists_pack_eq (by rw [hlen]; exact hmin) hsize
    refine ⟨a :: atoms, List.forall_mem_cons.mpr ⟨ha, hfits⟩, ?_⟩
    rw [List.flatMap_cons, hpack, hrest, List.take_append_drop]

/-- **Boxes pack and parse back**, and parse and pack back, in buffers that fit in memory. -/
theorem boxes_roundTrip :
    (∀ atoms : List Mp4Atom, (∀ a ∈ atoms, a.data.length < 2 ^ 32 - 8) →
      (atoms.flatMap Mp4Atom.pack).length < 2 ^ 63 →
        listAtoms (atoms.flatMap Mp4Atom.pack) = some atoms) ∧
    ∀ data : Bytes, ShortBoxes data → data.length < 2 ^ 63 →
      ∃ atoms, listAtoms data = some atoms ∧ atoms.flatMap Mp4Atom.pack = data := by
  refine ⟨fun atoms hshort hlen => listAtoms_pack atoms (fun a ha => ?_) hlen, ?_⟩
  · have hdata := hshort a ha
    unfold Mp4Atom.Fits
    omega
  · rintro data hboxes hlen
    obtain ⟨atoms, hfits, rfl⟩ := hboxes.exists_atoms
    exact ⟨atoms, listAtoms_pack atoms hfits hlen, rfl⟩

/-- A box whose payload looks like a header. -/
theorem boxes_roundTrip_nested :
    listAtoms (Mp4Atom.pack ⟨.lit 'f' 'r' 'e' 'e', [0, 0, 0, 1, 102, 114, 101, 101]⟩) =
      some [⟨.lit 'f' 'r' 'e' 'e', [0, 0, 0, 1, 102, 114, 101, 101]⟩] :=
  boxes_roundTrip.1 [⟨.lit 'f' 'r' 'e' 'e', [0, 0, 0, 1, 102, 114, 101, 101]⟩] (by decide)
      (by decide)

end MediaFlow
