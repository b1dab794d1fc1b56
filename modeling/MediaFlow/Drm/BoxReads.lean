import MediaFlow.Drm.Mp4Atom
import MediaFlow.Lib.Emit

/-!
# Reading boxes in bounds

`readAtomAt` compares `pos + size` with the end of the buffer, and the sum wraps for some 64-bit
sizes. `boxesReadSafely_iff` says which buffers are read safely: those in which no box that is
reached has such a size.
-/

open ByteString Emit

namespace MediaFlow

/-- The positions that a reader reaches from `pos` on. -/
inductive ReachedFrom (data : Bytes) : ℕ → ℕ → Prop
  | here {pos : ℕ} : ReachedFrom data pos pos
  | later {pos next p : ℕ} {a : Mp4Atom} :
      readAtomAt data pos data.length = some (some (a, next)) → ReachedFrom data next p →
        ReachedFrom data pos p

/-- The positions that a reader of the buffer reaches. -/
def Reached (data : Bytes) (p : ℕ) : Prop := ReachedFrom data 0 p

/-- **The condition**: a box at `pos` with a 64-bit size ends before the largest position. -/
def LongSizeFits (data : Bytes) (pos : ℕ) : Prop :=
  pos + 16 ≤ data.length → beAt data pos 4 = 1 → pos + beAt data (pos + 8) 8 < 2 ^ 64

/-- A read at `pos`: its header is inside the buffer, its sum does not wrap, its slice is in order, and
an atom has the bytes after the header. -/
structure ReadsSafely (data : Bytes) (pos : ℕ) : Prop where
  header : ∀ headerLen size, headerAt data pos data.length = some (headerLen, size) →
    pos + headerLen ≤ data.length ∧ pos + size < 2 ^ 64
  returns : (readAtomAt data pos data.length).isSome
  atom : ∀ a next, readAtomAt data pos data.length = some (some (a, next)) →
    pos + 8 ≤ next ∧ next ≤ data.length ∧
      ∃ headerLen size, headerAt data pos data.length = some (headerLen, size) ∧
        slice? data (pos + headerLen) next = some a.data

/-- The atoms lie one after the other, from `pos` on, each after its header. -/
def LieFrom (data : Bytes) : ℕ → List Mp4Atom → Prop
  | _, [] => True
  | pos, a :: as => ∃ start next, pos + 8 ≤ start ∧ slice? data start next = some a.data ∧
      LieFrom data next as

structure BoxesReadSafely (data : Bytes) : Prop where
  reads : ∀ pos, Reached data pos → ReadsSafely data pos
  atoms : ∃ atoms, listAtoms data = some atoms ∧ LieFrom data 0 atoms
  -- the loop ends by itself
  terminates : ∀ fuel, data.length ≤ fuel → listAtomsFrom data fuel 0 = listAtoms data

/-! ### One read -/

section Read

variable {data : Bytes} {pos : ℕ}

theorem pos_le_of_headerAt {headerLen size : ℕ}
    (h : headerAt data pos data.length = some (headerLen, size)) :
    8 ≤ headerLen ∧ pos + headerLen ≤ data.length := by
  obtain ⟨hlen, hin, -⟩ | ⟨hlen, hin, -⟩ := headerAt_some h
  · exact ⟨by omega, hin⟩
  · exact ⟨by omega, by omega⟩

variable (hlen : data.length < 2 ^ 63)

include hlen

/-- Only a 64-bit size can make the sum wrap. -/
theorem longSizeFits_iff : LongSizeFits data pos ↔
    ∀ headerLen size, headerAt data pos data.length = some (headerLen, size) →
      pos + size < 2 ^ 64 := by
  unfold LongSizeFits headerAt
  have hraw := beAt_lt data pos 4
  by_cases hshort : pos + 8 > data.length
  · rw [if_pos hshort]
    exact iff_of_true (fun h => absurd h (by omega)) nofun
  rw [if_neg hshort]
  dsimp only
  by_cases hone : beAt data pos 4 = 1
  · rw [if_pos hone]
    by_cases hcut : pos + 16 > data.length
    · rw [if_pos hcut]
      exact iff_of_true (fun h => absurd h (by omega)) nofun
    · rw [if_neg hcut]
      constructor
      · rintro h headerLen size ⟨⟩
        exact h (Nat.not_lt.mp hcut) hone
      · exact fun h _ _ => h 16 _ rfl
  · rw [if_neg hone]
    refine iff_of_true (fun _ h => absurd h hone) fun headerLen size hheader => ?_
    by_cases hzero : beAt data pos 4 = 0
    · rw [if_pos hzero] at hheader
      cases hheader
      omega
    · rw [if_neg hzero] at hheader
      cases hheader
      omega

/-- **A read** returns exactly if the sum does not wrap. -/
theorem isSome_readAtomAt_iff :
    (readAtomAt data pos data.length).isSome ↔ LongSizeFits data pos := by
  rw [longSizeFits_iff hlen]
  unfold readAtomAt
  cases hheader : headerAt data pos data.length with
  | none => exact iff_of_true rfl nofun
  | some p =>
    obtain ⟨headerLen, size⟩ := p
    obtain ⟨hge, hin⟩ := pos_le_of_headerAt hheader
    have hsize : size < 2 ^ 64 := by
      obtain ⟨-, -, h⟩ | ⟨-, -, h⟩ := headerAt_some hheader
      · exact h
      · omega
    have hsum : (∀ headerLen' size', some (headerLen, size) = some (headerLen', size') →
        pos + size' < 2 ^ 64) ↔ pos + size < 2 ^ 64 := by
      constructor
      · exact fun h => h headerLen size rfl
      · rintro h _ _ ⟨⟩
        exact h
    rw [hsum]
    dsimp only
    by_cases hwrap : pos + size < 2 ^ 64
    · have hadd : usizeAdd pos size = pos + size := Nat.mod_eq_of_lt hwrap
      refine iff_of_true ?_ hwrap
      rw [hadd]
      by_cases hout : size < headerLen ∨ pos + size > data.length
      · rw [if_pos hout]
        rfl
      · rw [if_neg hout, slice?_of_le (by omega) (by omega)]
        rfl
    · -- the wrapped sum lies before the box
      have hadd : usizeAdd pos size = pos + size - 2 ^ 64 := by
        unfold usizeAdd
        omega
      refine iff_of_false ?_ hwrap
      rw [hadd, if_neg (by omega), slice?_of_lt (by omega)]
      exact nofun

theorem readsSafely_iff : ReadsSafely data pos ↔ LongSizeFits data pos := by
  constructor
  · exact fun h => (isSome_readAtomAt_iff hlen).mp h.returns
  · intro h
    refine ⟨fun headerLen size hheader => ?_, (isSome_readAtomAt_iff hlen).mpr h, ?_⟩
    · exact ⟨(pos_le_of_headerAt hheader).2, (longSizeFits_iff hlen).mp h headerLen size hheader⟩
    · intro a next hread
      obtain ⟨headerLen, size, hheader, -, -, hnext, hdata, ha⟩ := readAtomAt_some hread
      obtain ⟨hge, -⟩ := pos_le_of_headerAt hheader
      refine ⟨by omega, hnext, headerLen, size, hheader, ?_⟩
      rw [slice?_of_le (by omega) hnext, show next - (pos + headerLen) = a.data.length by omega]
      exact congrArg (fun b : Mp4Atom => some b.data) ha.symm

end Read

/-! ### The loop -/

section Loop

variable {data : Bytes}

/-- With fuel for the rest of the buffer, more fuel makes no difference. -/
theorem listAtomsFrom_fuel {pos fuel fuel' : ℕ} (hfuel : data.length ≤ pos + fuel)
    (hfuel' : data.length ≤ pos + fuel') :
    listAtomsFrom data fuel pos = listAtomsFrom data fuel' pos := by
  have hend : ∀ fuel, ¬ pos + 8 ≤ data.length → listAtomsFrom data fuel pos = some [] := by
    intro fuel h
    cases fuel with
    | zero => rfl
    | succ fuel => exact if_neg h
  induction fuel generalizing pos fuel' with
  | zero => rw [hend 0 (by omega), hend fuel' (by omega)]
  | succ fuel ih =>
    by_cases hroom : pos + 8 ≤ data.length
    · cases fuel' with
      | zero => omega
      | succ fuel' =>
        rw [listAtomsFrom, listAtomsFrom, if_pos hroom, if_pos hroom]
        refine Option.bind_congr fun r hread => ?_
        cases r with
        | none => rfl
        | some p =>
          obtain ⟨a, next⟩ := p
          obtain ⟨hadvance, -, -⟩ := readAtomAt_advances hread
          have hge : 8 ≤ a.packedLen := Nat.le_add_left 8 _
          have hsame := @ih next fuel' (by omega) (by omega) fun fuel h => by
            cases fuel with
            | zero => rfl
            | succ fuel => exact if_neg h
          dsimp only
          rw [hsame]
    · rw [hend _ hroom, hend _ hroom]

/-- What the reader reaches from `pos` on: `pos`, and what it reaches after the box there. -/
theorem forall_reachedFrom_iff {P : ℕ → Prop} {pos : ℕ} :
    (∀ p, ReachedFrom data pos p → P p) ↔
      P pos ∧ ∀ a next, readAtomAt data pos data.length = some (some (a, next)) →
        ∀ p, ReachedFrom data next p → P p := by
  constructor
  · exact fun h => ⟨h pos .here, fun a next hread p hp => h p (.later hread hp)⟩
  · rintro ⟨hpos, hlater⟩ p hp
    cases hp with
    | here => exact hpos
    | later hread hp => exact hlater _ _ hread p hp

theorem longSizeFits_of_end {pos : ℕ} (h : ¬ pos + 8 ≤ data.length) : LongSizeFits data pos :=
  fun hin => absurd hin (by omega)

theorem readAtomAt_end {pos : ℕ} (h : ¬ pos + 8 ≤ data.length) :
    readAtomAt data pos data.length = some none := by
  unfold readAtomAt
  rw [headerAt_of_lt (Nat.not_le.mp h)]

variable (hlen : data.length < 2 ^ 63)

include hlen

/-- **The loop** returns exactly if no sum wraps on the way. -/
theorem isSome_listAtomsFrom_iff {fuel pos : ℕ} (hfuel : data.length ≤ pos + fuel) :
    (listAtomsFrom data fuel pos).isSome ↔ ∀ p, ReachedFrom data pos p → LongSizeFits data p := by
  have hend : ∀ pos, ¬ pos + 8 ≤ data.length → ∀ p, ReachedFrom data pos p → LongSizeFits data p := by
    intro pos h
    refine forall_reachedFrom_iff.mpr ⟨longSizeFits_of_end h, fun a next hread => ?_⟩
    rw [readAtomAt_end h] at hread
    cases hread
  induction fuel generalizing pos with
  | zero => exact iff_of_true rfl (hend pos (by omega))
  | succ fuel ih =>
    rw [listAtomsFrom]
    by_cases hroom : pos + 8 ≤ data.length
    · rw [if_pos hroom, forall_reachedFrom_iff, ← isSome_readAtomAt_iff hlen]
      refine isSome_bind_iff fun r hread => ?_
      cases r with
      | none =>
        refine iff_of_true rfl fun a next hsome => ?_
        rw [hread] at hsome
        cases hsome
      | some p =>
        obtain ⟨a, next⟩ := p
        obtain ⟨hadvance, -, -⟩ := readAtomAt_advances hread
        have hge : 8 ≤ a.packedLen := Nat.le_add_left 8 _
        have hrest : (listAtomsFrom data fuel next).isSome ↔
            ∀ a' next', readAtomAt data pos data.length = some (some (a', next')) →
              ∀ p, ReachedFrom data next' p → LongSizeFits data p := by
          refine (ih (by omega)).trans ?_
          constructor
          · intro h a' next' hsame
            rw [hread] at hsame
            cases hsame
            exact h
          · exact fun h => h a next hread
        rw [← hrest]
        exact isSome_bind_of_total fun _ => rfl
    · rw [if_neg hroom]
      exact iff_of_true rfl (hend pos hroom)

/-- **All boxes of a buffer** are read exactly if no sum wraps on the way. -/
theorem isSome_listAtoms_iff :
    (listAtoms data).isSome ↔ ∀ pos, Reached data pos → LongSizeFits data pos :=
  isSome_listAtomsFrom_iff hlen (by omega)

omit hlen in
theorem lieFrom_listAtomsFrom {fuel pos : ℕ} {atoms : List Mp4Atom}
    (h : listAtomsFrom data fuel pos = some atoms) : LieFrom data pos atoms := by
  induction fuel generalizing pos atoms with
  | zero =>
    cases h
    trivial
  | succ fuel ih =>
    rw [listAtomsFrom] at h
    by_cases hroom : pos + 8 ≤ data.length
    · rw [if_pos hroom] at h
      obtain ⟨r, hread, h⟩ := Option.bind_eq_some_iff.mp h
      cases r with
      | none =>
        cases h
        trivial
      | some p =>
        obtain ⟨a, next⟩ := p
        obtain ⟨rest, hrest, h⟩ := Option.bind_eq_some_iff.mp h
        cases h
        obtain ⟨headerLen, size, hheader, -, -, hnext, hdata, ha⟩ := readAtomAt_some hread
        obtain ⟨hge, -⟩ := pos_le_of_headerAt hheader
        refine ⟨pos + headerLen, next, by omega, ?_, ih hrest⟩
        rw [slice?_of_le (by omega) hnext, show next - (pos + headerLen) = a.data.length by omega]
        exact congrArg (fun b : Mp4Atom => some b.data) ha.symm
    · rw [if_neg hroom] at h
      cases h
      trivial

end Loop

/-- A buffer is read safely exactly if no box that is reached has a 64-bit size past the
largest position. -/
theorem boxesReadSafely_iff (data : Bytes) (hlen : data.length < 2 ^ 63) :
    BoxesReadSafely data ↔ ∀ pos, Reached data pos → LongSizeFits data pos := by
  constructor
  · exact fun h pos hpos => (readsSafely_iff hlen).mp (h.reads pos hpos)
  · intro h
    obtain ⟨atoms, hatoms⟩ := Option.isSome_iff_exists.mp ((isSome_listAtoms_iff hlen).mpr h)
    exact ⟨fun pos hpos => (readsSafely_iff hlen).mpr (h pos hpos),
      ⟨atoms, hatoms, lieFrom_listAtomsFrom hatoms⟩,
      fun fuel hfuel => listAtomsFrom_fuel (by omega) (by omega)⟩

/-- An empty box, and a box with the largest 64-bit size after it. -/
def hugeBox : Bytes := toBe 4 8 ++ toBe 4 0 ++ toBe 4 1 ++ toBe 4 0 ++ toBe 8 (2 ^ 64 - 1)

/-- The sum wraps, to a position before the box. -/
theorem hugeBox_not_safe : ¬ ∀ data : Bytes, data.length < 2 ^ 63 → BoxesReadSafely data := by
  intro h
  have hreached : Reached hugeBox 8 :=
    .later (a := ⟨⟨0, 0, 0, 0⟩, []⟩) (by decide +kernel) .here
  have hfits := (readsSafely_iff (by decide)).mp ((h hugeBox (by decide)).reads 8 hreached)
  exact absurd (hfits (by decide) (by decide +kernel)) (by decide +kernel)

/-- One empty box. -/
theorem emptyBox_safe : BoxesReadSafely (toBe 4 8 ++ toBe 4 0) :=
  (boxesReadSafely_iff _ (by decide)).mpr fun _ _ hin => absurd hin (by simp)

end MediaFlow
