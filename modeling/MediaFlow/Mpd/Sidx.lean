import MediaFlow.Drm.Mp4Decrypter

/-!
# The segment index

`parse_sidx_fragments` of `mpd/processor.rs`: the scan for the `sidx` box, its header, and the loop
over its references, one fragment for each media reference. Offsets in the buffer are `usize`,
offsets in the file `u64`; both wrap in the release build. The arithmetic is a parameter
(`U64Arith`), so that the same text is also the build in which a step out of range aborts.

* `fragmentsFrom_eq`: the loop reads a list of references first and sums it up after;
* `buildFragments_checked`, `buildFragments_wrapping`: the two builds agree where no sum is too
  large, and there only.
-/

open ByteString

namespace MediaFlow

/-- The additions and subtractions of `u64` in a build: `none` is an abort. -/
structure U64Arith where
  add : ℕ → ℕ → Option ℕ
  sub : ℕ → ℕ → Option ℕ

namespace U64Arith

/-- The release build. -/
def wrapping : U64Arith where
  add a b := some ((a + b) % 2 ^ 64)
  sub a b := some ((a + (2 ^ 64 - b)) % 2 ^ 64)

/-- A build with overflow checks. -/
def checked : U64Arith where
  add a b := if a + b < 2 ^ 64 then some (a + b) else none
  sub a b := if b ≤ a then some (a - b) else none

end U64Arith

/-- One media subsegment described by a SIDX box. -/
structure SidxFragment where
  /-- First byte of this fragment in the original media file. -/
  start : ℕ
  /-- Last byte of this fragment in the original media file (inclusive): `end`. -/
  last : ℕ
  /-- Subsegment duration in SIDX timescale ticks. -/
  durationTimescale : ℕ
  /-- SIDX timescale (ticks per second). -/
  timescale : ℕ
deriving DecidableEq

/-! ### Reads -/

/-- The integer of `width` bytes at offset `o`, if the buffer has them. -/
def readBe (d : Bytes) (o width : ℕ) : Option ℕ :=
  if o + width ≤ d.length then some (beAt d o width) else none

def r8 (d : Bytes) (o : ℕ) : Option ℕ := readBe d o 1
def r16 (d : Bytes) (o : ℕ) : Option ℕ := readBe d o 2
def r32 (d : Bytes) (o : ℕ) : Option ℕ := readBe d o 4
def r64 (d : Bytes) (o : ℕ) : Option ℕ := readBe d o 8

/-- What the header of a `sidx` says, and where its references start. -/
structure SidxHeader where
  timescale : ℕ
  firstOffset : ℕ
  referenceCount : ℕ
  refsAt : ℕ
deriving DecidableEq

/-- The header whose version field is at `off`. -/
def readSidxHeader (data : Bytes) (off : ℕ) : Option SidxHeader := do
  let version ← r8 data off
  let off := off + 4 -- version (1) + flags (3)
  let off := off + 4 -- reference_id
  let timescale ← r32 data off
  let off := off + 4
  let (firstOffset, off) ←
    if version = 0 then do
      let off := off + 4 -- earliest_presentation_time (32-bit)
      pure (← r32 data off, off + 4)
    else do
      let off := off + 8 -- earliest_presentation_time (64-bit)
      pure (← r64 data off, off + 8)
  let off := off + 2 -- reserved
  let referenceCount ← r16 data off
  return ⟨timescale, firstOffset, referenceCount, off + 2⟩

section Parser

variable (ops : U64Arith)

/-- Scan forward to find the `sidx` box (may be preceded by `styp` or others), `fuel` iterations at
most. The inner `none` is `None`, the outer one an abort. -/
def findSidxFrom (data : Bytes) : ℕ → ℕ → Option (Option ℕ)
  | 0, _ => none
  | fuel + 1, scan => do
    if (← ops.add scan 8) > data.length then return none
    let bsize := beAt data scan 4
    if bsize < 8 then return none
    if FourCC.at' data (scan + 4) = .sidx then return some scan
    findSidxFrom data fuel (← ops.add scan bsize)

/-- The fragment of a media reference. -/
def mediaFragment (timescale fragStart referencedSize duration : ℕ) : Option SidxFragment := do
  let last ← ops.sub (← ops.add fragStart referencedSize) 1
  return ⟨fragStart, last, duration, timescale⟩

/-- The loop over the references: those that are cut off end it. -/
def fragmentsFrom (data : Bytes) (timescale : ℕ) : ℕ → ℕ → ℕ → Option (List SidxFragment)
  | 0, _, _ => some []
  | n + 1, off, fragStart =>
    if off + 12 > data.length then some []
    else do
      let refField := beAt data off 4
      let refType := refField / 2 ^ 31 % 2
      let referencedSize := refField % 2 ^ 31
      let duration := beAt data (off + 4) 4
      -- media reference; skip index-of-indexes (type 1)
      let fragments ←
        if refType = 0 then
          (mediaFragment ops timescale fragStart referencedSize duration).map fun f => [f]
        else some []
      return fragments ++
        (← fragmentsFrom data timescale n (off + 12) (← ops.add fragStart referencedSize))

/-- `inner` of `parse_sidx_fragments`. -/
def sidxInner (data : Bytes) (indexRangeStart : ℕ) : Option (Option (List SidxFragment)) := do
  match ← findSidxFrom ops data (data.length + 1) 0 with
  | none => return none
  | some sidxLocalStart =>
    let sidxFileStart ← ops.add indexRangeStart sidxLocalStart
    let sidxBoxSize := beAt data sidxLocalStart 4
    let sidxFileEnd ← ops.add sidxFileStart sidxBoxSize
    match readSidxHeader data (sidxLocalStart + 8) with
    | none => return none
    | some header =>
      let fragStart ← ops.add sidxFileEnd header.firstOffset
      return some (← fragmentsFrom ops data header.timescale header.referenceCount header.refsAt
        fragStart)

end Parser

/-- `parse_sidx_fragments` of the release build, which does not abort. -/
def parseSidxFragments (data : Bytes) (indexRangeStart : ℕ) : List SidxFragment :=
  ((sidxInner .wrapping data indexRangeStart).getD none).getD []

/-! ### References -/

/-- A reference as the parser reads it. -/
structure SidxReference where
  /-- An index-of-indexes. -/
  isIndex : Bool
  size : ℕ
  duration : ℕ
deriving DecidableEq

/-- The references the loop reads. -/
def readReferences (data : Bytes) : ℕ → ℕ → List SidxReference
  | 0, _ => []
  | n + 1, off =>
    if off + 12 > data.length then []
    else
      ⟨beAt data off 4 / 2 ^ 31 % 2 ≠ 0, beAt data off 4 % 2 ^ 31, beAt data (off + 4) 4⟩
        :: readReferences data n (off + 12)

/-- The loop over references that have been read. -/
def buildFragments (ops : U64Arith) (timescale : ℕ) :
    List SidxReference → ℕ → Option (List SidxFragment)
  | [], _ => some []
  | r :: rs, fragStart => do
    let fragments ←
      if r.isIndex then some []
      else (mediaFragment ops timescale fragStart r.size r.duration).map fun f => [f]
    return fragments ++ (← buildFragments ops timescale rs (← ops.add fragStart r.size))

theorem fragmentsFrom_eq (ops : U64Arith) (data : Bytes) (timescale n off fragStart : ℕ) :
    fragmentsFrom ops data timescale n off fragStart
      = buildFragments ops timescale (readReferences data n off) fragStart := by
  induction n generalizing off fragStart with
  | zero => rfl
  | succ n ih =>
    rw [fragmentsFrom, readReferences]
    split
    · rfl
    · by_cases hmedia : beAt data off 4 / 2 ^ 31 % 2 = 0
      · simp only [buildFragments, hmedia, ih, if_true, ne_eq, not_true, decide_false,
          Bool.false_eq_true, if_false]
      · simp only [buildFragments, hmedia, ih, if_true, if_false, ne_eq, not_false_eq_true,
          decide_true]

/-- The fragments of a list of references, with exact sums. -/
def fragmentsOf (timescale : ℕ) : List SidxReference → ℕ → List SidxFragment
  | [], _ => []
  | r :: rs, fragStart =>
    if r.isIndex then fragmentsOf timescale rs (fragStart + r.size)
    else ⟨fragStart, fragStart + r.size - 1, r.duration, timescale⟩
      :: fragmentsOf timescale rs (fragStart + r.size)

/-- The bytes that references stand for. -/
def totalSize (refs : List SidxReference) : ℕ := (refs.map SidxReference.size).sum

@[simp] theorem totalSize_nil : totalSize [] = 0 := rfl

@[simp] theorem totalSize_cons (r : SidxReference) (rs : List SidxReference) :
    totalSize (r :: rs) = r.size + totalSize rs := rfl

section Sums

variable (timescale : ℕ) (refs : List SidxReference) {fragStart : ℕ}

theorem mediaFragment_checked {r : SidxReference} (hpos : 0 < fragStart)
    (hsum : fragStart + r.size < 2 ^ 64) :
    mediaFragment .checked timescale fragStart r.size r.duration
      = some ⟨fragStart, fragStart + r.size - 1, r.duration, timescale⟩ := by
  have hadd : U64Arith.checked.add fragStart r.size = some (fragStart + r.size) := if_pos hsum
  have hsub : U64Arith.checked.sub (fragStart + r.size) 1 = some (fragStart + r.size - 1) :=
    if_pos (by omega)
  rw [mediaFragment, hadd, Option.bind_eq_bind, Option.bind_some, hsub]
  rfl

theorem mediaFragment_wrapping {r : SidxReference} (hpos : 0 < fragStart)
    (hsum : fragStart + r.size < 2 ^ 64) :
    mediaFragment .wrapping timescale fragStart r.size r.duration
      = some ⟨fragStart, fragStart + r.size - 1, r.duration, timescale⟩ := by
  have hadd : U64Arith.wrapping.add fragStart r.size = some (fragStart + r.size) :=
    congrArg some (Nat.mod_eq_of_lt hsum)
  have hsub : U64Arith.wrapping.sub (fragStart + r.size) 1 = some (fragStart + r.size - 1) :=
    congrArg some (by omega)
  rw [mediaFragment, hadd, Option.bind_eq_bind, Option.bind_some, hsub]
  rfl

/-- One reference, where its sums have a result. -/
theorem buildFragments_cons (ops : U64Arith) {r : SidxReference} {rs : List SidxReference}
    {f : SidxFragment} {next : ℕ}
    (hf : mediaFragment ops timescale fragStart r.size r.duration = some f)
    (hnext : ops.add fragStart r.size = some next) :
    buildFragments ops timescale (r :: rs) fragStart
      = (buildFragments ops timescale rs next).map fun l =>
        (if r.isIndex then [] else [f]) ++ l := by
  rw [buildFragments, hf, hnext]
  dsimp only [Option.bind_eq_bind, Option.bind_some, Option.map_some]
  cases r.isIndex <;> cases buildFragments ops timescale rs next <;> rfl

/-- **With overflow checks the loop has a result** exactly where no sum is too large. -/
theorem buildFragments_checked (hpos : 0 < fragStart) (hstart : fragStart < 2 ^ 64) :
    buildFragments .checked timescale refs fragStart
      = if fragStart + totalSize refs < 2 ^ 64 then some (fragmentsOf timescale refs fragStart)
        else none := by
  induction refs generalizing fragStart with
  | nil => exact (if_pos hstart).symm
  | cons r rs ih =>
    rw [fragmentsOf, totalSize_cons, ← Nat.add_assoc]
    by_cases hsum : fragStart + r.size < 2 ^ 64
    · rw [buildFragments_cons timescale .checked (mediaFragment_checked timescale hpos hsum)
        (if_pos hsum), ih (by omega) hsum]
      by_cases htotal : fragStart + r.size + totalSize rs < 2 ^ 64
      · rw [if_pos htotal, if_pos htotal]
        cases r.isIndex <;> rfl
      · rw [if_neg htotal, if_neg htotal]
        rfl
    · have hadd : U64Arith.checked.add fragStart r.size = none := if_neg hsum
      have hlarge : ¬ fragStart + r.size + totalSize rs < 2 ^ 64 := by omega
      have hmedia : mediaFragment .checked timescale fragStart r.size r.duration = none := by
        rw [mediaFragment, hadd]
        rfl
      rw [buildFragments, hadd, hmedia]
      cases r.isIndex with
      | true => exact (if_neg hlarge).symm
      | false => exact (if_neg hlarge).symm

/-- **Where no sum is too large the release build gives the exact fragments.** -/
theorem buildFragments_wrapping (hpos : 0 < fragStart)
    (hsum : fragStart + totalSize refs < 2 ^ 64) :
    buildFragments .wrapping timescale refs fragStart
      = some (fragmentsOf timescale refs fragStart) := by
  induction refs generalizing fragStart with
  | nil => rfl
  | cons r rs ih =>
    rw [totalSize_cons] at hsum
    have hadd : U64Arith.wrapping.add fragStart r.size = some (fragStart + r.size) :=
      congrArg some (Nat.mod_eq_of_lt (by omega))
    rw [buildFragments_cons timescale .wrapping (mediaFragment_wrapping timescale hpos (by omega))
      hadd, ih (by omega) (by omega), fragmentsOf]
    cases r.isIndex <;> rfl

/-- The release build does not abort in the loop. -/
theorem isSome_buildFragments_wrapping (fragStart : ℕ) :
    (buildFragments .wrapping timescale refs fragStart).isSome := by
  induction refs generalizing fragStart with
  | nil => rfl
  | cons r rs ih =>
    obtain ⟨rest, hrest⟩ := Option.isSome_iff_exists.mp (ih ((fragStart + r.size) % 2 ^ 64))
    rw [buildFragments_cons timescale .wrapping rfl rfl, hrest]
    rfl

end Sums

/-! ### The scan -/

/-- The scan with exact sums. -/
def sidxAtFrom (data : Bytes) : ℕ → ℕ → Option ℕ
  | 0, _ => none
  | fuel + 1, scan =>
    if data.length < scan + 8 then none
    else if beAt data scan 4 < 8 then none
    else if FourCC.at' data (scan + 4) = .sidx then some scan
    else sidxAtFrom data fuel (scan + beAt data scan 4)

/-- Where the scan finds the `sidx` box. -/
def sidxAt (data : Bytes) : Option ℕ := sidxAtFrom data (data.length + 1) 0

/-- A build that adds exactly where the sum fits. -/
def U64Arith.Exact (ops : U64Arith) : Prop :=
  ∀ a b, a + b < 2 ^ 64 → ops.add a b = some (a + b)

theorem U64Arith.exact_wrapping : U64Arith.wrapping.Exact := fun _ _ h =>
  congrArg some (Nat.mod_eq_of_lt h)

theorem U64Arith.exact_checked : U64Arith.checked.Exact := fun _ _ h => if_pos h

section Scan

variable {ops : U64Arith} {data : Bytes}

/-- **The scan terminates and wraps no sum**: every iteration but the last takes 8 bytes or more
of the buffer. -/
theorem findSidxFrom_eq (hops : ops.Exact) (hlen : data.length < 2 ^ 63) {fuel scan : ℕ}
    (hscan : scan + 8 < 2 ^ 64) (hfuel : data.length < scan + fuel) (hpos : 0 < fuel) :
    findSidxFrom ops data fuel scan = some (sidxAtFrom data fuel scan) := by
  induction fuel generalizing scan with
  | zero => exact absurd hpos (lt_irrefl 0)
  | succ fuel ih =>
    rw [findSidxFrom, sidxAtFrom, hops scan 8 hscan, Option.bind_eq_bind, Option.bind_some]
    by_cases hend : data.length < scan + 8
    · rw [if_pos hend, if_pos hend]
      rfl
    rw [if_neg hend, if_neg hend]
    dsimp only
    by_cases hsize : beAt data scan 4 < 8
    · rw [if_pos hsize, if_pos hsize]
      rfl
    rw [if_neg hsize, if_neg hsize]
    by_cases hty : FourCC.at' data (scan + 4) = .sidx
    · rw [if_pos hty, if_pos hty]
      rfl
    rw [if_neg hty, if_neg hty]
    have hlt := beAt_lt data scan 4
    rw [hops _ _ (by omega), Option.bind_some]
    exact ih (by omega) (by omega) (by omega)

theorem findSidxFrom_eq_sidxAt (hops : ops.Exact) (hlen : data.length < 2 ^ 63) :
    findSidxFrom ops data (data.length + 1) 0 = some (sidxAt data) :=
  findSidxFrom_eq hops hlen (by norm_num) (by omega) (Nat.succ_pos _)

/-- The box that is found lies at the position, with a size that covers its header. -/
theorem sidxAtFrom_some {fuel scan pos : ℕ} (h : sidxAtFrom data fuel scan = some pos) :
    pos + 8 ≤ data.length ∧ 8 ≤ beAt data pos 4 ∧ FourCC.at' data (pos + 4) = .sidx := by
  induction fuel generalizing scan with
  | zero => cases h
  | succ fuel ih =>
    rw [sidxAtFrom] at h
    split at h
    · cases h
    split at h
    · cases h
    split at h
    · next hend hsize hty =>
      cases h
      exact ⟨Nat.not_lt.mp hend, Nat.not_lt.mp hsize, hty⟩
    · exact ih h

end Scan

/-! ### The parser -/

section Inner

variable {ops : U64Arith} {data : Bytes}

theorem sidxInner_of_none (hops : ops.Exact) (hlen : data.length < 2 ^ 63)
    (h : sidxAt data = none) (idx : ℕ) : sidxInner ops data idx = some none := by
  rw [sidxInner, findSidxFrom_eq_sidxAt hops hlen, h]
  rfl

/-- Where the box ends in the file, and where its first subsegment starts. -/
theorem sidxInner_of_some (hops : ops.Exact) (hlen : data.length < 2 ^ 63) {pos idx : ℕ}
    (h : sidxAt data = some pos) :
    sidxInner ops data idx = (ops.add idx pos).bind fun start =>
      (ops.add start (beAt data pos 4)).bind fun fileEnd =>
        (readSidxHeader data (pos + 8)).elim (some none) fun header =>
          (ops.add fileEnd header.firstOffset).bind fun fragStart =>
            (buildFragments ops header.timescale
              (readReferences data header.referenceCount header.refsAt) fragStart).map some := by
  rw [sidxInner, findSidxFrom_eq_sidxAt hops hlen, h, Option.bind_eq_bind, Option.bind_some]
  dsimp only
  cases ops.add idx pos with
  | none => rfl
  | some start =>
    cases hend : ops.add start (beAt data pos 4) with
    | none => simp [hend]
    | some fileEnd =>
      cases readSidxHeader data (pos + 8) with
      | none => simp [hend]
      | some header =>
        cases hfrag : ops.add fileEnd header.firstOffset with
        | none => simp [hend, hfrag]
        | some fragStart =>
          simp only [hend, hfrag, Option.bind_eq_bind, Option.bind_some, fragmentsFrom_eq,
            Option.elim_some]
          cases buildFragments ops header.timescale _ fragStart <;> rfl

/-- The release build does not abort. -/
theorem isSome_sidxInner_wrapping (hlen : data.length < 2 ^ 63) (idx : ℕ) :
    (sidxInner .wrapping data idx).isSome := by
  cases h : sidxAt data with
  | none =>
    rw [sidxInner_of_none U64Arith.exact_wrapping hlen h]
    rfl
  | some pos =>
    rw [sidxInner_of_some U64Arith.exact_wrapping hlen h]
    cases readSidxHeader data (pos + 8) with
    | none => rfl
    | some header =>
      show (Option.map some (buildFragments _ _ _ _)).isSome = true
      rw [Option.isSome_map]
      exact isSome_buildFragments_wrapping ..

end Inner

end MediaFlow
