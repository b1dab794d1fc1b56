import MediaFlow.Drm.Mp4Atom
import MediaFlow.Drm.Sample
import MediaFlow.Lib.Emit

/-!
# The MP4 decrypter

`Mp4Decrypter` of `drm/cenc.rs`: the state it accumulates over a `moov` and its `moof`s, the
processing of both boxes, and the decryption of an `mdat`.

Hash maps that are only read and inserted into are functions with `Function.update`; the key map,
whose size matters, is an `AList`. `u32` values are read from four bytes and kept as naturals;
`i32` values are integers, and their subtraction wraps. As in `Mp4Atom`, `none` is an abort.
-/

open ByteString Emit

namespace MediaFlow

/-- `n as i32`. -/
def asI32 (n : ℤ) : ℤ := n.bmod (2 ^ 32)

/-- `n.to_be_bytes()` of an `i32`. -/
def i32Bytes (n : ℤ) : Bytes := toBe 4 (n % 2 ^ 32).toNat

theorem asI32_congr {a b : ℤ} (h : a % 2 ^ 32 = b % 2 ^ 32) : asI32 a = asI32 b := by
  unfold asI32
  rw [← Int.emod_bmod, ← Int.emod_bmod b]
  exact congrArg (fun n => Int.bmod n (2 ^ 32)) h

theorem asI32_range (n : ℤ) : -2 ^ 31 ≤ asI32 n ∧ asI32 n < 2 ^ 31 := by
  have hlo := Int.le_bmod (x := n) (m := 2 ^ 32) (by norm_num)
  have hhi := Int.bmod_lt (x := n) (m := 2 ^ 32) (by norm_num)
  unfold asI32
  omega

theorem asI32_emod (n : ℤ) : asI32 n % 2 ^ 32 = n % 2 ^ 32 := by
  have h := Int.bmod_emod (x := n) (m := 2 ^ 32)
  unfold asI32
  exact_mod_cast h

/-- Subtracting what was cast to `i32` is subtracting, with one wrap at the end. -/
theorem asI32_sub_asI32 (a b : ℤ) : asI32 (a - asI32 b) = asI32 (a - b) := by
  have hb := asI32_emod b
  exact asI32_congr (by omega)

/-- Truncation gives a shifted value exactly when that value is an `i32` and the shift is a
multiple of `2 ^ 32`. -/
theorem asI32_eq_add_iff (n d : ℤ) :
    asI32 n = n + d ↔ (-2 ^ 31 ≤ n + d ∧ n + d < 2 ^ 31) ∧ 2 ^ 32 ∣ d := by
  have hr := asI32_range n
  have hm := asI32_emod n
  constructor
  · intro h
    omega
  · rintro ⟨⟨hlo, hhi⟩, hd⟩
    omega

theorem asI32_beAt_i32Bytes (pre post : Bytes) (n : ℤ) :
    asI32 (beAt (pre ++ i32Bytes n ++ post) pre.length 4) = asI32 n := by
  have h := beAt_append_right pre (i32Bytes n ++ post) 0 4
  rw [Nat.add_zero, ← List.append_assoc] at h
  have hlt : (n % 2 ^ 32).toNat < 256 ^ 4 := by omega
  rw [h, beAt, List.drop_zero, i32Bytes, List.take_left' (length_toBe 4 _), ofBe_toBe hlt]
  exact asI32_congr (by omega)

/-- Key id to key. -/
abbrev KeyMap := AList fun _ : Bytes => Bytes

/-- Per-track info, collected during moof processing. -/
structure TrackInfo where
  dataOffset : ℤ
  sampleSizes : List ℕ
  sampleInfo : List SampleInfo
  key : Option Bytes
  defaultSampleSize : ℕ
  cryptByteBlock : ℕ
  skipByteBlock : ℕ
  constantIv : Option Bytes
deriving DecidableEq

structure TrackSettings where
  cryptByteBlock : ℕ
  skipByteBlock : ℕ
  constantIv : Option Bytes
  ivSize : ℕ
deriving DecidableEq

structure Mp4Decrypter where
  keyMap : KeyMap
  -- state accumulated during moof / stsd processing
  encryptionScheme : EncScheme
  defaultIvSize : ℕ
  cryptByteBlock : ℕ
  skipByteBlock : ℕ
  constantIv : Option Bytes
  defaultSampleSize : ℕ
  trunSampleSizes : List ℕ
  currentSampleInfo : List SampleInfo
  totalEncryptionOverhead : ℕ
  trackInfos : List TrackInfo
  trackEncryptionSettings : ℕ → Option TrackSettings
  extractedKids : ℕ → Option Bytes
  currentTrackId : ℕ

namespace FourCC

def moov := lit 'm' 'o' 'o' 'v'
def moof := lit 'm' 'o' 'o' 'f'
def mdat := lit 'm' 'd' 'a' 't'
def sidx := lit 's' 'i' 'd' 'x'
def ftyp := lit 'f' 't' 'y' 'p'
def trak := lit 't' 'r' 'a' 'k'
def pssh := lit 'p' 's' 's' 'h'
def tkhd := lit 't' 'k' 'h' 'd'
def mdia := lit 'm' 'd' 'i' 'a'
def minf := lit 'm' 'i' 'n' 'f'
def stbl := lit 's' 't' 'b' 'l'
def stsd := lit 's' 't' 's' 'd'
def sinf := lit 's' 'i' 'n' 'f'
def schi := lit 's' 'c' 'h' 'i'
def schm := lit 's' 'c' 'h' 'm'
def tenc := lit 't' 'e' 'n' 'c'
def frma := lit 'f' 'r' 'm' 'a'
def traf := lit 't' 'r' 'a' 'f'
def tfhd := lit 't' 'f' 'h' 'd'
def trun := lit 't' 'r' 'u' 'n'
def senc := lit 's' 'e' 'n' 'c'
def saiz := lit 's' 'a' 'i' 'z'
def saio := lit 's' 'a' 'i' 'o'

end FourCC

namespace EncScheme

/-- The scheme named by `schm`; anything unknown is `cenc`. -/
def fromBytes (b : FourCC) : EncScheme :=
  if b = .lit 'c' 'b' 'c' 's' then cbcs
  else if b = .lit 'c' 'b' 'c' '1' then cbc1
  else if b = .lit 'c' 'e' 'n' 's' then cens
  else cenc

end EncScheme

namespace Mp4Decrypter

/-- `Mp4Decrypter::new`. -/
def new (keyMap : KeyMap) : Mp4Decrypter where
  keyMap := keyMap
  encryptionScheme := .cenc
  defaultIvSize := 8
  cryptByteBlock := 1
  skipByteBlock := 9
  constantIv := none
  defaultSampleSize := 0
  trunSampleSizes := []
  currentSampleInfo := []
  totalEncryptionOverhead := 0
  trackInfos := []
  trackEncryptionSettings := fun _ => none
  extractedKids := fun _ => none
  currentTrackId := 0

/-! ### Containers -/

/-- A container re-emitted under `tag` with its children rewritten by `step`. -/
def rebuild (tag : FourCC) (step : Mp4Decrypter → Mp4Atom → Option (Bytes × Mp4Decrypter))
    (s : Mp4Decrypter) (parent : Mp4Atom) : Option (Mp4Atom × Mp4Decrypter) := do
  let children ← childrenOf parent.data
  let (newData, s) ← emitAll step s children
  return (⟨tag, newData⟩, s)

/-- Children of type `target` are replaced by what `process` makes of them, others copied. -/
def rewriting (target : FourCC)
    (process : Mp4Decrypter → Mp4Atom → Option (Mp4Atom × Mp4Decrypter))
    (s : Mp4Decrypter) (child : Mp4Atom) : Option (Bytes × Mp4Decrypter) :=
  if child.atomType = target then do
    let (a, s) ← process s child
    return (a.pack, s)
  else some (child.pack, s)

/-! ### moov processing -/

/-- The byte at offset `i` of a payload that is known to be long enough. -/
def byteAt (data : Bytes) (i : ℕ) : ℕ := (data.getD i 0).toNat

def parseSchm (s : Mp4Decrypter) (schm : Mp4Atom) : Mp4Decrypter :=
  if 8 ≤ schm.data.length then
    { s with encryptionScheme := EncScheme.fromBytes (FourCC.at' schm.data 4) }
  else s

/-- The crypt/skip pattern of a `tenc` box of version 1 or later. -/
def tencPattern (data : Bytes) : Option (ℕ × ℕ) :=
  if byteAt data 0 > 0 ∧ 6 ≤ data.length then
    some (byteAt data 5 / 16 % 16, byteAt data 5 % 16)
  else none

/-- KID: 16 bytes at offset 8. -/
def tencKid (data : Bytes) : Option Bytes :=
  if 24 ≤ data.length then some ((data.drop 8).take 16) else none

/-- IV size at offset 7; a size of 0 announces a constant IV and is kept as 16. -/
def tencIvSize (data : Bytes) : Option ℕ :=
  let ivSize := byteAt data 7
  if ivSize = 0 ∨ ivSize = 8 ∨ ivSize = 16 then some (if ivSize > 0 then ivSize else 16) else none

/-- The constant IV after the KID, when the IV size is 0. -/
def tencConstantIv (data : Bytes) : Option Bytes :=
  if byteAt data 7 = 0 ∧ data.length > 24 then
    let civSize := byteAt data 24
    if civSize > 0 ∧ data.length ≥ 25 + civSize then some ((data.drop 25).take civSize) else none
  else none

/-- The settings a `tenc` box gives its track. -/
def tencSettings (data : Bytes) : TrackSettings where
  cryptByteBlock := ((tencPattern data).getD (1, 9)).1
  skipByteBlock := ((tencPattern data).getD (1, 9)).2
  constantIv := tencConstantIv data
  ivSize := (tencIvSize data).getD 8

def parseTenc (s : Mp4Decrypter) (tenc : Mp4Atom) : Mp4Decrypter :=
  let data := tenc.data
  if data.length < 8 then s
  else
    { s with
      cryptByteBlock := ((tencPattern data).getD (s.cryptByteBlock, s.skipByteBlock)).1
      skipByteBlock := ((tencPattern data).getD (s.cryptByteBlock, s.skipByteBlock)).2
      extractedKids :=
        match tencKid data with
        | some kid =>
          if s.currentTrackId > 0 then Function.update s.extractedKids s.currentTrackId (some kid)
          else s.extractedKids
        | none => s.extractedKids
      defaultIvSize := (tencIvSize data).getD s.defaultIvSize
      constantIv := (tencConstantIv data).or s.constantIv
      trackEncryptionSettings :=
        if s.currentTrackId > 0 then
          Function.update s.trackEncryptionSettings s.currentTrackId (some (tencSettings data))
        else s.trackEncryptionSettings }

/-- The children of `schi`: every `tenc` is parsed. -/
def parseSchi (s : Mp4Decrypter) (schi : Mp4Atom) : Option Mp4Decrypter := do
  let children ← childrenOf schi.data
  return children.foldl (fun s c => if c.atomType = .tenc then parseTenc s c else s) s

/-- One child of `sinf`, with the codec format found so far. -/
def sinfChild (st : Mp4Decrypter × Option FourCC) (child : Mp4Atom) :
    Option (Mp4Decrypter × Option FourCC) :=
  if child.atomType = .frma ∧ child.data.length ≥ 4 then
    some (st.1, some (FourCC.at' child.data 0))
  else if child.atomType = .schm then some (parseSchm st.1 child, st.2)
  else if child.atomType = .schi then do return (← parseSchi st.1 child, st.2)
  else some st

def extractCodecFormat (s : Mp4Decrypter) (sinf : Mp4Atom) :
    Option (Mp4Decrypter × Option FourCC) := do
  let children ← childrenOf sinf.data
  List.foldlM sinfChild (s, none) children

/-- One child of a sample entry. -/
def sampleEntryChild (st : Mp4Decrypter × Option FourCC) (child : Mp4Atom) :
    Option (Bytes × (Mp4Decrypter × Option FourCC)) :=
  if child.atomType = .sinf then do
    let st ← extractCodecFormat st.1 child
    return ([], st)
  else if child.atomType = .schi ∨ child.atomType = .tenc ∨ child.atomType = .schm then
    some ([], st)
  else some (child.pack, st)

/-- Fixed-field size of a sample entry. -/
def sampleEntryFixedSize (t : FourCC) : ℕ :=
  if t = .lit 'm' 'p' '4' 'a' ∨ t = .lit 'e' 'n' 'c' 'a' then 28
  else if t = .lit 'm' 'p' '4' 'v' ∨ t = .lit 'e' 'n' 'c' 'v' ∨ t = .lit 'a' 'v' 'c' '1' ∨
      t = .lit 'h' 'e' 'v' '1' ∨ t = .lit 'h' 'v' 'c' '1' then 78
  else 16

def processSampleEntry (s : Mp4Decrypter) (entry : Mp4Atom) :
    Option (Mp4Atom × Mp4Decrypter) :=
  let fixedSize := sampleEntryFixedSize entry.atomType
  if entry.data.length < fixedSize then some (entry, s)
  else do
    let children ← listAtoms (entry.data.drop fixedSize)
    let (newData, s, codecFormat) ← emitAll sampleEntryChild (s, none) children
    return (⟨codecFormat.getD entry.atomType, entry.data.take fixedSize ++ newData⟩, s)

/-- The loop over the sample entries of `stsd`. A failed read leaves the parser where it is, so
every later read fails too and the loop may stop. -/
def stsdEntries (data : Bytes) : ℕ → ℕ → Mp4Decrypter → Option (Bytes × Mp4Decrypter)
  | 0, _, s => some ([], s)
  | n + 1, pos, s => do
    match ← readAtomAt data pos data.length with
    | none => return ([], s)
    | some (entry, next) =>
      let (processed, s) ← processSampleEntry s entry
      let (rest, s) ← stsdEntries data n next s
      return (processed.pack ++ rest, s)

def processStsd (s : Mp4Decrypter) (stsd : Mp4Atom) : Option (Mp4Atom × Mp4Decrypter) :=
  if stsd.data.length < 8 then some (stsd, s)
  else do
    let (entries, s) ← stsdEntries (stsd.data.drop 8) (beAt stsd.data 4 4) 0 s
    return (⟨.stsd, stsd.data.take 8 ++ entries⟩, s)

def processStbl := rebuild .stbl (rewriting .stsd processStsd)

def processMinf := rebuild .minf (rewriting .stbl processStbl)

def processMdia := rebuild .mdia (rewriting .minf processMinf)

/-- First pass over a `trak`: the track ID of its first `tkhd`. -/
def readTkhd (s : Mp4Decrypter) (children : List Mp4Atom) : Option Mp4Decrypter :=
  match children.find? (fun c => c.atomType = .tkhd) with
  | none => some s
  | some tkhd =>
    match tkhd.data with
    -- `child.data[0]` on an empty box
    | [] => none
    | version :: _ =>
      let idOffset := if version = 0 then 12 else 20
      if idOffset + 4 ≤ tkhd.data.length then
        some { s with currentTrackId := beAt tkhd.data idOffset 4 }
      else some s

def processTrak (s : Mp4Decrypter) (trak : Mp4Atom) : Option (Mp4Atom × Mp4Decrypter) := do
  let children ← childrenOf trak.data
  let s ← readTkhd s children
  let (newData, s) ← emitAll (rewriting .mdia processMdia) s children
  return (⟨.trak, newData⟩, s)

/-- One child of `moov`: tracks are processed, `pssh` boxes dropped. -/
def moovChild (s : Mp4Decrypter) (child : Mp4Atom) : Option (Bytes × Mp4Decrypter) :=
  if child.atomType = .trak then do
    let (a, s) ← processTrak s child
    return (a.pack, s)
  else if child.atomType ≠ .pssh then some (child.pack, s)
  else some ([], s)

def processMoov := rebuild .moov moovChild

/-! ### moof processing -/

/-- `senc`, `saiz` and `saio` boxes are stripped from a `traf`. -/
def isEncryptionBox (t : FourCC) : Bool := t = .senc ∨ t = .saiz ∨ t = .saio

/-- The packed size of the boxes that are stripped from the children of one `traf`. -/
def trafOverhead (children : List Mp4Atom) : ℕ :=
  ((children.filter fun a => isEncryptionBox a.atomType).map Mp4Atom.packedLen).sum

/-- First pass over a `moof`: the total encryption overhead. -/
def encryptionOverhead : List Mp4Atom → Option ℕ
  | [] => some 0
  | child :: rest =>
    if child.atomType = .traf then do
      let trafChildren ← childrenOf child.data
      return trafOverhead trafChildren + (← encryptionOverhead rest)
    else encryptionOverhead rest

/-- The default sample size of a `tfhd` that carries one. -/
def tfhdDefaultSampleSize (data : Bytes) : Option ℕ :=
  let flags := beAt data 0 4 % 2 ^ 24
  let offset := 8
    + (if flags.testBit 0 then 8 else 0) -- base-data-offset
    + (if flags.testBit 1 then 4 else 0) -- sample-description-index
    + (if flags.testBit 3 then 4 else 0) -- default-sample-duration
  if 8 ≤ data.length ∧ flags.testBit 4 ∧ offset + 4 ≤ data.length then some (beAt data offset 4)
  else none

def parseTfhd (s : Mp4Decrypter) (tfhd : Mp4Atom) : Mp4Decrypter :=
  { s with defaultSampleSize := (tfhdDefaultSampleSize tfhd.data).getD s.defaultSampleSize }

/-- The subsample entries of one sample: `(entries, next position)`. -/
def sencSubSamples (data : Bytes) : ℕ → ℕ → List (ℕ × ℕ) × ℕ
  | 0, pos => ([], pos)
  | n + 1, pos =>
    if pos + 6 ≤ data.length then
      let (rest, next) := sencSubSamples data n (pos + 6)
      ((beAt data pos 2, beAt data (pos + 2) 4) :: rest, next)
    else sencSubSamples data n pos

/-- The samples of a `senc` box from `pos` on. `ivOf` is the constant IV when one is used. -/
def sencSamples (data : Bytes) (hasSubSamples : Bool) (ivSize : ℕ) (constantIv : Option Bytes) :
    ℕ → ℕ → List SampleInfo
  | 0, _ => []
  | n + 1, pos =>
    let next := match constantIv with | some _ => pos | none => pos + ivSize
    -- the IV is cut off: the loop breaks
    if constantIv = none ∧ next > data.length then []
    else
      let iv := constantIv.getD ((data.drop pos).take ivSize)
      if hasSubSamples ∧ next + 2 ≤ data.length then
        let (subSamples, next) := sencSubSamples data (beAt data next 2) (next + 2)
        ⟨true, iv, subSamples⟩ :: sencSamples data hasSubSamples ivSize constantIv n next
      else ⟨true, iv, []⟩ :: sencSamples data hasSubSamples ivSize constantIv n next

/-- The constant IV that replaces the IVs of `senc` in the `cbcs` scheme. -/
def sencConstantIv (s : Mp4Decrypter) : Option Bytes :=
  if s.encryptionScheme = .cbcs then s.constantIv else none

def parseSenc (s : Mp4Decrypter) (senc : Mp4Atom) : List SampleInfo :=
  let data := senc.data
  if data.length < 8 then []
  else
    let flags := beAt data 0 4 % 2 ^ 24
    sencSamples data (flags.testBit 1) s.defaultIvSize (sencConstantIv s) (beAt data 4 4) 8

/-- The sample sizes of a `trun`, read from `off` on; 0 where it gives none. -/
def trunSizesFrom (data : Bytes) (flags : ℕ) : ℕ → ℕ → List ℕ
  | 0, _ => []
  | n + 1, off =>
    let off := if flags.testBit 8 then off + 4 else off -- sample-duration
    let size := if flags.testBit 9 ∧ off + 4 ≤ data.length then beAt data off 4 else 0
    let off := if flags.testBit 9 then off + 4 else off
    let off := if flags.testBit 10 then off + 4 else off -- sample-flags
    let off := if flags.testBit 11 then off + 4 else off -- composition-time-offset
    size :: trunSizesFrom data flags n off

def trunDataOffset (data : Bytes) : ℤ :=
  if (beAt data 0 4).testBit 0 ∧ 12 ≤ data.length then asI32 (beAt data 8 4) else 0

/-- All sample sizes of a `trun`. -/
def trunSizes (data : Bytes) : List ℕ :=
  let flags := beAt data 0 4
  let off := if flags.testBit 0 then 12 else 8
  let off := if flags.testBit 2 then off + 4 else off -- first-sample-flags
  trunSizesFrom data flags (beAt data 4 4) off

/-- Returns the sample count and the data offset. -/
def processTrun (s : Mp4Decrypter) (trun : Mp4Atom) : (ℕ × ℤ) × Mp4Decrypter :=
  if trun.data.length < 8 then ((0, 0), s)
  else
    ((beAt trun.data 4 4, trunDataOffset trun.data),
      { s with trunSampleSizes := trunSizes trun.data })

def modifyTrun (s : Mp4Decrypter) (trun : Mp4Atom) : Mp4Atom :=
  let data := trun.data
  if data.length < 12 then trun
  else if (beAt data 0 4 % 2 ^ 24).testBit 0 then
    let current := asI32 (beAt data 8 4)
    let newOffset := asI32 (current - asI32 s.totalEncryptionOverhead)
    ⟨.trun, patch data 8 (i32Bytes newOffset)⟩
  else ⟨.trun, data⟩

def processSidx (s : Mp4Decrypter) (sidx : Mp4Atom) : Mp4Atom :=
  let data := sidx.data
  if 36 ≤ data.length then
    let current := beAt data 32 4
    let refType := current / 2 ^ 31
    -- the subtraction saturates
    let referencedSize := current % 2 ^ 31 - s.totalEncryptionOverhead % 2 ^ 32
    ⟨.sidx, patch data 32 (toBe 4 (refType * 2 ^ 31 + referencedSize))⟩
  else ⟨.sidx, data⟩

/-! ### Key lookup -/

/-- The only key of a key map of size 1. -/
def getCurrentKey (s : Mp4Decrypter) : Option Bytes :=
  match s.keyMap.entries with
  | [e] => some e.2
  | _ => none

/-- The KID with the first three UUID components in little-endian byte order. -/
def swapKid (kid : Bytes) : Bytes :=
  (kid.take 4).reverse ++ ((kid.drop 4).take 2).reverse ++ ((kid.drop 6).take 2).reverse
    ++ kid.drop 8

def getKeyForTrack (s : Mp4Decrypter) (trackId : ℕ) : Option Bytes :=
  let direct := do
    let kid ← s.extractedKids trackId
    if kid.all (· = 0) ∧ kid.length = 16 then none
    else
      (s.keyMap.lookup kid).or
        -- PlayReady GUID fallback
        (if kid.length = 16 then s.keyMap.lookup (swapKid kid) else none)
  -- fallback: single key
  direct.or s.getCurrentKey

/-! ### traf -/

/-- The local variables of `process_traf`. -/
structure TrafLocals where
  tfhdTrackId : ℕ := 0
  hasTfhd : Bool := false
  sampleCount : ℕ := 0
  trunDataOffset : ℤ := 0
  sampleInfo : List SampleInfo := []
  trackDefaultSampleSize : ℕ := 0
deriving DecidableEq

/-- One child of a `traf`. -/
def trafChild (st : Mp4Decrypter × TrafLocals) (child : Mp4Atom) :
    Option (Bytes × (Mp4Decrypter × TrafLocals)) :=
  let (s, l) := st
  if child.atomType = .tfhd then
    let s := parseTfhd s child
    some (child.pack, s,
      { l with
        hasTfhd := true
        trackDefaultSampleSize := s.defaultSampleSize
        tfhdTrackId := if 8 ≤ child.data.length then beAt child.data 4 4 else l.tfhdTrackId })
  else if child.atomType = .trun then
    let ((sc, doff), s) := processTrun s child
    some ((modifyTrun s child).pack, s, { l with sampleCount := sc, trunDataOffset := doff })
  else if child.atomType = .senc then
    -- senc is not written (stripped)
    some ([], s, { l with sampleInfo := parseSenc s child })
  else if child.atomType = .saiz ∨ child.atomType = .saio then some ([], s, l)
  else some (child.pack, s, l)

/-- The crypt/skip pattern and constant IV of a track, or those of the last `tenc`. -/
def trackPattern (s : Mp4Decrypter) (trackId : ℕ) : ℕ × ℕ × Option Bytes :=
  match s.trackEncryptionSettings trackId with
  | some t => (t.cryptByteBlock, t.skipByteBlock, t.constantIv)
  | none => (s.cryptByteBlock, s.skipByteBlock, s.constantIv)

/-- The record `process_traf` pushes after its loop. -/
def trackInfoOf (s : Mp4Decrypter) (l : TrafLocals) : TrackInfo where
  dataOffset := l.trunDataOffset
  sampleSizes := s.trunSampleSizes
  sampleInfo := l.sampleInfo
  key := getKeyForTrack s l.tfhdTrackId
  defaultSampleSize := l.trackDefaultSampleSize
  cryptByteBlock := (trackPattern s l.tfhdTrackId).1
  skipByteBlock := (trackPattern s l.tfhdTrackId).2.1
  constantIv := (trackPattern s l.tfhdTrackId).2.2

/-- The `tfhd` that is synthesised for a `traf` without one. -/
def synthesizedTfhd (trackId : ℕ) : Mp4Atom := ⟨.tfhd, toBe 4 0 ++ toBe 4 trackId⟩

def processTraf (s : Mp4Decrypter) (traf : Mp4Atom) : Option (Mp4Atom × Mp4Decrypter) := do
  let children ← childrenOf traf.data
  let (newData, s, l) ← emitAll trafChild (s, {}) children
  let s := { s with
    trackInfos := s.trackInfos ++ [trackInfoOf s l]
    currentSampleInfo := l.sampleInfo }
  let newData :=
    if ¬ l.hasTfhd ∧ s.currentTrackId > 0 then (synthesizedTfhd s.currentTrackId).pack ++ newData
    else newData
  return (⟨.traf, newData⟩, s)

def processMoof (s : Mp4Decrypter) (moof : Mp4Atom) : Option (Mp4Atom × Mp4Decrypter) := do
  let children ← childrenOf moof.data
  let overhead ← encryptionOverhead children
  let s := { s with trackInfos := [], totalEncryptionOverhead := overhead }
  let (newData, s) ← emitAll (rewriting .traf processTraf) s children
  return (⟨.moof, newData⟩, s)

/-! ### mdat decryption -/

section Mdat

variable (aes : BlockCipher)

/-- The sample loop of the single-track fallback. -/
def fallbackLoop (s : Mp4Decrypter) (key mdatData : Bytes) :
    List SampleInfo → ℕ → ℕ → Option Bytes
  | [], _, _ => some []
  | info :: infos, i, pos =>
    if pos ≥ mdatData.length then some []
    else
      let given := s.trunSampleSizes.getD i 0
      let size :=
        if given = 0 then
          if s.defaultSampleSize > 0 then s.defaultSampleSize else mdatData.length - pos
        else given
      do
        let dec ← decryptSample aes ((mdatData.drop pos).take size) info key s.encryptionScheme
          s.cryptByteBlock s.skipByteBlock s.constantIv
        return dec ++ (← fallbackLoop s key mdatData infos (i + 1) (pos + size))

/-- The sample loop over one track of `decrypt_mdat_multi_track`. -/
def trackLoop (scheme : EncScheme) (mdatData : Bytes) (track : TrackInfo) (key : Bytes) :
    List SampleInfo → ℕ → ℕ → Bytes → Option Bytes
  | [], _, _, decrypted => some decrypted
  | info :: infos, i, pos, decrypted =>
    let given := track.sampleSizes.getD i 0
    if given = 0 ∧ track.defaultSampleSize = 0 then
      -- `continue`
      trackLoop scheme mdatData track key infos (i + 1) pos decrypted
    else
      let size := if given = 0 then track.defaultSampleSize else given
      if pos + size > mdatData.length then some decrypted
      else do
        let dec ← decryptSample aes ((mdatData.drop pos).take size) info key scheme
          track.cryptByteBlock track.skipByteBlock track.constantIv
        trackLoop scheme mdatData track key infos (i + 1) (pos + size)
          (patch decrypted pos (dec.take size))

/-- Where a track starts in the mdat, relative to the track with the smallest offset. -/
def mdatPosStart (track : TrackInfo) (firstDataOffset : ℤ) : ℕ :=
  (max (asI32 (track.dataOffset - firstDataOffset)) 0).toNat

/-- The loop over the tracks of `decrypt_mdat_multi_track`. -/
def tracksLoop (scheme : EncScheme) (mdatData : Bytes) (firstDataOffset : ℤ) :
    List TrackInfo → Bytes → Option Bytes
  | [], decrypted => some decrypted
  | track :: tracks, decrypted =>
    match track.key with
    | none => tracksLoop scheme mdatData firstDataOffset tracks decrypted
    | some key =>
      if track.sampleInfo = [] then tracksLoop scheme mdatData firstDataOffset tracks decrypted
      else do
        let decrypted ← trackLoop aes scheme mdatData track key track.sampleInfo 0
          (mdatPosStart track firstDataOffset) decrypted
        tracksLoop scheme mdatData firstDataOffset tracks decrypted

/-- `sort_by_key(|t| t.data_offset)`: stable. -/
def sortTracks (tracks : List TrackInfo) : List TrackInfo :=
  tracks.insertionSort fun a b => a.dataOffset ≤ b.dataOffset

def decryptMdatMultiTrack (s : Mp4Decrypter) (mdat : Mp4Atom) : Option Mp4Atom :=
  match sortTracks s.trackInfos with
  | [] => some mdat
  | first :: rest => do
    let decrypted ← tracksLoop aes s.encryptionScheme mdat.data first.dataOffset (first :: rest)
      mdat.data
    return ⟨.mdat, decrypted⟩

def decryptMdat (s : Mp4Decrypter) (mdat : Mp4Atom) : Option Mp4Atom :=
  if s.trackInfos ≠ [] then decryptMdatMultiTrack aes s mdat
  else
    -- single-track fallback
    match getCurrentKey s with
    | none => some mdat
    | some key =>
      if s.currentSampleInfo = [] then some mdat
      else do
        return ⟨.mdat, ← fallbackLoop aes s key mdat.data s.currentSampleInfo 0 0⟩

end Mdat

end Mp4Decrypter

end MediaFlow
