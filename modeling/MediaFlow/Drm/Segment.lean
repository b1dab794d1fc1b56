import MediaFlow.Drm.Mp4Decrypter
import MediaFlow.Error

/-!
# Whole segments

The two ways a segment is decrypted: `decryptSegment`, over a buffered segment, and
`decryptSegmentStreaming`, which takes the segment in chunks and emits each box when it is
complete. `buildKeyMapFromHex` is `drm/clearkey.rs`, the rest `drm/cenc.rs`.

The stream is a state machine: `drain` is the inner loop over the buffer, `streamChunks` the
outer loop over the chunks. An abort ends a stream after the items it has yielded.
-/

open ByteString Text

namespace MediaFlow

/-- Build a KID to key map from (possibly comma-separated) hex strings. -/
def buildKeyMapFromHex (keyId key : Str) : KeyMap :=
  let parts := fun (s : Str) => ((s.splitOn ',').map trim).filter (· ≠ [])
  let pairs := ((parts keyId).zip (parts key)).filterMap fun (kidHex, keyHex) => do
    let kid ← hexDecode (kidHex.filter (· ≠ '-'))
    let k ← hexDecode (keyHex.filter (· ≠ '-'))
    return (kid, k)
  pairs.foldl (fun m p => m.insert p.1 p.2) ∅

namespace Mp4Decrypter

variable (aes : BlockCipher)

/-! ### The buffered path -/

def processAtom (s : Mp4Decrypter) (atom : Mp4Atom) : Option (Mp4Atom × Mp4Decrypter) :=
  if atom.atomType = .moov then processMoov s atom
  else if atom.atomType = .moof then processMoof s atom
  else if atom.atomType = .sidx then some (processSidx s atom, s)
  else if atom.atomType = .mdat then do return (← decryptMdat aes s atom, s)
  else some (atom, s)

/-- Process the first atom of type `tag` and record the result under its type. -/
def processFirst (atoms : List Mp4Atom) (st : Mp4Decrypter × (FourCC → Option Mp4Atom))
    (tag : FourCC) : Option (Mp4Decrypter × (FourCC → Option Mp4Atom)) :=
  match atoms.find? (fun a => a.atomType = tag) with
  | none => some st
  | some atom => do
    let (result, s) ← processAtom aes st.1 atom
    return (s, Function.update st.2 tag (some result))

/-- `Mp4Decrypter::decrypt_segment`: decrypt a combined init+segment buffer. -/
def decryptSegment (s : Mp4Decrypter) (combined : Bytes) (includeInit : Bool) : Option Bytes := do
  let atoms ← listAtoms combined
  -- process in canonical order
  let (_, processed) ← List.foldlM (processFirst aes atoms) (s, fun _ => none)
    [.moov, .moof, .sidx, .mdat]
  let emitted := atoms.filter fun a =>
    includeInit ∨ ¬ (a.atomType = .ftyp ∨ a.atomType = .moov)
  return emitted.flatMap fun a => ((processed a.atomType).getD a).pack

/-- Process only the init segment (remove encryption boxes from moov). -/
def processInitOnly (s : Mp4Decrypter) (init : Bytes) : Option (Bytes × Mp4Decrypter) := do
  let atoms ← listAtoms init
  match atoms.find? (fun a => a.atomType = .moov) with
  | none => return (atoms.flatMap Mp4Atom.pack, s)
  | some moov =>
    let (p, s) ← processMoov s moov
    return (atoms.flatMap fun a => if a.atomType = .moov then p.pack else a.pack, s)

/-- Prime the decrypter from an init segment without emitting bytes. -/
def initFromSegment (s : Mp4Decrypter) (initBytes : Bytes) : Option Mp4Decrypter := do
  let atoms ← listAtoms initBytes
  List.foldlM (fun s a =>
    if a.atomType = .moov then do return (← processMoov s a).2 else some s) s atoms

end Mp4Decrypter

/-- `cenc::decrypt_segment`: the outer `Option` is `none` on an abort. -/
def decryptSegment (aes : BlockCipher) (initSegment segmentContent : Bytes) (keyId key : Str)
    (includeInit : Bool) : Option (Except Str Bytes) :=
  let keyMap := buildKeyMapFromHex keyId key
  if keyMap.entries = [] then some (.error "No valid key/key_id pairs provided".toList)
  else do
    let decrypter := Mp4Decrypter.new keyMap
    return .ok (← decrypter.decryptSegment aes (initSegment ++ segmentContent) includeInit)

/-! ### The streaming path -/

/-- The variables of the stream between two chunks. -/
structure StreamState where
  decrypter : Mp4Decrypter
  /-- Rolling byte buffer for partial box data. -/
  buf : Bytes
  /-- Type of the box being accumulated. -/
  curType : Option FourCC
  curBody : Bytes
  curBodyRemaining : ℕ

/-- Where the stream stands: reading boxes, forwarding the rest after a box that extends to the
end of the stream, or aborted. -/
inductive StreamMode where
  | running (st : StreamState)
  | forwarding
  | aborted

/-- What the front of the buffer says about the next box. -/
inductive BoxHead where
  /-- The header is not complete yet. -/
  | wait
  /-- The box extends to the end of the stream. -/
  | toEnd
  | box (headerLen bodyLen : ℕ)
deriving DecidableEq

def boxHead (buf : Bytes) : BoxHead :=
  if buf.length < 8 then .wait
  else
    let size := beAt buf 0 4
    if size = 1 then
      if buf.length < 16 then .wait else .box 16 (beAt buf 8 8 - 16)
    else if size = 0 then .toEnd
    else .box 8 (size - 8)

namespace StreamState

/-- Drain a header of `headerLen` bytes and start accumulating its box. -/
def openBox (st : StreamState) (headerLen bodyLen : ℕ) : StreamState :=
  { st with
    buf := st.buf.drop headerLen
    curType := some (FourCC.at' st.buf 4)
    curBody := []
    curBodyRemaining := bodyLen }

/-- Accumulate body bytes from the buffer. -/
def fillBody (st : StreamState) : StreamState :=
  let take := min st.buf.length st.curBodyRemaining
  { st with
    curBody := st.curBody ++ st.buf.take take
    buf := st.buf.drop take
    curBodyRemaining := st.curBodyRemaining - take }

end StreamState

section Stream

variable (aes : BlockCipher)

/-- What a complete box is turned into: `sidx` is dropped, `moof` and `mdat` are processed. -/
def emitBox (s : Mp4Decrypter) (atom : Mp4Atom) : Option (List Bytes × Mp4Decrypter) :=
  if atom.atomType = .sidx then some ([], s)
  else if atom.atomType = .moof then do
    let (a, s) ← s.processMoof atom
    return ([a.pack], s)
  else if atom.atomType = .mdat then do return ([(← s.decryptMdat aes atom).pack], s)
  else some ([atom.pack], s)

/-- The body of the inner loop once a box is open, `next` being the rest of the loop. -/
def fillAndClose (next : StreamState → List Bytes × StreamMode) (st : StreamState) (t : FourCC) :
    List Bytes × StreamMode :=
  let st := st.fillBody
  if st.curBodyRemaining > 0 then ([], .running st)
  else
    match emitBox aes st.decrypter ⟨t, st.curBody⟩ with
    | none => ([], .aborted)
    | some (out, s) =>
      let (rest, mode) := next { st with decrypter := s, curType := none, curBody := [] }
      (out ++ rest, mode)

/-- The inner loop: process as many complete boxes as possible from the buffer. Every iteration
but the first takes a header from the buffer. -/
def drain : ℕ → StreamState → List Bytes × StreamMode
  | 0, st => ([], .running st)
  | fuel + 1, st =>
    match st.curType with
    | some t => fillAndClose aes (drain fuel) st t
    | none =>
      match boxHead st.buf with
      | .wait => ([], .running st)
      | .toEnd =>
        (if st.buf.drop 8 = [] then [st.buf.take 8] else [st.buf.take 8, st.buf.drop 8],
          .forwarding)
      | .box headerLen bodyLen =>
        fillAndClose aes (drain fuel) (st.openBox headerLen bodyLen) (FourCC.at' st.buf 4)

/-- One chunk from upstream. -/
def onChunk (mode : StreamMode) (chunk : Bytes) : List Bytes × StreamMode :=
  match mode with
  | .running st =>
    let buf := st.buf ++ chunk
    drain aes (buf.length + 2) { st with buf := buf }
  | .forwarding => ([chunk], .forwarding)
  | .aborted => ([], .aborted)

/-- The items of a stream, and whether it ended in an abort. -/
structure Yielded where
  items : List (Except AppError Bytes)
  aborted : Bool
deriving DecidableEq

/-- The outer loop over the chunks; an upstream error is yielded and ends the stream. -/
def streamChunks : StreamMode → List (Except AppError Bytes) → Yielded
  | .aborted, _ => ⟨[], true⟩
  | _, [] => ⟨[], false⟩
  | _, .error e :: _ => ⟨[.error e], false⟩
  | mode, .ok chunk :: chunks =>
    let (out, mode) := onChunk aes mode chunk
    let rest := streamChunks mode chunks
    ⟨out.map .ok ++ rest.items, rest.aborted⟩

/-- The stream with its decrypter primed and no byte read. -/
def StreamState.start (s : Mp4Decrypter) : StreamState := ⟨s, [], none, [], 0⟩

/-- `decrypt_segment_streaming`. -/
def decryptSegmentStreaming (initBytes : Bytes) (chunks : List (Except AppError Bytes))
    (keyId key : Str) (includeInit : Bool) : Yielded :=
  let keyMap := buildKeyMapFromHex keyId key
  if keyMap.entries = [] then
    ⟨[.error (.drm "No valid key/key_id pairs provided for streaming".toList)], false⟩
  else
    let decrypter := Mp4Decrypter.new keyMap
    if includeInit then
      match decrypter.processInitOnly initBytes with
      | none => ⟨[], true⟩
      | some (cleaned, s) =>
        let rest := streamChunks aes (.running (.start s)) chunks
        ⟨.ok cleaned :: rest.items, rest.aborted⟩
    else
      match decrypter.initFromSegment initBytes with
      | none => ⟨[], true⟩
      | some s => streamChunks aes (.running (.start s)) chunks

end Stream

end MediaFlow
