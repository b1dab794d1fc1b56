import MediaFlow.Drm.Segment
import MediaFlow.Lib.Framing

/-!
# What the stream delivers

The streaming state machine seen from outside: it delivers, in the sense of `Lib.Framing`, what
`emitBox` makes of the boxes of the media file, whatever the chunks the file arrives in.

`Pending st b` says that `b` is what the stream has read since the last box it closed: the bytes
in its buffer, and those it has already moved into the header and the body of the open box. The
inner loop keeps it (`drain_spec`), and ends only when the pending bytes hold no complete box, so
nothing it has emitted depends on where the next chunk starts.

* `boxFrame_prefixStable`: the front of the buffer is read the same way when more bytes arrive;
* `streamChunks_delivers`: a run of the stream delivers the bytes of its chunks.
-/

open ByteString Text

namespace MediaFlow

/-! ### The framing of boxes -/

/-- The box at the front of a buffer. -/
def boxFrame (b : Bytes) : Frame Mp4Atom :=
  match boxHead b with
  | .wait => .wait
  | .toEnd => .toEnd
  | .box headerLen bodyLen =>
    if headerLen + bodyLen ≤ b.length then
      .frame ⟨FourCC.at' b 4, (b.drop headerLen).take bodyLen⟩ (b.drop (headerLen + bodyLen))
    else .wait

theorem boxHead_of_le {b : Bytes} (h : 8 ≤ b.length) :
    boxHead b = if beAt b 0 4 = 1 then
        if b.length < 16 then .wait else .box 16 (beAt b 8 8 - 16)
      else if beAt b 0 4 = 0 then .toEnd else .box 8 (beAt b 0 4 - 8) :=
  if_neg (Nat.not_lt.mpr h)

/-- A header that has been read is read the same way when more bytes arrive. -/
theorem boxHead_append {b : Bytes} (c : Bytes) (h : boxHead b ≠ .wait) :
    boxHead (b ++ c) = boxHead b := by
  have hb : 8 ≤ b.length := by
    by_contra hlt
    exact h (if_pos (by omega))
  have hbc : 8 ≤ (b ++ c).length := by
    rw [List.length_append]
    omega
  rw [boxHead_of_le hb] at h
  rw [boxHead_of_le hbc, boxHead_of_le hb, beAt_append_left b c (show 0 + 4 ≤ b.length by omega)]
  by_cases h1 : beAt b 0 4 = 1
  · rw [if_pos h1] at h
    rw [if_pos h1, if_pos h1]
    by_cases h16 : b.length < 16
    · exact absurd (if_pos h16) h
    · have hbc16 : ¬ (b ++ c).length < 16 := by
        rw [List.length_append]
        omega
      rw [if_neg h16, if_neg hbc16, beAt_append_left b c (by omega)]
  · rw [if_neg h1, if_neg h1]

/-- A header has 8 or 16 bytes, and the buffer holds it. -/
theorem headerLen_of_boxHead {b : Bytes} {headerLen bodyLen : ℕ}
    (h : boxHead b = .box headerLen bodyLen) : 8 ≤ headerLen ∧ headerLen ≤ b.length := by
  unfold boxHead at h
  split at h
  · cases h
  simp only at h
  split at h
  · split at h
    · cases h
    · cases h
      omega
  split at h
  · cases h
  · cases h
    omega

/-- A header is read the same way when it is all there is. -/
theorem boxHead_take {b : Bytes} {headerLen bodyLen : ℕ}
    (h : boxHead b = .box headerLen bodyLen) :
    boxHead (b.take headerLen) = .box headerLen bodyLen := by
  obtain ⟨hge, hle⟩ := headerLen_of_boxHead h
  have hlen : (b.take headerLen).length = headerLen := by
    rw [List.length_take]
    omega
  have hsize : beAt (b.take headerLen) 0 4 = beAt b 0 4 := by
    have happ : beAt (b.take headerLen ++ b.drop headerLen) 0 4 = beAt (b.take headerLen) 0 4 :=
      beAt_append_left _ _ (by omega)
    rw [List.take_append_drop] at happ
    exact happ.symm
  have hne : boxHead (b.take headerLen) ≠ .wait := by
    rw [boxHead_of_le (by omega)] at h ⊢
    rw [hsize]
    by_cases h1 : beAt b 0 4 = 1
    · rw [if_pos h1] at h ⊢
      split at h
      · cases h
      · cases h
        rw [if_neg (by omega)]
        simp
    · rw [if_neg h1]
      split <;> simp
  have happ := boxHead_append (b.drop headerLen) hne
  rw [List.take_append_drop, h] at happ
  exact happ.symm

theorem boxFrame_of_boxHead {b : Bytes} {headerLen bodyLen : ℕ}
    (h : boxHead b = .box headerLen bodyLen) (hlen : headerLen + bodyLen ≤ b.length) :
    boxFrame b = .frame ⟨FourCC.at' b 4, (b.drop headerLen).take bodyLen⟩
      (b.drop (headerLen + bodyLen)) := by
  unfold boxFrame
  rw [h]
  exact if_pos hlen

/-- **Framing is prefix-stable.** -/
theorem boxFrame_prefixStable : PrefixStable boxFrame where
  frame_append {b a rest} c h := by
    unfold boxFrame at h
    cases hh : boxHead b with
    | wait => rw [hh] at h; cases h
    | toEnd => rw [hh] at h; cases h
    | box headerLen bodyLen =>
      rw [hh] at h
      simp only at h
      have hge := headerLen_of_boxHead hh
      split at h
      · next hlen =>
        cases h
        have hbc : boxHead (b ++ c) = .box headerLen bodyLen := by
          rw [boxHead_append c (by rw [hh]; simp), hh]
        rw [boxFrame_of_boxHead hbc (by rw [List.length_append]; omega),
          FourCC.at'_append b c (by omega), List.drop_append_of_le_length (by omega),
          List.take_append_of_le_length (by rw [List.length_drop]; omega),
          List.drop_append_of_le_length hlen]
      · cases h
  toEnd_append {b} c h := by
    have hh : boxHead b = .toEnd := by
      unfold boxFrame at h
      cases hh : boxHead b with
      | wait => rw [hh] at h; cases h
      | toEnd => rfl
      | box headerLen bodyLen =>
        rw [hh] at h
        simp only at h
        split at h <;> cases h
    unfold boxFrame
    rw [boxHead_append c (by rw [hh]; simp), hh]

/-- A packed box with a 32-bit size is a frame. -/
theorem boxFrame_pack {a : Mp4Atom} (ha : a.Fits) (rest : Bytes) :
    boxFrame (a.pack ++ rest) = .frame a rest := by
  have hlen : (a.pack ++ rest).length = a.packedLen + rest.length := by
    rw [List.length_append, Mp4Atom.length_pack]
  have hge : 8 ≤ a.packedLen := Nat.le_add_left 8 _
  have hsize := beAt_pack [] rest ha
  rw [List.nil_append, List.length_nil] at hsize
  have hhead : boxHead (a.pack ++ rest) = .box 8 (a.packedLen - 8) := by
    unfold boxHead
    rw [if_neg (by omega)]
    simp only [hsize]
    rw [if_neg (by omega), if_neg (by omega)]
  have htype := atomType_pack [] rest a
  rw [List.nil_append, List.length_nil, Nat.zero_add] at htype
  have hbody : (a.pack ++ rest).drop 8 = a.data ++ rest := by
    unfold Mp4Atom.pack
    rw [List.append_assoc, List.drop_left' (by simp)]
  have hrest : (a.pack ++ rest).drop (8 + (a.packedLen - 8)) = rest := by
    rw [List.drop_left' (by rw [Mp4Atom.length_pack]; omega)]
  rw [boxFrame_of_boxHead hhead (by omega), htype, hbody, hrest,
    List.take_left' (by unfold Mp4Atom.packedLen; omega)]

/-! ### The state machine -/

section Stream

variable (aes : BlockCipher)

/-- The bytes that `emitBox` makes of a box. -/
def handleBox (s : Mp4Decrypter) (a : Mp4Atom) : Option (Bytes × Mp4Decrypter) :=
  (emitBox aes s a).map fun p => (p.1.flatten, p.2)

/-- The stream delivers `out` for the bytes `b`. -/
abbrev StreamDelivers := Delivers boxFrame (handleBox aes)

/-- `b` is what the stream has read since the last box it closed. -/
inductive Pending (st : StreamState) : Bytes → Prop where
  | idle : st.curType = none → Pending st st.buf
  | inBox {hdr : Bytes} : st.curType = some (FourCC.at' hdr 4) →
      boxHead hdr = .box hdr.length (st.curBody.length + st.curBodyRemaining) →
      Pending st (hdr ++ st.curBody ++ st.buf)

/-- What is known when the inner loop has made `out` and `mode` of a stream with decrypter `s` and
pending bytes `b`. The clauses speak of every continuation `c` of the file. -/
def DrainSpec (s : Mp4Decrypter) (b : Bytes) : List Bytes × StreamMode → Prop
  | (out, .running st') => ∃ b', Pending st' b' ∧ boxFrame b' = .wait ∧
      ∀ c o aborted, StreamDelivers aes st'.decrypter (b' ++ c) o aborted →
        StreamDelivers aes s (b ++ c) (out.flatten ++ o) aborted
  | (out, .forwarding) => ∀ c, StreamDelivers aes s (b ++ c) (out.flatten ++ c) false
  | (out, .aborted) => ∀ c, StreamDelivers aes s (b ++ c) out.flatten true

variable {aes}

/-- Output for a first box comes before the output for the rest. -/
theorem DrainSpec.cons {s s' : Mp4Decrypter} {b rest : Bytes} {a : Mp4Atom} {out : List Bytes}
    (hframe : boxFrame b = .frame a rest) (hemit : emitBox aes s a = some (out, s'))
    {r : List Bytes × StreamMode} (h : DrainSpec aes s' rest r) :
    DrainSpec aes s b (out ++ r.1, r.2) := by
  have hhandle : handleBox aes s a = some (out.flatten, s') := by rw [handleBox, hemit]; rfl
  have hcons : ∀ c o aborted, StreamDelivers aes s' (rest ++ c) o aborted →
      StreamDelivers aes s (b ++ c) (out.flatten ++ o) aborted := fun c o aborted ho =>
    .frame (boxFrame_prefixStable.frame_append c hframe) hhandle ho
  obtain ⟨out', mode⟩ := r
  cases mode with
  | running st' =>
    obtain ⟨b', hb', hwait, hrun⟩ := h
    refine ⟨b', hb', hwait, fun c o aborted ho => ?_⟩
    rw [List.flatten_append, List.append_assoc]
    exact hcons c _ aborted (hrun c o aborted ho)
  | forwarding =>
    intro c
    rw [List.flatten_append, List.append_assoc]
    exact hcons c _ false (h c)
  | aborted =>
    intro c
    rw [List.flatten_append]
    exact hcons c _ true (h c)

section FillBody

variable {st : StreamState}

theorem fillBody_remaining_pos_iff :
    st.fillBody.curBodyRemaining > 0 ↔ st.buf.length < st.curBodyRemaining := by
  simp only [StreamState.fillBody]
  omega

/-- All of the buffer moves into a body that needs more. -/
theorem fillBody_of_lt (h : st.buf.length < st.curBodyRemaining) :
    st.fillBody.curBody = st.curBody ++ st.buf ∧ st.fillBody.buf = [] ∧
      st.fillBody.curBodyRemaining = st.curBodyRemaining - st.buf.length := by
  simp only [StreamState.fillBody, Nat.min_eq_left h.le, List.take_length, List.drop_length,
    and_self]

/-- A body that needs no more than the buffer takes what it needs. -/
theorem fillBody_of_le (h : st.curBodyRemaining ≤ st.buf.length) :
    st.fillBody.curBody = st.curBody ++ st.buf.take st.curBodyRemaining ∧
      st.fillBody.buf = st.buf.drop st.curBodyRemaining := by
  simp only [StreamState.fillBody, Nat.min_eq_right h, and_self]

end FillBody

/-- The body of the inner loop, when the rest of the loop meets its specification. -/
theorem fillAndClose_spec {next : StreamState → List Bytes × StreamMode} {st : StreamState}
    {hdr : Bytes}
    (hhead : boxHead hdr = .box hdr.length (st.curBody.length + st.curBodyRemaining))
    (hcur : st.curType = some (FourCC.at' hdr 4))
    (hnext : ∀ st' : StreamState, st'.curType = none → st'.buf.length ≤ st.buf.length →
      DrainSpec aes st'.decrypter st'.buf (next st')) :
    DrainSpec aes st.decrypter (hdr ++ st.curBody ++ st.buf)
      (fillAndClose aes next st (FourCC.at' hdr 4)) := by
  have hge := headerLen_of_boxHead hhead
  have hheadAll : boxHead (hdr ++ st.curBody ++ st.buf)
      = .box hdr.length (st.curBody.length + st.curBodyRemaining) := by
    rw [List.append_assoc, boxHead_append _ (by rw [hhead]; simp), hhead]
  have htype : FourCC.at' (hdr ++ st.curBody ++ st.buf) 4 = FourCC.at' hdr 4 := by
    rw [List.append_assoc, FourCC.at'_append _ _ (by omega)]
  have hlen : (hdr ++ st.curBody ++ st.buf).length
      = hdr.length + st.curBody.length + st.buf.length := by
    rw [List.length_append, List.length_append]
  unfold fillAndClose
  by_cases hmore : st.fillBody.curBodyRemaining > 0
  · -- more bytes are needed: all of the buffer has moved into the body
    have hshort := fillBody_remaining_pos_iff.mp hmore
    obtain ⟨hbody, hbuf, hremaining⟩ := fillBody_of_lt hshort
    have hrem : st.fillBody.curBody.length + st.fillBody.curBodyRemaining
        = st.curBody.length + st.curBodyRemaining := by
      rw [hbody, List.length_append, hremaining]
      omega
    simp only [if_pos hmore]
    refine ⟨hdr ++ st.curBody ++ st.buf, ?_, ?_, fun c o aborted ho => ho⟩
    · have hp : Pending st.fillBody (hdr ++ st.fillBody.curBody ++ st.fillBody.buf) :=
        .inBox hcur (by rw [hrem]; exact hhead)
      rw [hbody, hbuf, List.append_nil, ← List.append_assoc] at hp
      exact hp
    · unfold boxFrame
      rw [hheadAll]
      exact if_neg (by omega)
  · -- the box is complete
    have hfull : st.curBodyRemaining ≤ st.buf.length :=
      not_lt.mp (hmore ∘ fillBody_remaining_pos_iff.mpr)
    obtain ⟨hbody, hbuf⟩ := fillBody_of_le hfull
    have hdata : ((hdr ++ st.curBody ++ st.buf).drop hdr.length).take
        (st.curBody.length + st.curBodyRemaining) = st.fillBody.curBody := by
      rw [hbody, List.append_assoc, List.drop_left, List.take_append]
      simp
    have hrest : (hdr ++ st.curBody ++ st.buf).drop
        (hdr.length + (st.curBody.length + st.curBodyRemaining)) = st.fillBody.buf := by
      rw [hbuf, ← Nat.add_assoc, ← List.length_append, List.drop_append]
      simp
    have hframe := boxFrame_of_boxHead hheadAll (by omega)
    rw [htype, hdata, hrest] at hframe
    simp only [if_neg hmore]
    have hdec : st.fillBody.decrypter = st.decrypter := rfl
    rw [hdec]
    cases hemit : emitBox aes st.decrypter ⟨FourCC.at' hdr 4, st.fillBody.curBody⟩ with
    | none =>
      intro c
      refine .abort (boxFrame_prefixStable.frame_append c hframe) ?_
      rw [handleBox, hemit]
      rfl
    | some p =>
      obtain ⟨out, s'⟩ := p
      refine DrainSpec.cons hframe hemit
        (hnext { st.fillBody with decrypter := s', curType := none, curBody := [] } rfl ?_)
      rw [hbuf, List.length_drop]
      omega

/-- **The inner loop.** With enough fuel it emits what the pending bytes deliver, and leaves
pending bytes without a complete box. -/
theorem drain_spec (fuel : ℕ) (st : StreamState) {b : Bytes} (hb : Pending st b)
    (hfuel : st.buf.length + (if st.curType = none then 1 else 2) ≤ fuel) :
    DrainSpec aes st.decrypter b (drain aes fuel st) := by
  induction fuel generalizing st b with
  | zero => split at hfuel <;> omega
  | succ fuel ih =>
    rw [drain]
    cases hb with
    | inBox hcur hhead =>
      rw [if_neg (by rw [hcur]; simp)] at hfuel
      simp only [hcur]
      refine fillAndClose_spec hhead hcur fun st' hidle hle => ih st' (.idle hidle) ?_
      rw [if_pos hidle]
      omega
    | idle hcur =>
      rw [if_pos hcur] at hfuel
      simp only [hcur]
      cases hh : boxHead st.buf with
      | wait =>
        refine ⟨st.buf, .idle hcur, ?_, fun c o aborted ho => ho⟩
        unfold boxFrame
        rw [hh]
      | toEnd =>
        intro c
        have hframe : boxFrame st.buf = .toEnd := by
          unfold boxFrame
          rw [hh]
        have hout : (if st.buf.drop 8 = [] then [st.buf.take 8]
            else [st.buf.take 8, st.buf.drop 8]).flatten = st.buf := by
          have hsplit := List.take_append_drop 8 st.buf
          split
          · next hnil =>
            rw [hnil, List.append_nil] at hsplit
            simp [hsplit]
          · simp
        rw [hout]
        exact .toEnd (boxFrame_prefixStable.toEnd_append c hframe)
      | box headerLen bodyLen =>
        -- the header is drained from the buffer, then the loop goes on as in an open box
        have hge := headerLen_of_boxHead hh
        have hlen : (st.buf.take headerLen).length = headerLen := by
          rw [List.length_take]
          omega
        have htype : FourCC.at' (st.buf.take headerLen) 4 = FourCC.at' st.buf 4 := by
          have h : FourCC.at' (st.buf.take headerLen ++ st.buf.drop headerLen) 4
              = FourCC.at' (st.buf.take headerLen) 4 := FourCC.at'_append _ _ (by omega)
          rw [List.take_append_drop] at h
          exact h.symm
        have hspec := @fillAndClose_spec aes (drain aes fuel) (st.openBox headerLen bodyLen)
          (st.buf.take headerLen) (by simpa [StreamState.openBox, hlen] using boxHead_take hh)
          (by rw [htype]; rfl)
          (fun st' hidle hle => ih st' (.idle hidle) (by
            rw [if_pos hidle]
            have hb : (st.openBox headerLen bodyLen).buf.length = st.buf.length - headerLen :=
              List.length_drop
            omega))
        have hwhole : st.buf.take headerLen ++ (st.openBox headerLen bodyLen).curBody
            ++ (st.openBox headerLen bodyLen).buf = st.buf := by
          simp [StreamState.openBox]
        rw [hwhole, htype] at hspec
        exact hspec

/-! ### Whole runs -/

/-- The bytes of an item of the stream; an error has none. -/
def itemBytes : Except AppError Bytes → Bytes
  | .ok b => b
  | .error _ => []

/-- The bytes of the items a stream yields. -/
def Yielded.bytes (y : Yielded) : Bytes := y.items.flatMap itemBytes

theorem flatMap_itemBytes_ok (out : List Bytes) : (out.map .ok).flatMap itemBytes = out.flatten := by
  induction out with
  | nil => rfl
  | cons o os ih => rw [List.map_cons, List.flatMap_cons, ih, List.flatten_cons, itemBytes]

theorem streamChunks_forwarding (chunks : List Bytes) :
    (streamChunks aes .forwarding (chunks.map .ok)).bytes = chunks.flatten ∧
      (streamChunks aes .forwarding (chunks.map .ok)).aborted = false := by
  induction chunks with
  | nil => exact ⟨rfl, rfl⟩
  | cons c cs ih =>
    refine ⟨?_, ih.2⟩
    rw [List.flatten_cons, ← ih.1]
    rfl

theorem streamChunks_running_cons (st : StreamState) (c : Bytes)
    (chunks : List (Except AppError Bytes)) :
    streamChunks aes (.running st) (.ok c :: chunks)
      = ⟨(onChunk aes (.running st) c).1.map .ok
          ++ (streamChunks aes (onChunk aes (.running st) c).2 chunks).items,
        (streamChunks aes (onChunk aes (.running st) c).2 chunks).aborted⟩ :=
  rfl

/-- A chunk extends the buffer, and the pending bytes with it. -/
theorem Pending.append {st : StreamState} {b : Bytes} (hb : Pending st b) (c : Bytes) :
    Pending { st with buf := st.buf ++ c } (b ++ c) := by
  cases hb with
  | idle hcur => exact .idle hcur
  | inBox hcur hhead =>
    rw [List.append_assoc]
    exact @Pending.inBox { st with buf := st.buf ++ c } _ hcur hhead

/-- **A run of the stream.** From a stream that waits with pending bytes `b`, the chunks yield
what `b` and their bytes deliver. -/
theorem streamChunks_delivers (chunks : List Bytes) {st : StreamState} {b : Bytes}
    (hb : Pending st b) (hwait : boxFrame b = .wait) :
    StreamDelivers aes st.decrypter (b ++ chunks.flatten)
      (streamChunks aes (.running st) (chunks.map .ok)).bytes
      (streamChunks aes (.running st) (chunks.map .ok)).aborted := by
  induction chunks generalizing st b with
  | nil =>
    rw [List.flatten_nil, List.append_nil]
    exact .wait hwait
  | cons c cs ih =>
    have hspec := @drain_spec aes ((st.buf ++ c).length + 2) { st with buf := st.buf ++ c } _
      (hb.append c) (by split <;> simp)
    rw [List.map_cons, streamChunks_running_cons, List.flatten_cons, ← List.append_assoc, onChunk]
    simp only
    generalize drain aes ((st.buf ++ c).length + 2) { st with buf := st.buf ++ c } = r at hspec
    obtain ⟨out, mode⟩ := r
    simp only [Yielded.bytes, List.flatMap_append, flatMap_itemBytes_ok]
    cases mode with
    | running st' =>
      obtain ⟨b', hb', hwait', hrun⟩ := hspec
      exact hrun _ _ _ (ih hb' hwait')
    | forwarding =>
      obtain ⟨hbytes, haborted⟩ := @streamChunks_forwarding aes cs
      rw [Yielded.bytes] at hbytes
      rw [hbytes, haborted]
      exact hspec _
    | aborted =>
      have hnone : streamChunks aes .aborted (cs.map .ok) = ⟨[], true⟩ := by cases cs <;> rfl
      rw [hnone, List.flatMap_nil, List.append_nil]
      exact hspec _

/-- What a stream delivers from its start. -/
theorem streamChunks_start (s : Mp4Decrypter) (chunks : List Bytes) :
    StreamDelivers aes s chunks.flatten
      (streamChunks aes (.running (.start s)) (chunks.map .ok)).bytes
      (streamChunks aes (.running (.start s)) (chunks.map .ok)).aborted :=
  @streamChunks_delivers aes chunks (.start s) [] (.idle rfl) rfl

/-! ### Chunking does not matter -/

/-- Two ways of cutting the same bytes into chunks yield the same bytes. -/
theorem streamChunks_bytes_congr (s : Mp4Decrypter) {chunks₁ chunks₂ : List Bytes}
    (h : chunks₁.flatten = chunks₂.flatten) :
    (streamChunks aes (.running (.start s)) (chunks₁.map .ok)).bytes
      = (streamChunks aes (.running (.start s)) (chunks₂.map .ok)).bytes := by
  have h₁ := @streamChunks_start aes s chunks₁
  have h₂ := @streamChunks_start aes s chunks₂
  rw [h] at h₁
  exact (h₁.deterministic h₂).1

/-- **The bytes of a decrypted stream depend on the bytes of the media file only**, not on the
chunks it arrives in. -/
theorem decryptSegmentStreaming_bytes_congr (aes : BlockCipher) (initBytes : Bytes) (keyId key : Str)
    (includeInit : Bool) {chunks₁ chunks₂ : List Bytes} (h : chunks₁.flatten = chunks₂.flatten) :
    (decryptSegmentStreaming aes initBytes (chunks₁.map .ok) keyId key includeInit).bytes
      = (decryptSegmentStreaming aes initBytes (chunks₂.map .ok) keyId key includeInit).bytes := by
  unfold decryptSegmentStreaming
  by_cases hkeys : (buildKeyMapFromHex keyId key).entries = []
  · -- the one item is an error
    simp only [if_pos hkeys]
  simp only [if_neg hkeys]
  cases includeInit with
  | true =>
    simp only [if_true]
    cases (Mp4Decrypter.new (buildKeyMapFromHex keyId key)).processInitOnly initBytes with
    | none => rfl
    | some cleaned =>
      show itemBytes (.ok cleaned.1) ++ (streamChunks aes _ _).bytes
        = itemBytes (.ok cleaned.1) ++ (streamChunks aes _ _).bytes
      rw [streamChunks_bytes_congr cleaned.2 h]
  | false =>
    simp only [Bool.false_eq_true, if_false]
    cases (Mp4Decrypter.new (buildKeyMapFromHex keyId key)).initFromSegment initBytes with
    | none => rfl
    | some s => exact streamChunks_bytes_congr s h

/-- A box that extends to the end of the file, cut inside its header or not at all. -/
theorem decryptSegmentStreaming_bytes_congr_toEnd :
    (decryptSegmentStreaming (.constant 0) []
        ([[0, 0, 0], [], [0, 0x66, 0x72, 0x65, 0x65, 1], [2]].map .ok) "aa".toList "bb".toList
        false).bytes
      = (decryptSegmentStreaming (.constant 0) []
        ([[0, 0, 0, 0, 0x66, 0x72, 0x65, 0x65, 1, 2]].map .ok) "aa".toList "bb".toList
        false).bytes :=
  decryptSegmentStreaming_bytes_congr (.constant 0) [] _ _ false rfl

end Stream

end MediaFlow
