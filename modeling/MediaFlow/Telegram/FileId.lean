import MediaFlow.Lib.Base64
import MediaFlow.Lib.ZeroRuns

/-!
# Bot API file ids

`decode_file_id` of `telegram/media_ref.rs`. Indices and slices are checked: `none` outside is the
abort of the program, `none` inside the answer that a text is no file id.

* `rleDecode_eq`: the loop expands the runs of zeros.
* `readTlBytes_tlBytes`: a TL byte string is read with its padding.
* `isSome_decodeFileId`: no text makes the decoder abort.
* `decodesFileIds`: and what was encoded is decoded.
-/

open Text ByteString Base64

namespace MediaFlow

/-- The integers are bit patterns. -/
structure DecodedFileId where
  typeId : BitVec 32
  dcId : BitVec 32
  id : BitVec 64
  accessHash : BitVec 64
  fileReference : Bytes
deriving DecidableEq

/-- `from_le_bytes`. -/
def ofLeBytes (w : ℕ) (bytes : Bytes) : BitVec w := BitVec.ofNat w (ofBe bytes.reverse)

/-- `rle_decode`, from index `i` on. -/
def rleDecode (data : Bytes) (i : ℕ) : Option Bytes :=
  if i < data.length then do
    let b ← data[i]?
    if b = 0 ∧ i + 1 < data.length then
      let count ← data[i + 1]?
      return List.replicate count.toNat 0 ++ (← rleDecode data (i + 2))
    else return b :: (← rleDecode data (i + 1))
  else some []
termination_by data.length - i

/-- The length of a TL byte string and the size of what it is written in. -/
def tlHeader (data : Bytes) : Option (Option (ℕ × ℕ)) := do
  let first ← data[0]?
  if first = 254 then
    -- long format: the next three bytes are the length
    if data.length < 4 then some none
    else
      let b₁ ← data[1]?
      let b₂ ← data[2]?
      let b₃ ← data[3]?
      return some ((ofLeBytes 32 [b₁, b₂, b₃, 0]).toNat, 4)
  else return some (first.toNat, 1)

/-- `read_tl_bytes`: a TL byte string, and how much of the data it takes. -/
def readTlBytes (data : Bytes) : Option (Option (Bytes × ℕ)) :=
  if data = [] then some none
  else do
    match ← tlHeader data with
    | none => return none
    | some (len, headerSize) =>
      let stop := headerSize + len
      if stop > data.length then return none
      else
        let content ← slice? data headerSize stop
        -- padded to 4-byte alignment
        let padded := (stop + 3) / 4 * 4
        return some (content, if padded ≤ data.length then padded else stop)

/-- `TYPE_ID_FILE_REFERENCE_FLAG`. -/
def fileReferenceFlag : BitVec 32 := 1#32 <<< 25

/-- The file reference behind the first eight bytes, and where it ends. -/
def readFileReference (data : Bytes) (hasReference : Bool) : Option (Option (Bytes × ℕ)) :=
  if hasReference then
    if 8 ≥ data.length then some none
    else do
      match ← readTlBytes (← slice? data 8 data.length) with
      | none => return none
      | some (fref, consumed) => return some (fref, 8 + consumed)
  else some (some ([], 8))

/-- The fields in the expanded data. -/
def readFields (data : Bytes) : Option (Option DecodedFileId) :=
  if data.length < 20 then some none
  else do
    let typeIdRaw := ofLeBytes 32 (← slice? data 0 4)
    let dcId := ofLeBytes 32 (← slice? data 4 8)
    match ← readFileReference data (typeIdRaw &&& fileReferenceFlag ≠ 0) with
    | none => return none
    | some (fileReference, pos) =>
      if pos + 16 > data.length then return none
      else
        let id := ofLeBytes 64 (← slice? data pos (pos + 8))
        let accessHash := ofLeBytes 64 (← slice? data (pos + 8) (pos + 16))
        return some
          { typeId := typeIdRaw &&& 0x00FFFFFF#32
            dcId := dcId
            id := id
            accessHash := accessHash
            fileReference := fileReference }

/-- `decode_file_id`. -/
def decodeFileId (fileId : Str) : Option (Option DecodedFileId) :=
  -- with and without padding
  match (decodeUrlSafe fileId).or (decodeUrlSafePadded fileId) with
  | none => some none
  | some decoded => do readFields (← rleDecode decoded 0)

/-! ### The loop over the runs -/

theorem rleDecode_eq (data : Bytes) (i : ℕ) : rleDecode data i = some (expandZeroRuns (data.drop i)) := by
  induction h : data.length - i using Nat.strong_induction_on generalizing i with
  | _ n ih =>
    rw [rleDecode]
    by_cases hi : i < data.length
    · have hdrop : data.drop i = data[i] :: data.drop (i + 1) := List.drop_eq_getElem_cons hi
      rw [if_pos hi, List.getElem?_eq_getElem hi, Option.bind_eq_bind, Option.bind_some]
      by_cases hrun : data[i] = 0 ∧ i + 1 < data.length
      · have hnext : data.drop (i + 1) = data[i + 1] :: data.drop (i + 2) :=
          List.drop_eq_getElem_cons hrun.2
        rw [if_pos hrun, List.getElem?_eq_getElem hrun.2, Option.bind_eq_bind, Option.bind_some,
          ih (data.length - (i + 2)) (by omega) (i + 2) rfl, hdrop, hnext, expandZeroRuns,
          if_pos hrun.1]
        rfl
      · rw [if_neg hrun, ih (data.length - (i + 1)) (by omega) (i + 1) rfl, hdrop]
        refine congrArg some ?_
        by_cases hb : data[i] = 0
        · -- a zero at the end
          have hlast : data.drop (i + 1) = [] :=
            List.drop_of_length_le (Nat.le_of_not_lt fun hlt => hrun ⟨hb, hlt⟩)
          rw [hlast]
          rfl
        · rw [expandZeroRuns_cons hb]
    · rw [if_neg hi, List.drop_of_length_le (Nat.le_of_not_lt hi)]
      rfl

/-! ### TL byte strings -/

theorem tlHeader_isSome {data : Bytes} (h : data ≠ []) : (tlHeader data).isSome := by
  obtain ⟨first, rest, rfl⟩ := List.exists_cons_of_ne_nil h
  unfold tlHeader
  by_cases hfirst : first = 254
  · by_cases hshort : rest.length + 1 < 4
    · simp [hfirst, hshort]
    · -- the three bytes of the length are there
      have h₁ : 0 < rest.length := by omega
      have h₂ : 1 < rest.length := by omega
      have h₃ : 2 < rest.length := by omega
      simp [hfirst, hshort, List.getElem?_eq_getElem h₁, List.getElem?_eq_getElem h₂,
        List.getElem?_eq_getElem h₃]
  · simp [hfirst]

/-- **Reading a TL byte string** never fails, and takes no more than there is. -/
theorem readTlBytes_total (data : Bytes) :
    ∃ answer, readTlBytes data = some answer ∧ ∀ r ∈ answer, r.2 ≤ data.length := by
  unfold readTlBytes
  by_cases hdata : data = []
  · exact ⟨none, if_pos hdata, fun _ h => absurd h (Option.not_mem_none _)⟩
  · obtain ⟨header, hheader⟩ := Option.isSome_iff_exists.mp (tlHeader_isSome hdata)
    rw [if_neg hdata, hheader]
    cases header with
    | none => exact ⟨none, rfl, fun _ h => absurd h (Option.not_mem_none _)⟩
    | some header =>
      obtain ⟨len, headerSize⟩ := header
      by_cases hstop : headerSize + len > data.length
      · refine ⟨none, ?_, fun _ h => absurd h (Option.not_mem_none _)⟩
        exact if_pos hstop
      · have hslice := slice?_of_le (l := data) (Nat.le_add_right headerSize len) (Nat.le_of_not_lt hstop)
        refine ⟨_, (if_neg hstop).trans (by rw [hslice]; rfl), ?_⟩
        intro r hr
        cases hr
        dsimp only
        split
        · assumption
        · exact Nat.le_of_not_lt hstop

/-! ### The fields -/

theorem readFileReference_total (data : Bytes) (hasReference : Bool) :
    ∃ answer, readFileReference data hasReference = some answer := by
  unfold readFileReference
  cases hasReference with
  | false => exact ⟨_, rfl⟩
  | true =>
    by_cases hshort : 8 ≥ data.length
    · exact ⟨_, if_pos hshort⟩
    · have hslice := slice?_of_le (l := data) (Nat.le_of_not_le hshort) le_rfl
      obtain ⟨answer, hanswer, -⟩ := readTlBytes_total ((data.drop 8).take (data.length - 8))
      rw [if_pos rfl, if_neg hshort, hslice, Option.bind_eq_bind, Option.bind_some, hanswer]
      cases answer with
      | none => exact ⟨_, rfl⟩
      | some r => exact ⟨_, rfl⟩

theorem readFields_total (data : Bytes) : ∃ answer, readFields data = some answer := by
  unfold readFields
  by_cases hshort : data.length < 20
  · exact ⟨_, if_pos hshort⟩
  · have htype := slice?_of_le (l := data) (show 0 ≤ 4 by decide) (by omega)
    have hdc := slice?_of_le (l := data) (show 4 ≤ 8 by decide) (by omega)
    rw [if_neg hshort, htype, hdc]
    simp only [Option.bind_eq_bind, Option.bind_some]
    obtain ⟨answer, hanswer⟩ := readFileReference_total data
      (ofLeBytes 32 ((data.drop 0).take (4 - 0)) &&& fileReferenceFlag ≠ 0)
    rw [hanswer, Option.bind_some]
    cases answer with
    | none => exact ⟨_, rfl⟩
    | some r =>
      obtain ⟨fileReference, pos⟩ := r
      by_cases hend : pos + 16 > data.length
      · exact ⟨_, if_pos hend⟩
      · have hid := slice?_of_le (l := data) (Nat.le_add_right pos 8) (by omega)
        have hhash := slice?_of_le (l := data) (show pos + 8 ≤ pos + 16 by omega) (by omega)
        dsimp only
        rw [hid, hhash]
        exact ⟨_, if_neg hend⟩

/-- **No text makes the decoder abort.** -/
theorem isSome_decodeFileId (fileId : Str) : (decodeFileId fileId).isSome := by
  unfold decodeFileId
  cases (decodeUrlSafe fileId).or (decodeUrlSafePadded fileId) with
  | none => rfl
  | some decoded =>
    obtain ⟨answer, hanswer⟩ := readFields_total (expandZeroRuns (decoded.drop 0))
    dsimp only
    rw [rleDecode_eq, Option.bind_eq_bind, Option.bind_some, hanswer]
    rfl

/-! ### What is encoded -/

/-- Little-endian bytes of a number. -/
def toLeBytes (width value : ℕ) : Bytes := (toBe width value).reverse

theorem toNat_ofLeBytes {w width value : ℕ} (hwidth : value < 256 ^ width) (hw : value < 2 ^ w) :
    (ofLeBytes w (toLeBytes width value)).toNat = value := by
  rw [ofLeBytes, toLeBytes, List.reverse_reverse, ofBe_toBe hwidth, BitVec.toNat_ofNat,
    Nat.mod_eq_of_lt hw]

@[simp] theorem length_toLeBytes (width value : ℕ) : (toLeBytes width value).length = width := by
  rw [toLeBytes, List.length_reverse, length_toBe]

/-- The length of a TL byte string, as it is written. -/
def tlPrefix (length : ℕ) : Bytes :=
  if length < 254 then [UInt8.ofNat length] else 254 :: toLeBytes 3 length

/-- A TL byte string, padded to a multiple of four bytes. -/
def tlBytes (content : Bytes) : Bytes :=
  let written := tlPrefix content.length ++ content
  written ++ List.replicate ((4 - written.length % 4) % 4) 0

/-- A document, as a bot refers to it. -/
structure DocumentRef where
  typeId : BitVec 32
  dcId : BitVec 32
  id : BitVec 64
  accessHash : BitVec 64
  fileReference : Bytes
  typeId_lt : typeId.toNat < 2 ^ 24
  fileReference_ne : fileReference ≠ []
  length_fileReference : fileReference.length < 2 ^ 24

/-- The data of a file id, with what follows the fields. -/
def DocumentRef.serialise (ref : DocumentRef) (trailer : Bytes) : Bytes :=
  toLeBytes 4 (ref.typeId ||| fileReferenceFlag).toNat ++ (toLeBytes 4 ref.dcId.toNat ++
    (tlBytes ref.fileReference ++ (toLeBytes 8 ref.id.toNat ++ (toLeBytes 8 ref.accessHash.toNat ++
      trailer))))

/-- The fields that are to be read. -/
def DocumentRef.decoded (ref : DocumentRef) : DecodedFileId where
  typeId := ref.typeId
  dcId := ref.dcId
  id := ref.id
  accessHash := ref.accessHash
  fileReference := ref.fileReference

/-! ### Reading it back -/

theorem ofLeBytes_toLeBytes {w width : ℕ} (h : 256 ^ width = 2 ^ w) (x : BitVec w) :
    ofLeBytes w (toLeBytes width x.toNat) = x :=
  BitVec.eq_of_toNat_eq (toNat_ofLeBytes (h ▸ x.isLt) x.isLt)

/-- A slice that is written out. -/
theorem slice?_append (pre s post : Bytes) {data : Bytes} {a b : ℕ} (hdata : data = pre ++ (s ++ post))
    (ha : pre.length = a) (hb : a + s.length = b) : slice? data a b = some s := by
  subst hdata ha hb
  refine slice?_eq_some_iff.mpr ⟨Nat.le_add_right _ _, ?_, ?_⟩
  · rw [List.length_append, List.length_append]
    omega
  · rw [List.drop_left, Nat.add_sub_cancel_left, List.take_left]

theorem ofBe_zero_cons (l : Bytes) : ofBe (0 :: l) = ofBe l := rfl

theorem toNat_ofLeBytes_append_zero {length : ℕ} (h : length < 2 ^ 24) :
    (ofLeBytes 32 (toLeBytes 3 length ++ [0])).toNat = length := by
  have hreverse : (toLeBytes 3 length ++ [0]).reverse = 0 :: toBe 3 length := by
    rw [toLeBytes, List.reverse_append, List.reverse_reverse]
    rfl
  rw [ofLeBytes, hreverse, ofBe_zero_cons, ofBe_toBe (by omega), BitVec.toNat_ofNat,
    Nat.mod_eq_of_lt (by omega)]

theorem tlHeader_tlPrefix {length : ℕ} (h : length < 2 ^ 24) (rest : Bytes) :
    tlHeader (tlPrefix length ++ rest) = some (some (length, (tlPrefix length).length)) := by
  unfold tlPrefix
  by_cases hshort : length < 254
  · have hbyte : (UInt8.ofNat length).toNat = length :=
      UInt8.toNat_ofNat_of_lt' (hshort.trans (by decide))
    have hne : UInt8.ofNat length ≠ 254 := by
      intro heq
      rw [heq] at hbyte
      exact hshort.ne hbyte.symm
    rw [if_pos hshort]
    refine (if_neg hne).trans ?_
    rw [hbyte]
    rfl
  · obtain ⟨b₁, b₂, b₃, hbytes⟩ := List.length_eq_three.mp (length_toLeBytes 3 length)
    have hread := toNat_ofLeBytes_append_zero h
    rw [hbytes] at hread
    rw [if_neg hshort, hbytes]
    have hlong : ¬ (254 :: [b₁, b₂, b₃] ++ rest).length < 4 := by
      rw [List.length_append]
      exact Nat.not_lt.mpr (Nat.le_add_right 4 _)
    have hanswer : tlHeader (254 :: [b₁, b₂, b₃] ++ rest)
        = if (254 :: [b₁, b₂, b₃] ++ rest).length < 4 then some none
          else some (some ((ofLeBytes 32 [b₁, b₂, b₃, 0]).toNat, 4)) := rfl
    refine hanswer.trans ((if_neg hlong).trans ?_)
    exact congrArg (fun n => some (some (n, 4))) hread

theorem length_tlBytes (content : Bytes) : (tlBytes content).length
    = ((tlPrefix content.length).length + content.length + 3) / 4 * 4 := by
  unfold tlBytes
  dsimp only
  rw [List.length_append, List.length_append, List.length_replicate]
  omega

theorem readTlBytes_tlBytes {content : Bytes} (h : content.length < 2 ^ 24) (rest : Bytes) :
    readTlBytes (tlBytes content ++ rest) = some (some (content, (tlBytes content).length)) := by
  obtain ⟨padding, hpadding⟩ : ∃ padding, tlBytes content ++ rest
      = tlPrefix content.length ++ (content ++ padding) := by
    refine ⟨List.replicate ((4 - (tlPrefix content.length ++ content).length % 4) % 4) 0 ++ rest, ?_⟩
    unfold tlBytes
    dsimp only
    rw [List.append_assoc, List.append_assoc]
  have hlength : (tlBytes content).length ≤ (tlBytes content ++ rest).length := by
    rw [List.length_append]
    exact Nat.le_add_right _ _
  have hwritten := length_tlBytes content
  have hne : tlBytes content ++ rest ≠ [] := by
    intro hnil
    have hprefix : (tlPrefix content.length).length ≠ 0 := by
      unfold tlPrefix
      split <;> exact Nat.succ_ne_zero _
    rw [hnil, List.length_nil] at hlength
    omega
  unfold readTlBytes
  rw [if_neg hne, hpadding, tlHeader_tlPrefix h]
  rw [hpadding] at hlength
  have hinside : ¬ (tlPrefix content.length).length + content.length
      > (tlPrefix content.length ++ (content ++ padding)).length := by
    rw [List.length_append, List.length_append]
    omega
  simp only [Option.bind_eq_bind, Option.bind_some, slice?_append _ content padding rfl rfl rfl]
  rw [if_neg hinside, ← hwritten, if_pos hlength]
  rfl

/-! ### Decoding what was encoded -/

theorem and_fileReferenceFlag (t : BitVec 32) :
    (t ||| fileReferenceFlag) &&& fileReferenceFlag = fileReferenceFlag := by
  ext i hi
  rw [BitVec.getElem_and, BitVec.getElem_or]
  cases t[i] <;> cases fileReferenceFlag[i] <;> rfl

theorem mask_typeId {t : BitVec 32} (h : t.toNat < 2 ^ 24) :
    (t ||| fileReferenceFlag) &&& 0x00FFFFFF#32 = t := by
  apply BitVec.eq_of_toNat_eq
  have hmask : (0x00FFFFFF#32).toNat = 2 ^ 24 - 1 := rfl
  have hflag : fileReferenceFlag.toNat % 2 ^ 24 = 0 := rfl
  rw [BitVec.toNat_and, BitVec.toNat_or, hmask, Nat.and_two_pow_sub_one_eq_mod, Nat.or_mod_two_pow,
    hflag, Nat.or_zero, Nat.mod_eq_of_lt h]

section Serialised

variable (ref : DocumentRef) (trailer : Bytes)

theorem readFileReference_serialise :
    readFileReference (ref.serialise trailer) true
      = some (some (ref.fileReference, 8 + (tlBytes ref.fileReference).length)) := by
  have hlength : ¬ 8 ≥ (ref.serialise trailer).length := by
    unfold DocumentRef.serialise
    simp only [List.length_append, length_toLeBytes]
    omega
  have hslice : slice? (ref.serialise trailer) 8 (ref.serialise trailer).length
      = some (tlBytes ref.fileReference ++ (toLeBytes 8 ref.id.toNat
        ++ (toLeBytes 8 ref.accessHash.toNat ++ trailer))) := by
    refine slice?_append (toLeBytes 4 (ref.typeId ||| fileReferenceFlag).toNat
      ++ toLeBytes 4 ref.dcId.toNat) _ [] ?_ ?_ ?_
    · rw [List.append_nil, List.append_assoc]
      rfl
    · rw [List.length_append, length_toLeBytes, length_toLeBytes]
    · unfold DocumentRef.serialise
      simp only [List.length_append, length_toLeBytes]
      omega
  unfold readFileReference
  rw [if_pos rfl, if_neg hlength, hslice, Option.bind_eq_bind, Option.bind_some,
    readTlBytes_tlBytes ref.length_fileReference]
  rfl

/-- **The fields are read back**, whatever follows them. -/
theorem readFields_serialise : readFields (ref.serialise trailer) = some (some ref.decoded) := by
  have hlength : (ref.serialise trailer).length
      = 8 + (tlBytes ref.fileReference).length + 16 + trailer.length := by
    unfold DocumentRef.serialise
    simp only [List.length_append, length_toLeBytes]
    omega
  have htl : 4 ≤ (tlBytes ref.fileReference).length := by
    have hpos := List.length_pos_of_ne_nil ref.fileReference_ne
    rw [length_tlBytes]
    omega
  have htype : slice? (ref.serialise trailer) 0 4
      = some (toLeBytes 4 (ref.typeId ||| fileReferenceFlag).toNat) :=
    slice?_append [] _ _ rfl rfl (by rw [length_toLeBytes])
  have hdc : slice? (ref.serialise trailer) 4 8 = some (toLeBytes 4 ref.dcId.toNat) :=
    slice?_append (toLeBytes 4 (ref.typeId ||| fileReferenceFlag).toNat) _ _ rfl
      (length_toLeBytes _ _) (by rw [length_toLeBytes])
  have hid : slice? (ref.serialise trailer) (8 + (tlBytes ref.fileReference).length)
      (8 + (tlBytes ref.fileReference).length + 8) = some (toLeBytes 8 ref.id.toNat) := by
    refine slice?_append (toLeBytes 4 (ref.typeId ||| fileReferenceFlag).toNat
      ++ (toLeBytes 4 ref.dcId.toNat ++ tlBytes ref.fileReference)) _
      (toLeBytes 8 ref.accessHash.toNat ++ trailer) ?_ ?_ ?_
    · simp only [DocumentRef.serialise, List.append_assoc]
    · simp only [List.length_append, length_toLeBytes]
      omega
    · rw [length_toLeBytes]
  have hhash : slice? (ref.serialise trailer) (8 + (tlBytes ref.fileReference).length + 8)
      (8 + (tlBytes ref.fileReference).length + 16) = some (toLeBytes 8 ref.accessHash.toNat) := by
    refine slice?_append (toLeBytes 4 (ref.typeId ||| fileReferenceFlag).toNat
      ++ (toLeBytes 4 ref.dcId.toNat ++ (tlBytes ref.fileReference ++ toLeBytes 8 ref.id.toNat))) _
      trailer ?_ ?_ ?_
    · simp only [DocumentRef.serialise, List.append_assoc]
    · simp only [List.length_append, length_toLeBytes]
      omega
    · rw [length_toLeBytes]
  have hflag : decide ((ref.typeId ||| fileReferenceFlag) &&& fileReferenceFlag ≠ 0) = true := by
    rw [and_fileReferenceFlag]
    rfl
  have h32 : 256 ^ 4 = 2 ^ 32 := by norm_num
  have h64 : 256 ^ 8 = 2 ^ 64 := by norm_num
  unfold readFields
  rw [if_neg (by omega), htype, hdc]
  simp only [Option.bind_eq_bind, Option.bind_some, ofLeBytes_toLeBytes h32, hflag,
    readFileReference_serialise, mask_typeId ref.typeId_lt]
  rw [if_neg (by omega), hid, hhash]
  simp only [Option.bind_some, ofLeBytes_toLeBytes h64]
  rfl

end Serialised

/-- Every file id is decoded to what was encoded, and no text makes the decoder abort. -/
structure DecodesFileIds : Prop where
  exact : ∀ (ref : DocumentRef) (trailer enc : Bytes),
    EncodesZeroRuns (ref.serialise trailer) enc →
      decodeFileId (encodeUrlSafe enc) = some (some ref.decoded)
  total : ∀ fileId : Str, (decodeFileId fileId).isSome

/-- **File ids decode to what was encoded.** -/
theorem decodesFileIds : DecodesFileIds where
  exact ref trailer enc henc := by
    unfold decodeFileId
    rw [decodeUrlSafe_encodeUrlSafe, Option.some_or]
    dsimp only
    rw [rleDecode_eq, List.drop_zero, expandZeroRuns_of_encodes henc, Option.bind_eq_bind,
      Option.bind_some, readFields_serialise]
  total := isSome_decodeFileId

/-- A video, with a file reference that has zeros in it. -/
def videoRef : DocumentRef where
  typeId := 4
  dcId := 2
  id := 0x5a2b00000001
  accessHash := 0xfedcba9876543210
  fileReference := [2, 0, 0, 0, 7]
  typeId_lt := by decide
  fileReference_ne := List.cons_ne_nil _ _
  length_fileReference := by decide

theorem decodesFileIds_video :
    decodeFileId (encodeUrlSafe (encodeZeroRuns (videoRef.serialise [34, 4])))
      = some (some videoRef.decoded) :=
  decodesFileIds.exact videoRef [34, 4] _ (encodes_encodeZeroRuns _)

end MediaFlow
