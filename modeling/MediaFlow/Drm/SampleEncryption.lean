import MediaFlow.Drm.CensPattern

/-!
# Encrypted samples

What encryption makes of a sample, scheme by scheme (`SampleEncrypted`): with `cenc` and `cens` the
protected parts share one keystream, with `cbc1` they are one chain, and with `cbcs` each of them is a
chain of its own. `decryptSample_of_encrypted` says for which samples `decryptSample` takes this back.
-/

open ByteString

namespace MediaFlow

/-! ### The parts of a sample -/

/-- The protected parts one by one, with what follows the last subsample. -/
def protectedPieces : List (ℕ × ℕ) → Bytes → List Bytes
  | [], s => [s]
  | (clear, enc) :: rest, s =>
    (s.drop clear).take enc :: protectedPieces rest (s.drop (clear + enc))

theorem flatten_protectedPieces (subs : List (ℕ × ℕ)) (s : Bytes) :
    (protectedPieces subs s).flatten = protectedParts subs s := by
  induction subs generalizing s with
  | nil => exact List.append_nil s
  | cons p rest ih =>
    obtain ⟨clear, enc⟩ := p
    rw [protectedPieces, List.flatten_cons, ih, protectedParts]

theorem map_length_protectedPieces {subs : List (ℕ × ℕ)} {s : Bytes}
    (h : subSampleTotal subs ≤ s.length) :
    (protectedPieces subs s).map List.length = partLengths subs s.length := by
  induction subs generalizing s with
  | nil => rfl
  | cons p rest ih =>
    obtain ⟨clear, enc⟩ := p
    obtain ⟨hfirst, hrest⟩ := subSampleTotal_cons_le h
    rw [protectedPieces, List.map_cons, length_part hfirst, ih (by rwa [List.length_drop]),
      List.length_drop, partLengths]

/-- **A sample is its parts.** -/
theorem eq_of_parts {subs : List (ℕ × ℕ)} {x y : Bytes} (hlen : x.length = y.length)
    (hfit : subSampleTotal subs ≤ x.length) (hclear : clearParts subs x = clearParts subs y)
    (hprotected : protectedParts subs x = protectedParts subs y) : x = y := by
  induction subs generalizing x y with
  | nil => exact hprotected
  | cons p rest ih =>
    obtain ⟨clear, enc⟩ := p
    obtain ⟨hfirst, hrest⟩ := subSampleTotal_cons_le hfit
    rw [clearParts, clearParts] at hclear
    rw [protectedParts, protectedParts] at hprotected
    obtain ⟨hclear₁, hclear₂⟩ := List.append_inj hclear (by
      rw [List.length_take, List.length_take, hlen])
    obtain ⟨hpart₁, hpart₂⟩ := List.append_inj hprotected (by
      rw [length_part hfirst, length_part (hlen ▸ hfirst)])
    have hlater := @ih (x.drop (clear + enc)) (y.drop (clear + enc))
      (by rw [List.length_drop, List.length_drop, hlen]) (by rwa [List.length_drop]) hclear₂ hpart₂
    rw [← List.drop_drop, ← List.drop_drop] at hlater
    rw [← List.take_append_drop clear x, ← List.take_append_drop clear y, hclear₁,
      ← List.take_append_drop enc (x.drop clear), ← List.take_append_drop enc (y.drop clear),
      hpart₁, hlater]

section Decode

variable {dec : Bytes → Bytes} (hdec : ∀ d, (dec d).length = d.length)

theorem decodedParts_eq_flatten (count : ℕ → ℕ) (subs : List (ℕ × ℕ)) (off : ℕ) (s : Bytes) :
    decodedParts (fun _ => dec) count subs off s = ((protectedPieces subs s).map dec).flatten := by
  induction subs generalizing off s with
  | nil => exact (List.append_nil _).symm
  | cons p rest ih =>
    obtain ⟨clear, enc⟩ := p
    rw [decodedParts, ih, protectedPieces, List.map_cons, List.flatten_cons]

/-- The subsamples make up the sample, or there are none. -/
def Covered (subs : List (ℕ × ℕ)) (len : ℕ) : Prop := subs = [] ∨ subSampleTotal subs = len

theorem Covered.le {subs : List (ℕ × ℕ)} {len : ℕ} (h : Covered subs len) :
    subSampleTotal subs ≤ len := by
  rcases h with rfl | h
  · exact Nat.zero_le len
  · exact h.le

include hdec

/-- **The CBC schemes** decrypt the protected parts one by one. -/
theorem decryptSampleCbc_eq {sample : Bytes} {info : SampleInfo}
    (h : Covered info.subSamples sample.length) :
    decryptSampleCbc dec sample info =
      some (decodeParts (fun _ => dec) ceilBlocks info.subSamples 0 sample) := by
  unfold decryptSampleCbc
  by_cases hsubs : info.subSamples = []
  · rw [if_pos hsubs, hsubs]
    rfl
  have htotal := h.resolve_left hsubs
  obtain ⟨out, last, hloop, hout⟩ := @subSampleLoop_eq (fun _ => dec) sample info.subSamples 0 0
    (by rw [Nat.zero_add]; exact h.le)
  rw [Nat.zero_add, htotal] at hloop hout
  -- nothing follows the subsamples
  have hnil : dec [] = [] := List.length_eq_zero_iff.mp (hdec [])
  rw [List.drop_length, hnil, List.append_nil, List.drop_zero] at hout
  rw [if_neg hsubs, hloop, ← hout]
  exact congrArg some (if_neg (lt_irrefl _))

/-- A sample is taken back if its protected parts are. -/
theorem decryptSampleCbc_of_parts {plain enc : Bytes} {info : SampleInfo}
    (h : Covered info.subSamples plain.length) (hlen : enc.length = plain.length)
    (hclear : clearParts info.subSamples enc = clearParts info.subSamples plain)
    (hparts : ((protectedPieces info.subSamples enc).map dec).flatten =
      protectedParts info.subSamples plain) :
    decryptSampleCbc dec enc info = some plain := by
  have hfit : subSampleTotal info.subSamples ≤ enc.length := hlen ▸ h.le
  have hlens := @length_decodeParts (fun _ => dec) ceilBlocks (fun _ => hdec) info.subSamples 0 enc hfit
  rw [decryptSampleCbc_eq hdec (hlen ▸ h)]
  refine congrArg some (eq_of_parts (hlens.trans hlen) (hlens ▸ hfit) ?_ ?_)
  · rw [clearParts_decodeParts (fun _ => hdec) hfit, hclear]
  · rw [protectedParts_decodeParts (fun _ => hdec) hfit, decodedParts_eq_flatten, hparts]

end Decode

/-! ### Chains -/

/-- The complete blocks of the pattern are encrypted as one chain, and all other bytes stay. -/
structure PatternEncrypted (aes : BlockCipher) (key iv plain : Bytes) (crypt skip : ℕ)
    (enc : Bytes) : Prop where
  length : enc.length = plain.length
  encrypted : ∀ j, 16 * (j + 1) ≤ plain.length → InCrypt crypt skip j →
    blockAt enc j = aes.encryptBlock key fun i =>
      blockAt plain j i ^^^ chained iv enc crypt skip j i
  kept : ∀ i, ¬ ToDecrypt crypt skip plain.length i → enc[i]? = plain[i]?

section Chains

variable {aes : BlockCipher} {key iv : Bytes} {crypt skip : ℕ}

/-- The pattern of `cbcs` is decrypted. -/
theorem patternDecrypted (hkey : key.length = 16 ∨ key.length = 32) (hcrypt : 1 ≤ crypt)
    (data : Bytes) :
    PatternDecrypted aes key iv data crypt skip (decryptCbcsPattern aes key iv crypt skip data) := by
  unfold decryptCbcsPattern
  by_cases hnone : data = [] ∨ crypt = 0
  · rw [if_pos hnone, hnone.resolve_right (by omega)]
    exact ⟨fun i hi => absurd hi.1 (Nat.not_succ_le_zero _), fun _ _ => rfl⟩
  rw [if_neg hnone]
  by_cases hgap : skip * 16 = 0
  · obtain rfl : skip = 0 := by omega
    rw [if_pos hgap]
    exact patternDecrypted_noGap hkey hcrypt
  rw [if_neg hgap]
  have hgaps := @patternDecrypted_gaps aes key iv data crypt skip hkey hcrypt
  show PatternDecrypted aes key iv data crypt skip
    (if spanBytes data (cbcsSpans data.length (crypt * 16) (skip * 16) data.length 0) = [] then data
    else writeSpans _ (aesCbcDecryptFullBlocks aes key iv (spanBytes data _)) data)
  split
  · next hempty =>
    -- what is put back is what was there
    have hself := @writeSpans_self data _
      (@cbcsSpans_le data.length (crypt * 16) (skip * 16) data.length 0)
    dsimp only at hgaps
    rw [hempty] at hgaps hself
    rwa [show aesCbcDecryptFullBlocks aes key iv [] = [] from rfl, hself] at hgaps
  · exact hgaps

variable (hinv : ∀ b, aes.decryptBlock key (aes.encryptBlock key b) = b)

include hinv

/-- **A chain is taken back** by what decrypts its blocks. -/
theorem PatternEncrypted.eq_of_decrypted {plain enc out : Bytes}
    (h : PatternEncrypted aes key iv plain crypt skip enc)
    (hout : PatternDecrypted aes key iv enc crypt skip out) : out = plain := by
  refine List.ext_getElem? fun i => ?_
  by_cases hi : ToDecrypt crypt skip enc.length i
  · rw [hout.decrypted i hi]
    rw [h.length] at hi
    rw [getElem?_eq_blockAt (show i < plain.length by have hcomplete := hi.1; omega)]
    unfold cbcsByte
    rw [h.encrypted _ hi.1 hi.2, hinv, UInt8.xor_assoc, UInt8.xor_self, UInt8.xor_zero]
  · rw [hout.kept i hi]
    rw [h.length] at hi
    exact h.kept i hi

theorem decryptCbcsPattern_of_encrypted (hkey : key.length = 16 ∨ key.length = 32)
    (hcrypt : 1 ≤ crypt) {plain enc : Bytes}
    (h : PatternEncrypted aes key iv plain crypt skip enc) :
    decryptCbcsPattern aes key iv crypt skip enc = plain :=
  h.eq_of_decrypted hinv (patternDecrypted hkey hcrypt enc)

/-- With every block encrypted. -/
theorem aesCbcDecryptFullBlocks_of_encrypted (hkey : key.length = 16 ∨ key.length = 32)
    {plain enc : Bytes} (h : PatternEncrypted aes key iv plain 1 0 enc) :
    aesCbcDecryptFullBlocks aes key iv enc = plain :=
  h.eq_of_decrypted hinv (patternDecrypted_noGap hkey le_rfl)

end Chains

/-- Where at most one piece has bytes, the pieces are decrypted as one text. -/
theorem flatten_map_of_onePiece {dec : Bytes → Bytes} (hnil : dec [] = []) {pieces : List Bytes}
    (h : (pieces.map List.length).countP (· ≠ 0) ≤ 1) :
    (pieces.map dec).flatten = dec pieces.flatten := by
  induction pieces with
  | nil => exact hnil.symm
  | cons piece rest ih =>
    rw [List.map_cons, List.countP_cons] at h
    rw [List.map_cons, List.flatten_cons, List.flatten_cons]
    by_cases hpiece : piece = []
    · rw [hpiece, hnil, List.nil_append, List.nil_append]
      exact ih (by omega)
    · -- the others are empty
      have hlen : piece.length ≠ 0 := fun hzero => hpiece (List.length_eq_zero_iff.mp hzero)
      rw [if_pos (decide_eq_true hlen)] at h
      have hrest : ∀ p ∈ rest, p = [] := by
        intro p hp
        have hcount := List.countP_eq_zero.mp (show (rest.map List.length).countP (· ≠ 0) = 0 by
          omega) p.length (List.mem_map_of_mem hp)
        exact List.length_eq_zero_iff.mp (not_not.mp fun hne => hcount (decide_eq_true hne))
      have hflat : rest.flatten = [] := List.flatten_eq_nil_iff.mpr hrest
      have hmap : (rest.map dec).flatten = [] := by
        refine List.flatten_eq_nil_iff.mpr fun d hd => ?_
        obtain ⟨p, hp, rfl⟩ := List.mem_map.mp hd
        rw [hrest p hp, hnil]
      rw [hflat, hmap, List.append_nil, List.append_nil]

/-! ### Keystreams -/

section Keystreams

variable {aes : BlockCipher} {key : Bytes}

/-- The pattern of a part twice. -/
theorem censPart_censPart (counter crypt skip off : ℕ) (data : Bytes) :
    censPart aes key counter crypt skip off (censPart aes key counter crypt skip off data) =
      data := by
  unfold censPart
  rw [List.length_mapIdx]
  refine List.ext_getElem (by simp) fun i hi _ => ?_
  rw [List.getElem_mapIdx, List.getElem_mapIdx]
  split
  · rw [UInt8.xor_assoc, UInt8.xor_self, UInt8.xor_zero]
  · rfl

/-- A sample is taken back if each part is. -/
theorem decodeParts_decodeParts {dec : ℕ → Bytes → Bytes} (count : ℕ → ℕ)
    (hdec : ∀ off d, (dec off d).length = d.length) (hinv : ∀ off d, dec off (dec off d) = d)
    {subs : List (ℕ × ℕ)} {off : ℕ} {s : Bytes} (h : subSampleTotal subs ≤ s.length) :
    decodeParts dec count subs off (decodeParts dec count subs off s) = s := by
  induction subs generalizing off s with
  | nil => exact hinv off s
  | cons p rest ih =>
    obtain ⟨clear, enc⟩ := p
    obtain ⟨hfirst, hrest⟩ := subSampleTotal_cons_le h
    obtain ⟨hclear, hpart, hlater⟩ := @decodeParts_split dec count hdec clear enc off rest s hfirst
    rw [decodeParts, hclear, hpart, hlater, hinv, ih (by rwa [List.length_drop]), List.append_assoc,
      ← List.drop_drop, List.take_append_drop, List.take_append_drop]

end Keystreams

/-! ### Samples -/

section Sample

variable (aes : BlockCipher) (info : SampleInfo) (key : Bytes) (crypt skip : ℕ) (civ : Option Bytes)

/-- The protected parts of a sample, encrypted in a scheme. -/
def PartsEncrypted (plain enc : Bytes) : EncScheme → Prop
  | .cenc => protectedParts info.subSamples enc =
      aes.ctr key (ofBe (iv16 info.iv)) (protectedParts info.subSamples plain)
  | .cens => enc = censSample aes key (ofBe (iv16 info.iv)) crypt skip info.subSamples plain
  | .cbc1 => PatternEncrypted aes key (iv16 info.iv) (protectedParts info.subSamples plain) 1 0
      (protectedParts info.subSamples enc)
  | .cbcs => List.Forall₂
      (fun p e => PatternEncrypted aes key (iv16 (civ.getD info.iv)) p crypt skip e)
      (protectedPieces info.subSamples plain) (protectedPieces info.subSamples enc)

/-- **A sample is encrypted**, as it says it is. -/
structure SampleEncrypted (scheme : EncScheme) (plain enc : Bytes) : Prop where
  length : enc.length = plain.length
  clear : clearParts info.subSamples enc = clearParts info.subSamples plain
  parts : info.isEncrypted = true → PartsEncrypted aes info key crypt skip civ plain enc scheme
  whole : info.isEncrypted = false → enc = plain

/-- What the decrypter needs of the parts of a sample of `len` bytes. It starts the keystream anew
with each part, knows no pattern of `cens` and no chain over the parts of `cbc1`. -/
def SchemeReads (len : ℕ) : EncScheme → Prop
  | .cenc => KeystreamContinues (beAt (iv16 info.iv) 8 8) (partLengths info.subSamples len)
  | .cens => 1 ≤ skip ∧ OneRunEach (beAt (iv16 info.iv) 8 8) crypt (partLengths info.subSamples len)
  | .cbc1 => (partLengths info.subSamples len).countP (· ≠ 0) ≤ 1
  | .cbcs => 1 ≤ crypt

/-- A sample of `len` bytes that the decrypter reads as its scheme has it. -/
structure SampleReads (scheme : EncScheme) (len : ℕ) : Prop where
  key : key.length = 16 ∨ key.length = 32
  covered : Covered info.subSamples len
  bound : len < 2 ^ 63
  scheme : SchemeReads info crypt skip len scheme

variable {aes info key crypt skip civ}

theorem decryptSampleCenc_of_encrypted {scheme : EncScheme} {plain enc : Bytes}
    (hreads : SampleReads info key crypt skip scheme plain.length)
    (hcontinues : KeystreamContinues (beAt (iv16 info.iv) 8 8)
      (partLengths info.subSamples plain.length))
    (hlen : enc.length = plain.length)
    (hclear : clearParts info.subSamples enc = clearParts info.subSamples plain)
    (hparts : protectedParts info.subSamples enc =
      aes.ctr key (ofBe (iv16 info.iv)) (protectedParts info.subSamples plain)) :
    decryptSampleCenc aes enc info key = some plain := by
  have hfit : subSampleTotal info.subSamples ≤ enc.length := hlen ▸ hreads.covered.le
  have hdec : ∀ off d, (cencPart aes key (iv16 info.iv) off d).length = d.length :=
    fun off d => length_aesCtrDecryptWithOffset aes key (iv16 info.iv) d off
  have hbound := hreads.bound
  rw [keystreamContinues_iff, ← hlen, ← decodedParts_eq_iff hreads.key (length_iv16 info.iv) hfit
    (Nat.zero_le (16 * 0)) (by omega)] at hcontinues
  have hdecoded := hcontinues aes
  rw [BlockCipher.ctrFrom_zero, hparts, BlockCipher.ctr_ctr] at hdecoded
  have hlens := @length_decodeParts _ ceilBlocks hdec info.subSamples 0 enc hfit
  rw [decryptSampleCenc_eq aes key hfit]
  refine congrArg some (eq_of_parts (hlens.trans hlen) (hlens ▸ hfit) ?_ ?_)
  · rw [clearParts_decodeParts hdec hfit, hclear]
  · rw [protectedParts_decodeParts hdec hfit, hdecoded]

theorem decryptSampleCens_of_encrypted {scheme : EncScheme} {plain enc : Bytes}
    (hreads : SampleReads info key crypt skip scheme plain.length) (hskip : 1 ≤ skip)
    (hruns : OneRunEach (beAt (iv16 info.iv) 8 8) crypt (partLengths info.subSamples plain.length))
    (hlen : enc.length = plain.length)
    (hparts : enc = censSample aes key (ofBe (iv16 info.iv)) crypt skip info.subSamples plain) :
    decryptSampleCenc aes enc info key = some plain := by
  have hfit : subSampleTotal info.subSamples ≤ enc.length := hlen ▸ hreads.covered.le
  have hbound := hreads.bound
  rw [oneRunEach_iff, ← hlen, ← decodeParts_eq_iff hreads.key (length_iv16 info.iv) hskip hfit
    (by omega)] at hruns
  have hdecoded := hruns aes
  have htwice : decodeParts (censPart aes key (ofBe (iv16 info.iv)) crypt skip)
      (fun n => cryptBlocks crypt skip (n / 16)) info.subSamples 0 enc = plain := by
    rw [hparts]
    exact decodeParts_decodeParts _ (fun off d => length_censPart aes off d)
      (fun off d => censPart_censPart _ crypt skip off d) hreads.covered.le
  rw [decryptSampleCenc_eq aes key hfit, ← htwice]
  exact congrArg some hdecoded

/-- **Decryption takes encryption back**, for samples that are read as their scheme has it. -/
theorem decryptSample_of_encrypted (hinv : ∀ b, aes.decryptBlock key (aes.encryptBlock key b) = b)
    {scheme : EncScheme} {plain enc : Bytes}
    (hreads : SampleReads info key crypt skip scheme plain.length)
    (h : SampleEncrypted aes info key crypt skip civ scheme plain enc) :
    decryptSample aes enc info key scheme crypt skip civ = some plain := by
  unfold decryptSample
  by_cases hopen : info.isEncrypted = true
  swap
  · rw [if_pos hopen, h.whole (Bool.eq_false_iff.mpr hopen)]
  rw [if_neg (not_not.mpr hopen)]
  have hparts := h.parts hopen
  have hscheme := hreads.scheme
  cases scheme with
  | cenc => exact decryptSampleCenc_of_encrypted hreads hscheme h.length h.clear hparts
  | cens => exact decryptSampleCens_of_encrypted hreads hscheme.1 hscheme.2 h.length hparts
  | cbc1 =>
    have hdec := length_aesCbcDecryptFullBlocks aes key (iv16 info.iv)
    refine decryptSampleCbc_of_parts hdec hreads.covered h.length h.clear ?_
    have hone : ((protectedPieces info.subSamples enc).map List.length).countP (· ≠ 0) ≤ 1 := by
      rw [map_length_protectedPieces (h.length ▸ hreads.covered.le), h.length]
      exact hscheme
    rw [flatten_map_of_onePiece (List.length_eq_zero_iff.mp (hdec [])) hone, flatten_protectedPieces]
    exact aesCbcDecryptFullBlocks_of_encrypted hinv hreads.key hparts
  | cbcs =>
    have hdec := length_decryptCbcsPattern aes key (iv16 (civ.getD info.iv)) crypt skip
    refine decryptSampleCbc_of_parts hdec hreads.covered h.length h.clear ?_
    rw [← flatten_protectedPieces info.subSamples plain]
    refine congrArg List.flatten ?_
    have hpieces : List.Forall₂ (fun p e =>
        decryptCbcsPattern aes key (iv16 (civ.getD info.iv)) crypt skip e = p)
        (protectedPieces info.subSamples plain) (protectedPieces info.subSamples enc) :=
      hparts.imp fun _ _ hpiece => decryptCbcsPattern_of_encrypted hinv hreads.key hscheme hpiece
    exact (List.forall₂_eq_eq_eq ▸ List.forall₂_map_right_iff.mpr (hpieces.imp fun _ _ => Eq.symm) :
      protectedPieces info.subSamples plain = (protectedPieces info.subSamples enc).map _).symm

end Sample

end MediaFlow
