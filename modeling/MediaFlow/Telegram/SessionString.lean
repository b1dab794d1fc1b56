import MediaFlow.Telegram.FileId

/-!
# Session strings

`parse_telethon_session` and `init_client` of `telegram/session.rs`, and `export_telethon_string` of
`telegram/session_gen.rs`: the key of an account at its data centre, as a text that starts with `1`.

The session of the crate `grammers` is a parameter (`SessionCrate`). `SessionCrate.Documented` says
what the code relies on: that the session keeps what is put into it, the address as the number of its
bytes in little-endian order.

`restoresSessions`: a login that was exported is the same login when the server starts with it, and any
string that the server starts with is exported as one that means the same.
-/

open Text ByteString Base64

namespace MediaFlow

/-- 256 bytes. -/
structure AuthKey where
  bytes : Bytes
  length_bytes : bytes.length = 256
deriving DecidableEq

/-- `SocketAddrV4`. -/
structure SocketAddrV4 where
  a : UInt8
  b : UInt8
  c : UInt8
  d : UInt8
  port : BitVec 16
deriving DecidableEq

/-- What a session string says. -/
structure TelethonSession where
  dcId : BitVec 32
  addr : SocketAddrV4
  authKey : AuthKey
deriving DecidableEq

/-- The bytes in a session string: the data centre, its address and port, and the key. -/
def sessionFields (data : Bytes) : Option TelethonSession :=
  match data with
  | dcId :: a :: b :: c :: d :: p₁ :: p₂ :: rest =>
    if h : 256 ≤ rest.length then
      some ⟨BitVec.ofNat 32 dcId.toNat, ⟨a, b, c, d, BitVec.ofNat 16 (ofBe [p₁, p₂])⟩,
        ⟨rest.take 256, List.length_take_of_le h⟩⟩
    else none
  | _ => none

/-- `parse_telethon_session`. -/
def parseTelethonSession (s : Str) : Option TelethonSession :=
  match s with
  | '1' :: b64 => ((decodeUrlSafe b64).or (decodeUrlSafePadded b64)).bind sessionFields
  | _ => none

/-- A data centre of a session, with the fields that are used. -/
structure DataCenter where
  id : BitVec 32
  ipv4 : Option (BitVec 32)
  port : BitVec 32
deriving DecidableEq

/-- The crate `grammers_session`, with sessions of a type `σ`. -/
structure SessionCrate (σ : Type) where
  new : σ
  insertDc : σ → BitVec 32 → SocketAddrV4 → AuthKey → σ
  /-- The user `id` at a data centre; the last argument is whether it is a bot. -/
  setUser : σ → (id : BitVec 64) → (dc : BitVec 32) → Bool → σ
  /-- `get_user`, and its data centre. -/
  userDc : σ → Option (BitVec 32)
  getDcs : σ → List DataCenter
  dcAuthKey : σ → BitVec 32 → Option AuthKey

/-- A data centre as it is kept. -/
def keptDc (dcId : BitVec 32) (addr : SocketAddrV4) : DataCenter where
  id := dcId
  ipv4 := some (ofLeBytes 32 [addr.a, addr.b, addr.c, addr.d])
  port := addr.port.zeroExtend 32

/-- What is put into a new session is there. -/
structure SessionCrate.Documented {σ : Type} (crate : SessionCrate σ) : Prop where
  userDc : ∀ s id dc bot, crate.userDc (crate.setUser s id dc bot) = some dc
  getDcs : ∀ dc addr key id dc' bot,
    crate.getDcs (crate.setUser (crate.insertDc crate.new dc addr key) id dc' bot) = [keptDc dc addr]
  dcAuthKey : ∀ dc addr key id dc' bot,
    crate.dcAuthKey (crate.setUser (crate.insertDc crate.new dc addr key) id dc' bot) dc = some key

section

variable {σ : Type} (crate : SessionCrate σ)

/-- The session of `init_client`. -/
def initSession (s : Str) : Option σ :=
  (parseTelethonSession s).map fun p =>
    crate.setUser (crate.insertDc crate.new p.dcId p.addr p.authKey) 0 p.dcId false

/-- `export_telethon_string`. -/
def exportTelethonString (session : σ) : Option Str := do
  let dcId ← crate.userDc session
  let dc ← (crate.getDcs session).find? (·.id = dcId)
  let authKey ← crate.dcAuthKey session dcId
  let ipv4 ← dc.ipv4
  let octets := toLeBytes 4 ipv4.toNat
  let port := dc.port.truncate 16
  return '1' :: encodeUrlSafe
    (UInt8.ofNat dcId.toNat :: (octets ++ (toBe 2 port.toNat ++ authKey.bytes)))

end

/-! ### Reading back what is written -/

/-- The text of a login. -/
def TelethonSession.text (p : TelethonSession) : Str :=
  '1' :: encodeUrlSafe (UInt8.ofNat p.dcId.toNat :: ([p.addr.a, p.addr.b, p.addr.c, p.addr.d] ++
    (toBe 2 p.addr.port.toNat ++ p.authKey.bytes)))

/-- Data centres with numbers of one byte. -/
def TelethonSession.Small (p : TelethonSession) : Prop := p.dcId.toNat < 256

theorem sessionFields_small {data : Bytes} {p : TelethonSession} (h : sessionFields data = some p) :
    p.Small := by
  unfold sessionFields at h
  split at h
  · next dcId a b c d p₁ p₂ rest =>
    split at h
    · cases h
      have hlt : dcId.toNat < 256 := dcId.toNat_lt
      change (BitVec.ofNat 32 dcId.toNat).toNat < 256
      rw [BitVec.toNat_ofNat]
      omega
    · cases h
  · cases h

theorem small_of_parseTelethonSession {s : Str} {p : TelethonSession}
    (h : parseTelethonSession s = some p) : p.Small := by
  unfold parseTelethonSession at h
  split at h
  · obtain ⟨data, -, hdata⟩ := Option.bind_eq_some_iff.mp h
    exact sessionFields_small hdata
  · cases h

/-- **The text of a login is read as the login.** -/
theorem parseTelethonSession_text {p : TelethonSession} (hsmall : p.Small) :
    parseTelethonSession p.text = some p := by
  obtain ⟨dcId, ⟨a, b, c, d, port⟩, ⟨key, hkey⟩⟩ := p
  have hdc : BitVec.ofNat 32 (UInt8.ofNat dcId.toNat).toNat = dcId := by
    apply BitVec.eq_of_toNat_eq
    rw [UInt8.toNat_ofNat', Nat.mod_eq_of_lt hsmall, BitVec.toNat_ofNat, Nat.mod_eq_of_lt dcId.isLt]
  -- the two bytes of the port
  obtain ⟨p₁, p₂, hport⟩ := List.length_eq_two.mp (length_toBe 2 port.toNat)
  have hread : BitVec.ofNat 16 (ofBe [p₁, p₂]) = port := by
    apply BitVec.eq_of_toNat_eq
    rw [← hport, ofBe_toBe port.isLt, BitVec.toNat_ofNat, Nat.mod_eq_of_lt port.isLt]
  change ((decodeUrlSafe (encodeUrlSafe _)).or _).bind sessionFields = _
  rw [decodeUrlSafe_encodeUrlSafe, Option.some_or, Option.bind_some, hport]
  change (if h : 256 ≤ key.length then some (TelethonSession.mk _ (.mk a b c d _)
    ⟨key.take 256, List.length_take_of_le h⟩) else none) = _
  rw [dif_pos hkey.ge]
  simp only [hdc, hread, List.take_of_length_le hkey.le]

/-! ### Sessions -/

section

variable {σ : Type} {crate : SessionCrate σ}

/-- The login that a session holds, `none` where the export has nothing to say. -/
def SessionCrate.login (crate : SessionCrate σ) (session : σ) : Option TelethonSession := do
  let dcId ← crate.userDc session
  let dc ← (crate.getDcs session).find? (·.id = dcId)
  let authKey ← crate.dcAuthKey session dcId
  let ipv4 ← dc.ipv4
  match toLeBytes 4 ipv4.toNat with
  | [a, b, c, d] => return ⟨dcId, ⟨a, b, c, d, dc.port.truncate 16⟩, authKey⟩
  | _ => none

/-- The export is the text of the login. -/
theorem exportTelethonString_eq (session : σ) :
    exportTelethonString crate session = (crate.login session).map (·.text) := by
  unfold exportTelethonString SessionCrate.login
  cases crate.userDc session with
  | none => rfl
  | some dcId =>
    simp only [Option.bind_eq_bind, Option.bind_some]
    cases (crate.getDcs session).find? (·.id = dcId) with
    | none => rfl
    | some dc =>
      cases crate.dcAuthKey session dcId with
      | none => rfl
      | some authKey =>
        simp only [Option.bind_some]
        cases dc.ipv4 with
        | none => rfl
        | some ipv4 =>
          simp only [Option.bind_some]
          split
          · next a b c d hoctets =>
            rw [hoctets]
            rfl
          · next hne =>
            obtain ⟨a, b, c, d, hoctets⟩ := List.length_eq_four.mp (length_toLeBytes 4 ipv4.toNat)
            exact absurd hoctets (hne a b c d)

/-- A session that was made from a string holds its login. -/
theorem login_initSession (hcrate : crate.Documented) {s : Str} {session : σ}
    (h : initSession crate s = some session) :
    ∃ p, parseTelethonSession s = some p ∧ crate.login session = some p := by
  obtain ⟨p, hp, rfl⟩ := Option.map_eq_some_iff.mp h
  refine ⟨p, hp, ?_⟩
  obtain ⟨dcId, ⟨a, b, c, d, port⟩, key⟩ := p
  have hoctets : toLeBytes 4 (ofLeBytes 32 [a, b, c, d]).toNat = [a, b, c, d] := by
    have hlt : ofBe [a, b, c, d].reverse < 2 ^ 32 :=
      (ofBe_lt [a, b, c, d].reverse).trans_eq (show 256 ^ 4 = 2 ^ 32 by norm_num)
    rw [ofLeBytes, BitVec.toNat_ofNat, Nat.mod_eq_of_lt hlt, toLeBytes]
    exact (congrArg List.reverse (toBe_ofBe [a, b, c, d].reverse)).trans (List.reverse_reverse _)
  have hport : (port.zeroExtend 32).truncate 16 = port := by simp
  unfold SessionCrate.login
  simp only [hcrate.userDc, hcrate.getDcs, hcrate.dcAuthKey, Option.bind_eq_bind, Option.bind_some,
    keptDc, List.find?_cons_of_pos, decide_true, hoctets, hport]
  rfl

/-- What the strings are good for, with the session crate. -/
structure RestoresSessions (crate : SessionCrate σ) : Prop where
  /-- A login that was exported is found again by a server that starts with the string. -/
  restart : ∀ session s p, exportTelethonString crate session = some s →
    crate.login session = some p → p.Small →
    ∃ session', initSession crate s = some session' ∧ crate.login session' = some p ∧
      exportTelethonString crate session' = some s
  /-- A string that a server starts with, however it is written, is exported as one that means the
  same and does not change any more. -/
  reopen : ∀ s session, initSession crate s = some session →
    ∃ s', exportTelethonString crate session = some s' ∧
      parseTelethonSession s' = parseTelethonSession s ∧
      ∀ session', initSession crate s' = some session' →
        exportTelethonString crate session' = some s'

/-- **Session strings restore sessions.** -/
theorem restoresSessions (hcrate : crate.Documented) : RestoresSessions crate where
  restart session s p hexport hlogin hsmall := by
    rw [exportTelethonString_eq, hlogin] at hexport
    obtain rfl := Option.some.inj hexport
    have hparse := parseTelethonSession_text hsmall
    obtain ⟨session', hinit⟩ : ∃ session', initSession crate p.text = some session' := by
      unfold initSession
      rw [hparse]
      exact ⟨_, rfl⟩
    obtain ⟨p', hp', hlogin'⟩ := login_initSession hcrate hinit
    cases hparse.symm.trans hp'
    refine ⟨session', hinit, hlogin', ?_⟩
    rw [exportTelethonString_eq, hlogin']
    rfl
  reopen s session hinit := by
    obtain ⟨p, hp, hlogin⟩ := login_initSession hcrate hinit
    have hparse := parseTelethonSession_text (small_of_parseTelethonSession hp)
    refine ⟨p.text, ?_, hparse.trans hp.symm, fun session' hinit' => ?_⟩
    · rw [exportTelethonString_eq, hlogin]
      rfl
    · obtain ⟨p', hp', hlogin'⟩ := login_initSession hcrate hinit'
      cases hparse.symm.trans hp'
      rw [exportTelethonString_eq, hlogin']
      rfl

end

/-- Sessions as their user's data centre, with the data centres and keys. -/
def plainSessions : SessionCrate (Option (BitVec 32) × List (DataCenter × AuthKey)) where
  new := (none, [])
  insertDc s dc addr key := (s.1, s.2 ++ [(keptDc dc addr, key)])
  setUser s _ dc _ := (some dc, s.2)
  userDc s := s.1
  getDcs s := s.2.map (·.1)
  dcAuthKey s dc := (s.2.find? (·.1.id = dc)).map (·.2)

theorem plainSessions_documented : plainSessions.Documented where
  userDc _ _ _ _ := rfl
  getDcs _ _ _ _ _ _ := rfl
  dcAuthKey dc addr key _ _ _ := by
    change ([(keptDc dc addr, key)].find? fun x => decide (x.1.id = dc)).map (·.2) = some key
    have hfirst : decide ((keptDc dc addr).id = dc) = true := decide_eq_true rfl
    rw [List.find?_cons, hfirst]
    rfl

theorem restoresSessions_plain : RestoresSessions plainSessions :=
  restoresSessions plainSessions_documented

end MediaFlow
