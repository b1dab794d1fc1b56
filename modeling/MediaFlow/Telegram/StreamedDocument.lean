import MediaFlow.Telegram.Stream

/-!
# What a Telegram stream is of

Whatever Telegram answers, the handler streams the document that was asked for, with a location that is
all of one document (`streamedDocument`). And where Telegram has the file, the response is the range
that its headers say, byte for byte (`streamDelivers`).
-/

open Text ByteString

namespace MediaFlow

/-! ### Documents of a chat -/

/-- The document is attached to one of the messages of an answer. -/
def MessagesAnswer.Shows (answer : MessagesAnswer) (doc : TelegramDocument) : Prop :=
  ∃ messages, answer = .messages messages ∧ ∃ m ∈ messages, m.document = some doc

/-- The document is in an answer that the server gives for the chat. -/
def ChatServer.Shows (server : ChatServer) (doc : TelegramDocument) : Prop :=
  ∃ n offsetId answer, server.getHistory n offsetId = .ok answer ∧ answer.Shows doc

theorem ChatMessage.location_eq_some_iff {m : ChatMessage} {documentId : ℤ}
    {info : FreshFileLocation} :
    m.location documentId = some info ↔
      ∃ doc, m.document = some doc ∧ doc.id = documentId ∧ info = doc.location := by
  constructor
  · intro h
    unfold location at h
    split at h
    · next doc =>
      split at h
      · next hid =>
        cases h
        exact ⟨doc, rfl, hid, rfl⟩
      · cases h
    · cases h
  · rintro ⟨doc, hdoc, rfl, rfl⟩
    unfold document at hdoc
    split at hdoc
    · cases hdoc
      exact if_pos rfl
    · cases hdoc

theorem shows_of_extractDocInfo {answer : MessagesAnswer} {documentId : ℤ} {info : FreshFileLocation}
    (h : extractDocInfoFromMsgs answer documentId = some info) :
    ∃ doc, answer.Shows doc ∧ doc.id = documentId ∧ info = doc.location := by
  cases answer with
  | notModified => cases h
  | messages messages =>
    obtain ⟨m, hm, hlocation⟩ := List.exists_of_findSome?_eq_some h
    obtain ⟨doc, hdoc, hid, hinfo⟩ := ChatMessage.location_eq_some_iff.mp hlocation
    exact ⟨doc, ⟨messages, rfl, m, hm, hdoc⟩, hid, hinfo⟩

namespace ChatServer

variable {server : ChatServer} {documentId : ℤ} {info : FreshFileLocation}

/-- An answer to a page is one that the server gives. -/
theorem getHistory_of_requestPage {offsetId : ℕ} {answer : MessagesAnswer} {n' : ℕ} (retries n : ℕ)
    (h : server.requestPage offsetId retries n = (.ok answer, n')) :
    ∃ k, server.getHistory k offsetId = .ok answer := by
  induction retries generalizing n with
  | zero => exact ⟨n, (Prod.mk.inj h).1⟩
  | succ retries ih =>
    rw [requestPage] at h
    split at h
    · exact ih (n + 1) h
    · exact ⟨n, (Prod.mk.inj h).1⟩

/-- **What the scan finds** is the document that is sought, on some page. -/
theorem shows_of_scanFrom (batches offsetId n : ℕ)
    (h : (server.scanFrom documentId batches offsetId n).1 = some info) :
    ∃ doc, server.Shows doc ∧ doc.id = documentId ∧ info = doc.location := by
  induction batches generalizing offsetId n with
  | zero => cases h
  | succ batches ih =>
    rw [scanFrom] at h
    split at h
    · cases h
    · cases h
    · next messages n' hpage =>
      split at h
      · next found hfound =>
        cases h
        obtain ⟨k, hk⟩ := getHistory_of_requestPage 3 n hpage
        obtain ⟨doc, hdoc, hid, hinfo⟩ := shows_of_extractDocInfo hfound
        exact ⟨doc, ⟨k, offsetId, _, hk, hdoc⟩, hid, hinfo⟩
      · split at h
        · cases h
        · split at h
          · cases h
          · exact ih _ _ h

theorem shows_of_getFreshDocumentInfo {scanLimit : ℕ}
    (h : server.getFreshDocumentInfo documentId none scanLimit = some info) :
    ∃ doc, server.Shows doc ∧ doc.id = documentId ∧ info = doc.location := by
  unfold getFreshDocumentInfo at h
  split at h
  · exact shows_of_scanFrom _ _ _ (show (server.scanHistory documentId scanLimit).1 = some info from h)
  · cases h

end ChatServer

/-! ### The document of a request -/

/-- The file id stands for this document. -/
def IsFileIdOf (fileId : Str) (decoded : DecodedFileId) : Prop :=
  decodeFileId fileId = some (some decoded)

/-- The source is the document that the parameters name. -/
def Names (account : TelegramAccount) (p : LookupParams) (source : FileSource) : Prop :=
  match p.chatId, p.messageId, p.documentId, p.fileId with
  | some chatId, some messageId, _, _ =>
    ∃ answer doc, account.message chatId messageId = some answer ∧ answer.Shows doc ∧
      source = doc.location.source
  | some chatId, none, some documentId, _ =>
    ∃ doc, (account.chats chatId).Shows doc ∧ doc.id = documentId ∧ source = doc.location.source
  | some chatId, none, none, some fileId =>
    ∃ decoded, IsFileIdOf fileId decoded ∧
      ((∃ doc, (account.chats chatId).Shows doc ∧ doc.id = decoded.id.toInt ∧
          source = doc.location.source) ∨
        ∃ size, p.fileSize = some size ∧ 0 < size ∧ source = decoded.source size)
  | none, _, _, some fileId =>
    ∃ decoded, IsFileIdOf fileId decoded ∧
      ∃ size, p.fileSize = some size ∧ 0 < size ∧ source = decoded.source size
  | _, _, _, none => False

namespace TelegramAccount

variable {account : TelegramAccount} {p : LookupParams} {source : FileSource}

theorem requireSize_eq_ok_iff {fileSize : Option ℕ} {missing : Str} {size : ℕ} :
    requireSize fileSize missing = .ok size ↔ fileSize = some size ∧ 0 < size := by
  cases fileSize with
  | none => exact iff_of_false nofun fun h => nomatch h.1
  | some n =>
    cases n with
    | zero =>
      refine iff_of_false nofun ?_
      rintro ⟨h, hpos⟩
      cases h
      exact hpos.false
    | succ n =>
      constructor
      · intro h
        cases h
        exact ⟨rfl, Nat.succ_pos n⟩
      · rintro ⟨h, -⟩
        cases h
        rfl

theorem requireFileId_eq_ok_iff {fileId : Str} {decoded : DecodedFileId} :
    requireFileId fileId = .ok decoded ↔ IsFileIdOf fileId decoded := by
  unfold requireFileId IsFileIdOf
  rw [← Option.join_eq_some_iff]
  cases (decodeFileId fileId).join with
  | none => exact iff_of_false nofun nofun
  | some d => exact ⟨fun h => congrArg some (Except.ok.inj h), fun h => congrArg Except.ok (Option.some.inj h)⟩

/-- What is looked up is what is named. -/
theorem names_of_resolve (h : account.resolve p = .ok source) : Names account p source := by
  obtain ⟨chat, message, document, file, size⟩ := p
  dsimp only [resolve] at h
  split at h
  · next chatId messageId _ _ =>
    split at h
    · next loc hloc =>
      cases h
      obtain ⟨answer, hanswer, hextract⟩ := Option.bind_eq_some_iff.mp hloc
      cases answer with
      | notModified => cases hextract
      | messages messages =>
        obtain ⟨doc, hfound, rfl⟩ := Option.map_eq_some_iff.mp hextract
        obtain ⟨m, hm, hdoc⟩ := List.exists_of_findSome?_eq_some hfound
        exact ⟨_, doc, hanswer, ⟨messages, rfl, m, hm, hdoc⟩, rfl⟩
    · cases h
  · split at h
    · next loc hloc =>
      cases h
      obtain ⟨doc, hshows, hid, rfl⟩ := ChatServer.shows_of_getFreshDocumentInfo hloc
      exact ⟨doc, hshows, hid, rfl⟩
    · cases h
  · next chatId fileId =>
    unfold resolveFileIdIn at h
    cases hdecoded : requireFileId fileId with
    | error e =>
      rw [hdecoded] at h
      cases h
    | ok decoded =>
      simp only [hdecoded, bind, Except.bind] at h
      refine ⟨decoded, requireFileId_eq_ok_iff.mp hdecoded, ?_⟩
      split at h
      · next loc hloc =>
        cases h
        obtain ⟨doc, hshows, hid, rfl⟩ := ChatServer.shows_of_getFreshDocumentInfo hloc
        exact .inl ⟨doc, hshows, hid, rfl⟩
      · split at h
        · cases h
        · next size hsize =>
          cases h
          obtain ⟨hsome, hpos⟩ := requireSize_eq_ok_iff.mp hsize
          exact .inr ⟨size, hsome, hpos, rfl⟩
  · next fileId =>
    simp only [bind, Except.bind] at h
    split at h
    · cases h
    · next size hsize =>
      split at h
      · cases h
      · next decoded hdecoded =>
        cases h
        obtain ⟨hsome, hpos⟩ := requireSize_eq_ok_iff.mp hsize
        exact ⟨decoded, requireFileId_eq_ok_iff.mp hdecoded, size, hsome, hpos, rfl⟩
  · cases h

end TelegramAccount

section Handler

variable {guess : Str → Option Str} {isDecimal : Char → Bool} {config : TelegramConfig}
  {account : TelegramAccount} {req : StreamRequest}

/-- **The document of a stream**: every response is for the document that the parameters of the
request name, whatever Telegram answers. -/
theorem streamedDocument {r : StreamResponse}
    (h : telegramStreamHandler guess isDecimal config account req = .ok r) :
    ∃ p source, LookupParams.requested isDecimal req.query = .ok p ∧ Names account p source ∧
      r = streamResponse guess account req source := by
  unfold telegramStreamHandler requestedSource at h
  cases hp : LookupParams.requested isDecimal req.query with
  | error e =>
    rw [hp] at h
    cases h
  | ok p =>
    simp only [hp, bind, Except.bind] at h
    split at h
    · cases h
    · split at h
      · cases h
      · cases hsource : account.resolve p with
        | error e =>
          rw [hsource] at h
          cases h
        | ok source =>
          rw [hsource] at h
          cases h
          exact ⟨p, source, rfl, TelegramAccount.names_of_resolve hsource, rfl⟩

/-! ### Delivery -/

/-- The response is the part of the file from `first` to `last`, and says so. -/
structure DeliversRange (file : Bytes) (req : StreamRequest) (r : StreamResponse) (first last : ℕ) :
    Prop where
  ordered : first ≤ last
  inside : last < file.length
  status : r.status = if req.range.isSome then 206 else 200
  contentLength : r.headers.lookup "content-length".toList = some (decimal (last - first + 1))
  contentRange : r.headers.lookup "content-range".toList =
    if req.range.isSome then
      some ("bytes ".toList ++ decimal first ++ '-' :: (decimal last ++ '/' :: decimal file.length))
    else none
  bodyLength : r.bodyLength = last - first + 1
  /-- `HEAD` has no body. -/
  head : req.isHead = true → r.body = []
  body : req.isHead = false → ∃ chunks : List Bytes, r.body = chunks.map .ok ∧
    chunks.flatten = (file.drop first).take (last - first + 1) ∧
    chunks.flatten.length = r.bodyLength
  /-- Without a range it is the whole file, and with one it is that of the RFC. -/
  whole : req.range = none → first = 0 ∧ last = file.length - 1
  rfc : ∀ spec : RangeSpec, spec.Satisfiable file.length → req.range = some spec.header →
    (first, last) = spec.range file.length

/-- The chunks of a range of the file, from the first one on that has some of it. -/
theorem chunks_streamDocumentRange {server : TelegramServer} {file : Bytes} {failures : Finset ℕ}
    (hserves : server.Serves file failures) (hbudget : failures.card ≤ maxReconnects)
    {first last : ℕ} (hrange : first ≤ last) (hlast : last < file.length) :
    ∃ chunks : List Bytes, streamDocumentRange server first last = chunks.map .ok ∧
      chunks.flatten = (file.drop first).take (last - first + 1) ∧
      chunks.flatten.length = last - first + 1 := by
  have hle : first / maxChunk * maxChunk ≤ first := Nat.div_mul_le_self first maxChunk
  obtain ⟨chunks, hchunks, hflatten⟩ := streamFrom_serves hserves hbudget hrange hlast
    (Nat.dvd_mul_left maxChunk _) (Nat.lt_div_mul_add (by decide)) (hle.trans hrange) 0
  -- no request was sent yet
  have hbefore : failuresBefore failures 0 = 0 :=
    Finset.card_eq_zero.mpr (Finset.filter_eq_empty_iff.mpr fun _ _ => Nat.not_lt_zero _)
  rw [Nat.max_eq_left hle, Nat.sub_self, hbefore] at hchunks
  rw [Nat.max_eq_left hle, Nat.sub_add_comm hrange] at hflatten
  refine ⟨chunks, hchunks, hflatten, ?_⟩
  rw [hflatten, List.length_take, List.length_drop]
  omega

/-- The response of the handler for a file that Telegram has. -/
theorem deliversRange_streamResponse {source : FileSource} {file : Bytes} {failures : Finset ℕ}
    (hserves : (account.files source.location source.dcId).Serves file failures)
    (hbudget : failures.card ≤ maxReconnects) (hsize : source.fileSize = file.length)
    (hpos : 1 ≤ file.length) (hlt : file.length < 2 ^ 64) (hrange : ¬ EmptySuffix req.range) :
    DeliversRange file req (streamResponse guess account req source)
      (parseRange req.range file.length).1 (parseRange req.range file.length).2 := by
  have hordered := (parseRange_ordered_iff hpos).mpr hrange
  have hlast := @parseRange_inside req.range file.length
  have hinside : (parseRange req.range file.length).2 < file.length := by omega
  have hlength := contentLength_eq hordered hlast hlt hpos
  unfold streamResponse
  rw [hsize]
  refine ⟨hordered, hinside, rfl, ?_, ?_, hlength, fun hhead => if_pos hhead, fun hget => ?_, ?_, ?_⟩
  · exact congrArg (fun n => some (decimal n)) hlength
  · cases req.range with
    | none => rfl
    | some header => rfl
  · obtain ⟨chunks, hchunks, hflatten, hcount⟩ :=
      chunks_streamDocumentRange hserves hbudget hordered hinside
    exact ⟨chunks, (if_neg (by rw [hget]; exact Bool.false_ne_true)).trans hchunks, hflatten,
      hcount.trans hlength.symm⟩
  · intro hnone
    rw [hnone]
    exact ⟨rfl, rfl⟩
  · intro spec hspec hheader
    rw [hheader] at hrange ⊢
    exact RangeSpec.parseRange_header hpos hlt hspec hrange

end Handler

/-! ### A short film -/

/-- A document of four bytes. -/
def shortFilm : TelegramDocument where
  id := 7
  accessHash := 9
  fileReference := [1]
  dcId := 2
  size := 4
  mimeType := "video/mp4".toList
  attributes := [.filename "film.mp4".toList]

/-- The film is in one message of each chat. Downloads break off twice. -/
def filmAccount : TelegramAccount where
  connectError := none
  message _ _ := some (.messages [.service 4, .message 5 (some (.document (some (some shortFilm))))])
  chats _ := ⟨true, fun _ => none, fun _ _ => .ok .notModified⟩
  files _ _ := flakyServer

/-- The middle of the film, by its message. -/
def filmRequest : StreamRequest where
  isHead := false
  query key :=
    if key = "chat_id".toList then some "films".toList
    else if key = "message_id".toList then some ['5'] else none
  range := some "bytes=1-2".toList
  filename := none

def filmConfig : TelegramConfig := ⟨1, ['h'], ['s']⟩

theorem requestedSource_film :
    requestedSource Char.isDigit filmConfig filmAccount filmRequest =
      .ok shortFilm.location.source := by
  decide +kernel

theorem not_emptySuffix_film : ¬ EmptySuffix filmRequest.range := by
  rintro ⟨_, length, hheader, hparts, -⟩
  cases hheader
  cases hparts

theorem streamedDocument_film :
    ∃ p source, LookupParams.requested Char.isDigit filmRequest.query = .ok p ∧
      Names filmAccount p source ∧
      streamResponse (fun _ => none) filmAccount filmRequest shortFilm.location.source =
        streamResponse (fun _ => none) filmAccount filmRequest source :=
  @streamedDocument (fun _ => none) Char.isDigit filmConfig filmAccount filmRequest _
    (congrArg (Except.map _) requestedSource_film)

end MediaFlow
