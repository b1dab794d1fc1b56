import MediaFlow.Telegram.Download
import MediaFlow.Telegram.FileId
import MediaFlow.Telegram.History
import MediaFlow.Telegram.MediaRef
import MediaFlow.Telegram.Range

/-!
# Streams of Telegram files

`telegram_stream_handler` of `telegram/handler.rs`: a request names a document, by a link, a message, a
document id or a file id; the handler finds out where the file is and answers with a range of it.
Values of the query go before those of a link. What Telegram answers to the account is a parameter
(`TelegramAccount`).
-/

open Text ByteString

namespace MediaFlow

/-- The errors of the handler. -/
inductive TelegramError
  | badRequest (msg : Str)
  | telegram (msg : Str)
  | notFound (msg : Str)
deriving DecidableEq

structure TelegramConfig where
  apiId : ℤ
  apiHash : Str
  sessionString : Str

/-- What the handler reads of a request. -/
structure StreamRequest where
  isHead : Bool
  query : Str → Option Str
  /-- The header, if it is text. -/
  range : Option Str
  /-- The file name in the path. -/
  filename : Option Str

/-- `InputDocumentFileLocation`, without a thumbnail. -/
structure DocumentLocation where
  id : ℤ
  accessHash : ℤ
  fileReference : Bytes
deriving DecidableEq

/-- Telegram, as a logged-in account sees it. -/
structure TelegramAccount where
  /-- Why there is no client. -/
  connectError : Option Str
  /-- A message of a chat; none if the chat is not known or the request fails. -/
  message : Str → ℤ → Option MessagesAnswer
  chats : Str → ChatServer
  /-- The file at a data centre. -/
  files : DocumentLocation → ℤ → TelegramServer

/-! ### The parameters -/

/-- `str::parse::<i32>`. -/
def parseI32 (s : Str) : Option ℤ := (parseI64 s).filter fun z => -2 ^ 31 ≤ z ∧ z < 2 ^ 31

/-- `as i32`. -/
def castI32 (z : ℤ) : ℤ := (BitVec.ofInt 32 z).toInt

/-- How a document is named. -/
structure LookupParams where
  chatId : Option Str
  messageId : Option ℤ
  documentId : Option ℤ
  fileId : Option Str
  fileSize : Option ℕ

namespace LookupParams

def ofQuery (query : Str → Option Str) : LookupParams where
  chatId := query "chat_id".toList
  messageId := (query "message_id".toList).bind parseI32
  documentId := (query "document_id".toList).bind parseI64
  fileId := query "file_id".toList
  fileSize := (query "file_size".toList).bind parseU64

-- `\d` of the crate `regex`
variable (isDecimal : Char → Bool)

/-- What a link adds. -/
def withLink (p : LookupParams) (url : Str) : Except TelegramError LookupParams :=
  match parseTelegramUrl isDecimal url with
  | some (.message chat messageId) =>
    .ok { p with
      chatId := p.chatId.or (some (effectiveChat chat))
      messageId := p.messageId.or (some (castI32 messageId)) }
  | some (.fileId fid) => .ok { p with fileId := p.fileId.or (some fid) }
  | none => .error (.badRequest ("Cannot parse Telegram URL: ".toList ++ url))

/-- The parameters of a request, with its link `d` or `url`. -/
def requested (query : Str → Option Str) : Except TelegramError LookupParams :=
  match (query "d".toList).or (query "url".toList) with
  | some url => (ofQuery query).withLink isDecimal url
  | none => .ok (ofQuery query)

end LookupParams

/-! ### Where the file is -/

/-- The location of the file of a stream, and what is known of it. -/
structure FileSource where
  location : DocumentLocation
  dcId : ℤ
  fileSize : ℕ
  mimeType : Option Str
  fileName : Option Str
deriving DecidableEq

/-- `Resolved::Fresh`. -/
def FreshFileLocation.source (loc : FreshFileLocation) : FileSource where
  location := ⟨loc.documentId, loc.accessHash, loc.fileReference⟩
  dcId := loc.dcId
  fileSize := loc.fileSize
  mimeType := some loc.mimeType
  fileName := loc.fileName

/-- `Resolved::FileIdDirect`. -/
def DecodedFileId.source (decoded : DecodedFileId) (fileSize : ℕ) : FileSource where
  location := ⟨decoded.id.toInt, decoded.accessHash.toInt, decoded.fileReference⟩
  dcId := decoded.dcId.toInt
  fileSize := fileSize
  mimeType := none
  fileName := none

/-- The document of a message. -/
def ChatMessage.document : ChatMessage → Option TelegramDocument
  | message _ (some (.document (some (some doc)))) => some doc
  | _ => none

/-- `extract_file_location_from_msgs`: the first document of an answer. -/
def extractFileLocationFromMsgs : MessagesAnswer → Option FreshFileLocation
  | .messages messages => (messages.findSome? ChatMessage.document).map (·.location)
  | .notModified => none

namespace TelegramAccount

variable (account : TelegramAccount)

/-- `get_location_from_message_id`. -/
def getLocationFromMessageId (chatId : Str) (messageId : ℤ) : Option FreshFileLocation :=
  (account.message chatId messageId).bind extractFileLocationFromMsgs

/-- The `file_size` that a file id needs; `missing` is the error without one. -/
def requireSize (fileSize : Option ℕ) (missing : Str) : Except TelegramError ℕ :=
  match fileSize with
  | none => .error (.badRequest missing)
  | some 0 => .error (.badRequest "file_size must be > 0".toList)
  | some size => .ok size

def requireFileId (fileId : Str) : Except TelegramError DecodedFileId :=
  match (decodeFileId fileId).join with
  | some decoded => .ok decoded
  | none => .error (.badRequest "Cannot decode file_id".toList)

/-- A document of a chat by its file id, and by the file id alone if it is not in the history. -/
def resolveFileIdIn (chatId fileId : Str) (fileSize : Option ℕ) : Except TelegramError FileSource := do
  let decoded ← requireFileId fileId
  match (account.chats chatId).getFreshDocumentInfo decoded.id.toInt none 200 with
  | some loc => return loc.source
  | none =>
    let size ← requireSize fileSize
      "document not found in chat history and file_size not provided for file_id fallback".toList
    return decoded.source size

/-- Step 2 of the handler: the modes in which a document is looked up, in their order. -/
def resolve (p : LookupParams) : Except TelegramError FileSource :=
  match p.chatId, p.messageId, p.documentId, p.fileId with
  | some chatId, some messageId, _, _ =>
    match account.getLocationFromMessageId chatId messageId with
    | some loc => .ok loc.source
    | none => .error (.notFound ("No document found in message_id=".toList ++ decimalI64 messageId
        ++ " chat=".toList ++ chatId))
  | some chatId, none, some documentId, _ =>
    match (account.chats chatId).getFreshDocumentInfo documentId none 200 with
    | some loc => .ok loc.source
    | none => .error (.notFound ("document_id=".toList ++ decimalI64 documentId
        ++ " not found in chat=".toList ++ chatId))
  | some chatId, none, none, some fileId => account.resolveFileIdIn chatId fileId p.fileSize
  | none, _, _, some fileId => do
    let size ← requireSize p.fileSize
      "file_size is required when using file_id without chat_id".toList
    return (← requireFileId fileId).source size
  | _, _, _, none => .error (.badRequest
      ("No resolvable parameters provided. Supported modes: ".toList ++
        "(1) d/url=<t.me URL>, (2) chat_id + message_id, (3) chat_id + document_id, ".toList ++
        "(4) chat_id + file_id, (5) file_id + file_size".toList))

end TelegramAccount

/-! ### The response -/

structure StreamResponse where
  status : ℕ
  headers : List (Str × Str)
  /-- The length that is announced, and what is sent. -/
  bodyLength : ℕ
  body : List (Except StreamError Bytes)

section Handler

-- `mime_guess::from_path`, and `\d` of the crate `regex`
variable (guess : Str → Option Str) (isDecimal : Char → Bool)

/-- The type of the content: that of the document, or by its file name. -/
def contentType (source : FileSource) (filename : Option Str) : Str :=
  let effective := source.fileName.getD (filename.getD "stream.mkv".toList)
  source.mimeType.getD ((guess effective).getD "application/octet-stream".toList)

/-- The response for a file, with the range that is asked for. -/
def streamResponse (account : TelegramAccount) (req : StreamRequest) (source : FileSource) :
    StreamResponse :=
  let range := parseRange req.range source.fileSize
  let length := contentLength range
  { status := if req.range.isSome then 206 else 200
    headers := [("content-type".toList, contentType guess source req.filename),
        ("accept-ranges".toList, "bytes".toList), ("content-length".toList, decimal length)] ++
      if req.range.isSome then
        [("content-range".toList, "bytes ".toList ++ decimal range.1 ++ '-' :: (decimal range.2
          ++ '/' :: decimal source.fileSize))]
      else []
    bodyLength := length
    body :=
      if req.isHead then []
      else streamDocumentRange (account.files source.location source.dcId) range.1 range.2 }

/-- Where the file of a request is, if the handler gets that far. -/
def requestedSource (config : TelegramConfig) (account : TelegramAccount) (req : StreamRequest) :
    Except TelegramError FileSource := do
  let p ← LookupParams.requested isDecimal req.query
  if config.apiId = 0 ∨ config.apiHash = [] ∨ config.sessionString = [] then
    throw (.telegram ("Telegram not configured. Set APP__TELEGRAM__API_ID, ".toList ++
      "APP__TELEGRAM__API_HASH and APP__TELEGRAM__SESSION_STRING.".toList))
  match account.connectError with
  | some e => throw (.telegram ("Telegram connect failed: ".toList ++ e))
  | none => account.resolve p

/-- `telegram_stream_handler`. -/
def telegramStreamHandler (config : TelegramConfig) (account : TelegramAccount)
    (req : StreamRequest) : Except TelegramError StreamResponse :=
  (requestedSource isDecimal config account req).map (streamResponse guess account req)

end Handler

end MediaFlow
