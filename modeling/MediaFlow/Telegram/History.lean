import MediaFlow.Lib.Text

/-!
# The history of a chat

`get_fresh_document_info` of `telegram/session.rs` looks for the message that a document is attached
to: by its number if that is known, and else in the history of the chat, which it asks for page by
page. The place of the next page is found in the messages of the last one.

Telegram is a parameter (`ChatServer`), with its answers by the number of the request. `Serves` says
that it has a history, and that no request fails more often than it is repeated.
-/

open Text ByteString

namespace MediaFlow

inductive DocumentAttribute
  | filename (fileName : Str)
  | other
deriving DecidableEq

/-- A document of a message, with the fields that are used. -/
structure TelegramDocument where
  id : ℤ
  accessHash : ℤ
  fileReference : Bytes
  dcId : ℤ
  size : ℤ
  mimeType : Str
  attributes : List DocumentAttribute
deriving DecidableEq

inductive MessageMedia
  /-- The document may be gone, or empty. -/
  | document (document : Option (Option TelegramDocument))
  | other
deriving DecidableEq

inductive ChatMessage
  | message (id : ℕ) (media : Option MessageMedia)
  | service (id : ℕ)
  | empty (id : ℕ)
deriving DecidableEq

namespace ChatMessage

def id : ChatMessage → ℕ
  | message id _ | service id | empty id => id

/-- A message that is neither about the chat nor deleted. -/
def isOrdinary : ChatMessage → Bool
  | message _ _ => true
  | service _ | empty _ => false

/-- The number of an ordinary message. -/
def ordinaryId : ChatMessage → Option ℕ
  | message id _ => some id
  | service _ | empty _ => none

end ChatMessage

structure FreshFileLocation where
  documentId : ℤ
  accessHash : ℤ
  fileReference : Bytes
  dcId : ℤ
  fileSize : ℕ
  mimeType : Str
  fileName : Option Str
deriving DecidableEq

/-- The location of a document; its size is cast to `u64`. -/
def TelegramDocument.location (doc : TelegramDocument) : FreshFileLocation where
  documentId := doc.id
  accessHash := doc.accessHash
  fileReference := doc.fileReference
  dcId := doc.dcId
  fileSize := (doc.size % 2 ^ 64).toNat
  mimeType := doc.mimeType
  fileName := doc.attributes.findSome? fun attr =>
    match attr with
    | .filename fileName => some fileName
    | .other => none

/-- The location of the document with this number, if it is attached to the message. -/
def ChatMessage.location (documentId : ℤ) : ChatMessage → Option FreshFileLocation
  | message _ (some (.document (some (some doc)))) =>
    if doc.id = documentId then some doc.location else none
  | _ => none

/-- An answer with messages, in any of three forms, or without. -/
inductive MessagesAnswer
  | messages (messages : List ChatMessage)
  | notModified

def extractDocInfoFromMsgs (answer : MessagesAnswer) (documentId : ℤ) : Option FreshFileLocation :=
  match answer with
  | .messages messages => messages.findSome? (ChatMessage.location documentId)
  | .notModified => none

inductive InvocationError
  | read
  | other
deriving DecidableEq

/-- Telegram, as the search sees it: the answers for the chat, by number of the request and offset,
and for one message. -/
structure ChatServer where
  resolvesPeer : Bool
  getMessages : ℕ → Option MessagesAnswer
  getHistory : ℕ → ℕ → Except InvocationError MessagesAnswer

namespace ChatServer

variable (server : ChatServer) (documentId : ℤ)

/-- A request for a page that is repeated after a broken connection, `retries` times at most. The
number of requests is returned too. -/
def requestPage (offsetId : ℕ) : ℕ → ℕ → Except InvocationError MessagesAnswer × ℕ
  | 0, n => (server.getHistory n offsetId, n + 1)
  | retries + 1, n =>
    match server.getHistory n offsetId with
    | .error .read => requestPage offsetId retries (n + 1)
    | answer => (answer, n + 1)

/-- The place of the next page, or 0 if there is none. -/
def nextOffset (messages : List ChatMessage) : ℕ :=
  ((messages.filterMap ChatMessage.ordinaryId).min?).getD 0

/-- The loop over the pages, with the pages that were received. -/
def scanFrom : ℕ → ℕ → ℕ → Option FreshFileLocation × List (List ChatMessage)
  | 0, _, _ => (none, [])
  | batches + 1, offsetId, n =>
    match server.requestPage offsetId 3 n with
    | (.error _, _) => (none, [])
    | (.ok .notModified, _) => (none, [])
    | (.ok (.messages messages), n') =>
      match extractDocInfoFromMsgs (.messages messages) documentId with
      | some info => (some info, [messages])
      | none =>
        if messages.length < 100 then (none, [messages]) -- no more messages
        else if nextOffset messages = 0 then (none, [messages])
        else
          let rest := scanFrom batches (nextOffset messages) n'
          (rest.1, messages :: rest.2)

/-- The scan of the history, up to `scanLimit` messages in batches of 100. -/
def scanHistory (scanLimit : ℕ) : Option FreshFileLocation × List (List ChatMessage) :=
  server.scanFrom documentId ((scanLimit + 99) / 100) 0 0

/-- `get_fresh_document_info`. -/
def getFreshDocumentInfo (messageId : Option ℕ) (scanLimit : ℕ) : Option FreshFileLocation :=
  if server.resolvesPeer then
    let fast := messageId.bind fun mid =>
      (server.getMessages mid).bind fun answer => extractDocInfoFromMsgs answer documentId
    fast.or (server.scanHistory documentId scanLimit).1
  else none

end ChatServer

/-! ### A chat -/

/-- The messages of a chat, from the newest on. -/
structure ChatHistory where
  messages : List ChatMessage
  positive : ∀ m ∈ messages, 0 < m.id
  descending : messages.Pairwise fun m m' => m'.id < m.id

/-- The messages with numbers below the offset, all if it is 0. -/
def ChatHistory.below (h : ChatHistory) (offsetId : ℕ) : List ChatMessage :=
  if offsetId = 0 then h.messages else h.messages.filter (·.id < offsetId)

/-- The server has this history. Some requests fail with a broken connection, but never four in a
row. -/
def ChatServer.Serves (server : ChatServer) (h : ChatHistory) : Prop :=
  ∃ fails : ℕ → Prop,
    (∀ n offsetId, fails n → server.getHistory n offsetId = .error .read) ∧
    (∀ n offsetId, ¬ fails n →
      server.getHistory n offsetId = .ok (.messages ((h.below offsetId).take 100))) ∧
    ∀ n, ∃ k ≤ 3, ¬ fails (n + k)

namespace ChatServer

variable {server : ChatServer} {h : ChatHistory}

/-- **A page** is received, after the requests that fail. -/
theorem requestPage_serves (hserves : server.Serves h) (offsetId n : ℕ) :
    ∃ n', server.requestPage offsetId 3 n
      = (.ok (.messages ((h.below offsetId).take 100)), n') := by
  obtain ⟨fails, hfails, hserved, hretried⟩ := hserves
  -- by induction on the tries that are left
  have hretry : ∀ retries n, (∃ k ≤ retries, ¬ fails (n + k)) → ∃ n',
      server.requestPage offsetId retries n
        = (.ok (.messages ((h.below offsetId).take 100)), n') := by
    intro retries
    induction retries with
    | zero =>
      rintro n ⟨k, hk, hnot⟩
      obtain rfl : k = 0 := Nat.le_zero.mp hk
      exact ⟨n + 1, by rw [requestPage, hserved n offsetId hnot]⟩
    | succ retries ih =>
      rintro n ⟨k, hk, hnot⟩
      by_cases hn : fails n
      · obtain ⟨j, rfl⟩ : ∃ j, k = j + 1 := by
          cases k with
          | zero => exact absurd hn hnot
          | succ j => exact ⟨j, rfl⟩
        have hnext := ih (n + 1) ⟨j, Nat.le_of_succ_le_succ hk, by rwa [Nat.add_right_comm]⟩
        rwa [requestPage, hfails n offsetId hn]
      · exact ⟨n + 1, by rw [requestPage, hserved n offsetId hn]⟩
  exact hretry 3 n (hretried n)

end ChatServer

end MediaFlow
