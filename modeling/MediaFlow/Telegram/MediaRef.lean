import MediaFlow.Lib.Digits

/-!
# Links to Telegram media

`parse_telegram_url` of `telegram/media_ref.rs`, the chat that `telegram_stream_handler` takes from a
link, and `resolve_peer_from_str` of `telegram/session.rs`.
-/

open Text

namespace MediaFlow

/-! ### Parsing a link -/

inductive TelegramChat
  /-- Numeric (private) chat: channel id or negative group id. -/
  | id (chatId : ℤ)
  /-- Username (public) channel or group. -/
  | username (name : Str)
deriving DecidableEq

inductive TelegramMediaRef
  | message (chat : TelegramChat) (messageId : ℤ)
  /-- Bot API file id. -/
  | fileId (fid : Str)
deriving DecidableEq

/-- The leftmost place at which something is found, as the search for a regular expression has it. -/
def searchFrom {β : Type} (found : Str → Option β) : Str → Option β
  | [] => found []
  | c :: s => (found (c :: s)).or (searchFrom found s)

theorem searchFrom_append {β : Type} {found : Str → Option β} {u s : Str} {b : β}
    (hu : ∀ v ∈ u.tails, v ≠ [] → found (v ++ s) = none) (hs : found s = some b) :
    searchFrom found (u ++ s) = some b := by
  induction u with
  | nil =>
    cases s with
    | nil => exact hs
    | cons c s =>
      rw [List.nil_append, searchFrom, hs]
      rfl
  | cons c u ih =>
    rw [List.tails_cons, List.forall_mem_cons] at hu
    have hhere : found (c :: (u ++ s)) = none := hu.1 (List.cons_ne_nil c u)
    rw [List.cons_append, searchFrom, hhere, Option.none_or]
    exact ih hu.2

section Parse

-- `\d` of the crate `regex`: the decimal digits of Unicode
variable (isDecimal : Char → Bool)

/-- `(\d+)`, and what follows. -/
def decimalsAt (s : Str) : Option (Str × Str) :=
  if s.takeWhile isDecimal = [] then none else some (s.takeWhile isDecimal, s.dropWhile isDecimal)

/-- `t\.me/c/(\d+)/(\d+)`, at the beginning of a text. -/
def privateLinkAt (s : Str) : Option (Str × Str) := do
  let (chat, rest) ← decimalsAt isDecimal (← stripPrefix "t.me/c/".toList s)
  let (msg, _) ← decimalsAt isDecimal (← stripPrefix ['/'] rest)
  return (chat, msg)

/-- `t\.me/([A-Za-z][A-Za-z0-9_]+)/(\d+)`, at the beginning of a text. -/
def publicLinkAt (s : Str) : Option (Str × Str) := do
  let rest ← stripPrefix "t.me/".toList s
  let name := rest.takeWhile fun c => c.isAlphanum || c = '_'
  if name.length < 2 ∨ ¬ (name.head?.any Char.isAlpha) then none
  let (msg, _) ← decimalsAt isDecimal
    (← stripPrefix ['/'] (rest.dropWhile fun c => c.isAlphanum || c = '_'))
  return (name, msg)

/-- `parse_telegram_url`. -/
def parseTelegramUrl (url : Str) : Option TelegramMediaRef :=
  match searchFrom (privateLinkAt isDecimal) url with
  | some (chat, msg) => do
    let chatId ← parseI64 chat
    let messageId ← parseI64 msg
    return .message (.id chatId) messageId
  | none =>
    match searchFrom (publicLinkAt isDecimal) url with
    | some (name, msg) => do
      let messageId ← parseI64 msg
      return .message (.username name) messageId
    | none =>
      -- anything else that looks like a Bot API file id
      if '/' ∉ url ∧ '.' ∉ url ∧ (url.map Char.utf8Size).sum > 20 then some (.fileId url) else none

/-! ### The chat of a request -/

/-- `i64::to_string`. -/
def decimalI64 (z : ℤ) : Str := if z < 0 then '-' :: decimal z.natAbs else decimal z.natAbs

/-- `effective_chat`: how the handler refers to a chat. -/
def effectiveChat : TelegramChat → Str
  | .id id => if id > 0 then "-100".toList ++ decimalI64 id else decimalI64 id
  | .username name => name

/-- The chat of a request with a link: a `chat_id` in the query goes first. A text that is no link is
refused. -/
def requestChat (chatId : Option Str) (url : Str) : Option Str :=
  match parseTelegramUrl isDecimal url with
  | some (.message chat _) => chatId.or (some (effectiveChat chat))
  | some (.fileId _) => chatId
  | none => none

end Parse

/-! ### Resolving a peer -/

inductive InputPeer
  | user (userId accessHash : ℤ)
  | chat (chatId : ℤ)
  | channel (channelId accessHash : ℤ)
deriving DecidableEq

section Resolve

-- what Telegram answers: the access hash of a channel, and the peer of a user name
variable (channelAccessHash : ℤ → Option ℤ) (resolveUsername : Str → Option InputPeer)

/-- `resolve_peer_from_str`. The negation of the least number is itself. -/
def resolvePeerFromStr (chatId : Str) : Option InputPeer :=
  let stripped := chatId.dropWhile (· = '@')
  match parseI64 stripped with
  | some id =>
    if id < 0 then
      let abs := if id = -2 ^ 63 then id else -id
      if abs > 1000000000 then
        -- -100XXXXXXXXXX is a supergroup or channel
        let channelId := abs - 1000000000
        some (.channel channelId ((channelAccessHash channelId).getD 0))
      else some (.chat abs)
    else some (.user id 0)
  | none => resolveUsername stripped

end Resolve

end MediaFlow
