import Mathlib.Logic.Function.Basic
import MediaFlow.Lib.Runs
import MediaFlow.Lib.Text

/-!
# Acestream session registry

`acestream/session.rs`: sessions with the local Acestream engine, by infohash. A session is started
by a call to the engine, which answers with the URL to play it and the URL for commands. The number
of clients of a session is a counter that all clones of the session share; here a session holds the
index of its counter, which is also what tells two sessions apart.

The calls to the engine are left out of the functions: `getOrCreate` is `cached`, up to the call,
and `create`, from the reply on.
-/

open Text

namespace MediaFlow

/-- What the engine says of a session. -/
structure EngineResponse where
  playbackUrl : Option Str
  statUrl : Option Str
  commandUrl : Option Str

structure EngineJsonResponse where
  response : Option EngineResponse
  error : Option Str

/-- What comes back from a call to the JSON API. -/
inductive EngineReply
  /-- The request fails, with the error's text. -/
  | failed (e : Str)
  /-- A status that is not a success, as it is displayed. -/
  | status (text : Str)
  /-- The body is not the JSON that is expected. -/
  | unreadable (e : Str)
  | json (body : EngineJsonResponse)

/-- The part of the configuration that concerns the engine. -/
structure AcestreamConfig where
  host : Str
  port : ℕ
  accessToken : Option Str

structure AcestreamSession where
  pid : Str
  playbackUrl : Str
  commandUrl : Option Str
  statUrl : Option Str
  /-- The engine's JSON API was not available; only the HLS manifest works. -/
  isFreeMode : Bool
  /-- In nanoseconds, as all times. -/
  lastAccess : ℕ
  /-- The counter of active streaming clients, by its index. -/
  clientCount : ℕ
deriving DecidableEq

namespace AcestreamSession

def touch (s : AcestreamSession) (now : ℕ) : AcestreamSession := { s with lastAccess := now }

def isStale (s : AcestreamSession) (now ttl : ℕ) : Bool := ttl < now - s.lastAccess

end AcestreamSession

/-- Rewrites the loopback addresses in a URL of the engine to where the engine runs. -/
def rewriteEngineHost (url host : Str) (port : ℕ) : Str :=
  if host = "localhost".toList ∨ host = "127.0.0.1".toList ∨ host = "::1".toList then url
  else
    let replacement := host ++ ":".toList ++ decimal port
    replace ("[::1]:".toList ++ decimal port) replacement
      (replace ("127.0.0.1:".toList ++ decimal port) replacement
        (replace ("localhost:".toList ++ decimal port) replacement url))

/-- `is_premium_error`. Only ASCII letters are lowered: no other character becomes a letter of the
three words without a mark after it. -/
def isPremiumError (e : Str) : Bool :=
  let lower := e.map Char.toLower
  contains lower "premium".toList || contains lower "activate".toList ||
    contains lower "subscription".toList

/-- `try_json_session`, from the reply on: the URLs for playback, commands and statistics. -/
def tryJsonSession (config : AcestreamConfig) :
    EngineReply → Except Str (Str × Option Str × Option Str)
  | .failed e => .error ("Engine request failed: ".toList ++ e)
  | .status text => .error ("Engine returned HTTP ".toList ++ text)
  | .unreadable e => .error ("Engine JSON parse error: ".toList ++ e)
  | .json body =>
    match body.error with
    | some err => .error ("premium:".toList ++ err)
    | none =>
      match body.response with
      | none => .error "Engine response missing 'response' field".toList
      | some engine =>
        match engine.playbackUrl with
        | none => .error "Engine response missing playback_url".toList
        | some playbackUrl =>
          let rewrite := fun s => rewriteEngineHost s config.host config.port
          .ok (rewrite playbackUrl, engine.commandUrl.map rewrite, engine.statUrl.map rewrite)

/-- The registry of one worker: the sessions by infohash, and the counters of all sessions so far. -/
structure AcestreamSessionManager where
  sessions : Str → Option AcestreamSession
  counters : ℕ → ℕ
  nextCounter : ℕ

namespace AcestreamSessionManager

def new : AcestreamSessionManager := ⟨fun _ => none, fun _ => 0, 0⟩

variable (m : AcestreamSessionManager)

/-- `get_or_create`, up to the call to the engine: the stored session, if it is still live. -/
def cached (now : ℕ) (infohash : Str) : Option (AcestreamSession × AcestreamSessionManager) :=
  match m.sessions infohash with
  | some entry =>
    if entry.isStale now (fromSecs 300) then none
    else
      let entry := entry.touch now
      some (entry, { m with sessions := Function.update m.sessions infohash (some entry) })
  | none => none

theorem cached_eq_some {m m' : AcestreamSessionManager} {now : ℕ} {infohash : Str}
    {s : AcestreamSession} (h : m.cached now infohash = some (s, m')) :
    ∃ entry, m.sessions infohash = some entry ∧ entry.isStale now (fromSecs 300) = false ∧
      s = entry.touch now ∧
      m' = { m with sessions := Function.update m.sessions infohash (some s) } := by
  unfold cached at h
  split at h
  · next entry he =>
    split at h
    · cases h
    · next hstale =>
      cases h
      exact ⟨entry, he, Bool.eq_false_iff.mpr hstale, rfl, rfl⟩
  · cases h

theorem cached_eq_none {m : AcestreamSessionManager} {now : ℕ} {infohash : Str}
    (h : m.cached now infohash = none) {entry : AcestreamSession}
    (he : m.sessions infohash = some entry) : entry.isStale now (fromSecs 300) = true := by
  unfold cached at h
  rw [he] at h
  dsimp only at h
  split at h
  · assumption
  · cases h

/-- The parameter of the engine's URLs that names the content. -/
def idParam (infohash : Str) (contentId : Option Str) : Str :=
  match contentId with
  | some cid => "id=".toList ++ cid
  | none => "infohash=".toList ++ infohash

def tokenSuffix (accessToken : Option Str) : Str :=
  match accessToken with
  | some t => if t = [] then [] else "&token=".toList ++ t
  | none => []

/-- The URL of the call that starts a session. -/
def jsonUrl (config : AcestreamConfig) (infohash : Str) (contentId : Option Str) (pid : Str) : Str :=
  "http://".toList ++ config.host ++ ":".toList ++ decimal config.port ++
    "/ace/manifest.m3u8?format=json&pid=".toList ++ pid ++ "&".toList ++
    idParam infohash contentId ++ tokenSuffix config.accessToken

/-- The URLs of a new session, and whether it is in free mode. -/
def sessionUrls (config : AcestreamConfig) (infohash : Str) (contentId : Option Str) (pid : Str)
    (reply : EngineReply) : Except Str (Str × Option Str × Option Str × Bool) :=
  match tryJsonSession config reply with
  | .ok (url, cmd, stat) => .ok (url, cmd, stat, false)
  | .error e =>
    if isPremiumError e then
      let engine := "http://".toList ++ config.host ++ ":".toList ++ decimal config.port
      .ok (engine ++ "/ace/manifest.m3u8?".toList ++ idParam infohash contentId ++
          tokenSuffix config.accessToken,
        some (engine ++ "/ace/cmd?pid=".toList ++ pid), some (engine ++ "/ace/stat/".toList ++ pid),
        true)
    else .error e

/-- `get_or_create`, from the engine's reply on. -/
def create (config : AcestreamConfig) (now : ℕ) (infohash : Str) (contentId : Option Str)
    (pid : Str) (reply : EngineReply) : Except Str (AcestreamSession × AcestreamSessionManager) :=
  match sessionUrls config infohash contentId pid reply with
  | .error e => .error e
  | .ok (playbackUrl, commandUrl, statUrl, isFreeMode) =>
    let session : AcestreamSession :=
      { pid, playbackUrl, commandUrl, statUrl, isFreeMode, lastAccess := now,
        clientCount := m.nextCounter }
    .ok (session,
      { sessions := Function.update m.sessions infohash (some session),
        counters := Function.update m.counters m.nextCounter 0,
        nextCounter := m.nextCounter + 1 })

theorem create_eq_ok {m m' : AcestreamSessionManager} {config : AcestreamConfig} {now : ℕ}
    {infohash : Str} {contentId : Option Str} {pid : Str} {reply : EngineReply}
    {s : AcestreamSession} (h : m.create config now infohash contentId pid reply = .ok (s, m')) :
    (sessionUrls config infohash contentId pid reply).isOk ∧ s.clientCount = m.nextCounter ∧
      s.lastAccess = now ∧
      m' = { sessions := Function.update m.sessions infohash (some s),
             counters := Function.update m.counters m.nextCounter 0,
             nextCounter := m.nextCounter + 1 } := by
  unfold create at h
  split at h
  · cases h
  · next hurls =>
    cases h
    rw [hurls]
    exact ⟨rfl, rfl, rfl, rfl⟩

/-- A counter is a `usize`, and `fetch_add` and `fetch_sub` wrap. -/
def usizeModulus : ℕ := 2 ^ 64

def fetchAdd (c : ℕ) : AcestreamSessionManager :=
  { m with counters := Function.update m.counters c ((m.counters c + 1) % usizeModulus) }

def fetchSub (c : ℕ) : AcestreamSessionManager :=
  { m with
    counters := Function.update m.counters c ((m.counters c + (usizeModulus - 1)) % usizeModulus) }

def incrementClient (infohash : Str) : AcestreamSessionManager :=
  match m.sessions infohash with
  | some s => m.fetchAdd s.clientCount
  | none => m

def remove (infohash : Str) : AcestreamSessionManager :=
  { m with sessions := Function.update m.sessions infohash none }

/-- `release_client`, up to the delay. When the last client has left, the session that is removed
comes along: its command URL is what the delayed task stops the engine with. -/
def releaseClient (infohash : Str) : AcestreamSessionManager × Option AcestreamSession :=
  match m.sessions infohash with
  | none => (m, none)
  | some s =>
    let prevCount := m.counters s.clientCount
    let m := m.fetchSub s.clientCount
    -- the underflow guard comes after the subtraction
    if prevCount = 0 then (m, none)
    else if prevCount > 1 then (m, none)
    else (m.remove infohash, some s)

/-- Another client has the session as well. -/
theorem releaseClient_more {m : AcestreamSessionManager} {infohash : Str} {s : AcestreamSession}
    (hs : m.sessions infohash = some s) (h : 1 < m.counters s.clientCount)
    (hlt : m.counters s.clientCount < usizeModulus) :
    m.releaseClient infohash =
      ({ m with counters :=
          Function.update m.counters s.clientCount (m.counters s.clientCount - 1) }, none) := by
  unfold releaseClient fetchSub
  rw [hs]
  dsimp only
  have hmod : (m.counters s.clientCount + (usizeModulus - 1)) % usizeModulus =
      m.counters s.clientCount - 1 := by
    rw [Nat.mod_eq_sub_mod (by omega), Nat.mod_eq_of_lt (by omega)]
    omega
  rw [if_neg (by omega), if_pos h, hmod]

/-- The last client leaves. -/
theorem releaseClient_last {m : AcestreamSessionManager} {infohash : Str} {s : AcestreamSession}
    (hs : m.sessions infohash = some s) (h : m.counters s.clientCount = 1) :
    m.releaseClient infohash =
      ({ m with
          sessions := Function.update m.sessions infohash none,
          counters := Function.update m.counters s.clientCount 0 }, some s) := by
  unfold releaseClient fetchSub remove
  rw [hs]
  dsimp only
  rw [if_neg (by omega), if_neg (by omega), h]
  rfl

def invalidate (infohash : Str) : AcestreamSessionManager := m.remove infohash

/-- `send_stop_command`: the URL that is requested. -/
def stopUrl (url : Str) : Str :=
  if contains url "?".toList then url ++ "&method=stop".toList else url ++ "?method=stop".toList

end AcestreamSessionManager

end MediaFlow
