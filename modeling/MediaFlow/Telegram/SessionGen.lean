import Mathlib.Logic.Function.Basic
import MediaFlow.Lib.Runs
import MediaFlow.Lib.Text

/-!
# Telegram login sessions

`telegram/session_gen.rs`: the login by phone in several requests. What is pending between them is in
a map, by a random id. The requests to verify a code or a password take the entry out of the map, wait
for Telegram, and put it back if the login goes on. One event is what a request does between two
waits; other requests and time come in between.

The server also keeps a ledger: the ids that were given out, and those whose login was cancelled or
has got old. No step looks at what became of an id; it is there to state what should.
-/

open Text

namespace MediaFlow

/-- `SESSION_TTL_SECS`, in nanoseconds. -/
def sessionTtl : ℕ := fromSecs 600

/-- Tokens are named by numbers. The client and the credentials of the application go along with
the login and are left out. -/
structure PendingSession where
  loginToken : Option ℕ
  passwordToken : Option ℕ
  createdAt : ℕ
deriving DecidableEq

namespace PendingSession

variable (p : PendingSession)

/-- The test of `gc_expired`. -/
def isLive (now : ℕ) : Bool := now - p.createdAt < sessionTtl

end PendingSession

/-- The requests that go on with a login. -/
inductive LoginStep
  | verify
  | twoFactor
deriving DecidableEq

/-- What Telegram says to a code. -/
inductive SignInOutcome
  | signedIn
  | passwordRequired (token : ℕ)
  | invalidCode
  | signUpRequired
  | failed
deriving DecidableEq

/-- What the client gets. -/
inductive LoginReply
  | notFound
  | noCode
  | noChallenge
  | complete
  /-- Signed in, but the session cannot be exported. -/
  | notExported
  | twoFactorRequired
  | invalidCode
  | signUpRequired
  | failed
  /-- The client has gone. -/
  | gone
deriving DecidableEq

/-- The texts of the replies that are errors. That of a failure is made from Telegram's. -/
def LoginReply.detail : LoginReply → Option Str
  | notFound => some "Session not found or expired. Please start again.".toList
  | noCode => some ("No code to verify on this session. If 2FA is required, submit the password step ".toList
      ++ "instead.".toList)
  | noChallenge => some "No 2FA challenge pending on this session; verify a code first.".toList
  | notExported => some "Signed in but could not export session string".toList
  | invalidCode => some "Invalid verification code".toList
  | signUpRequired => some ("This phone number has no Telegram account. Sign up via the official app ".toList
      ++ "first.".toList)
  | complete | twoFactorRequired | failed | gone => none

inductive LoginPhase
  /-- There was no code to verify; the login goes back into the map. -/
  | puttingBack (p : PendingSession)
  /-- Telegram has the code, and `p` is without its token. -/
  | signingIn (token : ℕ) (p : PendingSession)
  /-- Telegram has the password. -/
  | checking (token : ℕ) (p : PendingSession)
  | done (reply : LoginReply)
deriving DecidableEq

structure LoginCall where
  id : Str
  phase : LoginPhase
deriving DecidableEq

/-- The login that a request has taken out of the map. -/
def LoginCall.held (c : LoginCall) : Option PendingSession :=
  match c.phase with
  | .puttingBack p | .signingIn _ p | .checking _ p => some p
  | .done _ => none

structure LoginServer where
  now : ℕ
  pending : Str → Option PendingSession
  calls : List LoginCall
  /-- The ledger. -/
  issued : List Str
  cancelled : Str → Bool
  expired : Str → Bool

inductive LoginEvent
  | elapse (d : ℕ)
  /-- Any `start` begins. -/
  | gcExpired
  /-- A code is sent, and the login gets its id. -/
  | codeSent (id : Str) (token : ℕ)
  /-- A request to verify a code or a password begins. -/
  | take (kind : LoginStep) (id : Str)
  | putBack (i : ℕ)
  /-- Telegram answers; `exported` says whether the session can be exported. -/
  | signIn (i : ℕ) (outcome : SignInOutcome) (exported : Bool)
  | checkPassword (i : ℕ) (accepted exported : Bool)
  /-- The client of the request goes away while it waits. -/
  | abandon (i : ℕ)
  | cancel (id : Str)

/-- The first steps of `session_verify_handler` and `session_2fa_handler` with the login that was
taken out, up to the call to Telegram. -/
def LoginStep.begin (kind : LoginStep) (p : PendingSession) : LoginPhase :=
  match kind with
  | .verify =>
    match p.loginToken with
    | some token => .signingIn token { p with loginToken := none }
    | none => .puttingBack p
  | .twoFactor =>
    match p.passwordToken with
    | some token => .checking token { p with passwordToken := none }
    | none => .done .noChallenge

/-- What `session_verify_handler` does with the answer of Telegram: the login to put back, if it goes
on, and the reply. -/
def SignInOutcome.handle (outcome : SignInOutcome) (exported : Bool) (now token : ℕ)
    (p : PendingSession) : Option PendingSession × LoginReply :=
  match outcome with
  | .signedIn => (none, if exported then .complete else .notExported)
  | .passwordRequired pwdToken =>
    (some { p with passwordToken := some pwdToken, createdAt := now }, .twoFactorRequired)
  | .invalidCode => (some { p with loginToken := some token, createdAt := now }, .invalidCode)
  | .signUpRequired => (none, .signUpRequired)
  | .failed => (none, .failed)

namespace LoginServer

open Function (update)

def new : LoginServer := ⟨0, fun _ => none, [], [], fun _ => false, fun _ => false⟩

variable (s : LoginServer)

def setPhase (i : ℕ) (c : LoginCall) (phase : LoginPhase) : LoginServer :=
  { s with calls := s.calls.set i { c with phase } }

/-- `gc_expired`. -/
def gcExpired : LoginServer := { s with pending := fun id => (s.pending id).filter (·.isLive s.now) }

/-- The logins of `id`, in the map or taken out by a request, are too old. -/
def isOld (now : ℕ) (id : Str) : Bool :=
  (s.pending id).any (fun p => !p.isLive now) ||
    s.calls.any fun c => c.id = id && c.held.any fun p => !p.isLive now

/-- What an event does, `none` where it cannot happen now. -/
def step : LoginEvent → Option LoginServer
  | .elapse d =>
    let now := s.now + d
    some { s with now, expired := fun id => s.expired id || s.isOld now id }
  | .gcExpired => some s.gcExpired
  | .codeSent id token =>
    if id ∈ s.issued then none
    else some { s with
      pending := update s.pending id (some ⟨some token, none, s.now⟩)
      issued := id :: s.issued }
  | .take kind id =>
    match s.pending id with
    | some p => some { s with
        pending := update s.pending id none
        calls := s.calls ++ [⟨id, kind.begin p⟩] }
    | none => some { s with calls := s.calls ++ [⟨id, .done .notFound⟩] }
  | .putBack i =>
    match s.calls[i]? with
    | some c =>
      match c.phase with
      | .puttingBack p =>
        some ({ s with pending := update s.pending c.id (some p) }.setPhase i c (.done .noCode))
      | _ => none
    | none => none
  | .signIn i outcome exported =>
    match s.calls[i]? with
    | some c =>
      match c.phase with
      | .signingIn token p =>
        match outcome.handle exported s.now token p with
        | (some p', reply) =>
          some ({ s with pending := update s.pending c.id (some p') }.setPhase i c (.done reply))
        | (none, reply) => some (s.setPhase i c (.done reply))
      | _ => none
    | none => none
  | .checkPassword i accepted exported =>
    match s.calls[i]? with
    | some c =>
      match c.phase with
      | .checking _ _ =>
        some (s.setPhase i c (.done (if accepted then
          if exported then .complete else .notExported
        else .failed)))
      | _ => none
    | none => none
  | .abandon i =>
    match s.calls[i]? with
    | some c => if c.held.isSome then some (s.setPhase i c (.done .gone)) else none
    | none => none
  | .cancel id => some { s with
      pending := update s.pending id none
      cancelled := fun id' => s.cancelled id' || (id' = id && id ∈ s.issued) }

end LoginServer

/-- The logins of one server, from its start on. -/
def loginMachine : Machine LoginServer LoginEvent := ⟨.new, fun s e => s.step e⟩

end MediaFlow
