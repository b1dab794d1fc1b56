import Mathlib.Logic.Function.Basic
import MediaFlow.Lib.Runs
import MediaFlow.Lib.Text

/-!
# Requests to upstream hosts

`StreamManager` of `proxy/stream.rs`, as far as it limits the requests to one host: the semaphores by
host, the permits, and the calls of `make_request` and `create_stream` with what their callers hold
of the responses. `host_semaphore` looks for a semaphore and inserts a new one in two steps, and
inserting replaces what is there. A semaphore is named by the call that made it.
-/

open Text

namespace MediaFlow

/-- What is read of a URL: `host_str` and `port`, which is there if it is not the scheme's own. -/
structure UrlAuthority where
  hostStr : Option Str
  port : Option ℕ

/-- `url_host_key`, the host and the port of a URL. -/
def urlHostKey (parse : Str → Option UrlAuthority) (url : Str) : Str :=
  match (parse url).bind fun u => u.hostStr.map fun h => (h, u.port) with
  | some (h, some p) => h ++ ":".toList ++ decimal p
  | some (h, none) => h
  | none => "_unknown_".toList

inductive UpstreamKind
  | makeRequest
  | createStream (isHead : Bool)
deriving DecidableEq

/-- Where a call is, with the semaphore that it waits for or has a permit of. There is none if the
limiter is off, or once the permit is given back. -/
inductive UpstreamPhase
  | started
  /-- `host_semaphore` has found no semaphore. -/
  | missed
  | waiting (sem : ℕ)
  /-- The request is sent, and no response is there yet. -/
  | sending (permit : Option ℕ)
  /-- The response is returned, and its body is not read to the end. -/
  | reading (permit : Option ℕ)
  /-- The body is read to the end. -/
  | drained (permit : Option ℕ)
  | done
deriving DecidableEq

structure UpstreamCall where
  kind : UpstreamKind
  /-- The host for which the permit is taken. -/
  key : Str
  /-- The host that is asked. -/
  host : Str
  phase : UpstreamPhase
deriving DecidableEq

namespace UpstreamCall

variable (c : UpstreamCall)

def toPhase (phase : UpstreamPhase) : UpstreamCall := { c with phase }

/-- The permit that is held by the call, or by the stream that it has returned. -/
def permit : Option ℕ :=
  match c.phase with
  | .sending p | .reading p | .drained p => p
  | _ => none

/-- The host whose response was requested and is not read to the end or dropped. -/
def inFlight : Option Str :=
  match c.phase with
  | .sending _ | .reading _ => some c.host
  | _ => none

end UpstreamCall

/-- The calls, and `per_host_semaphores` with the permits that are left. -/
structure StreamManager where
  perHostSemaphores : Str → Option ℕ
  available : ℕ → ℕ
  calls : List UpstreamCall

inductive UpstreamEvent
  | begin (kind : UpstreamKind) (url : Str)
  /-- `host_semaphore`, in its two halves. -/
  | lookUp (i : ℕ)
  | create (i : ℕ)
  | acquire (i : ℕ)
  /-- The host answers with a redirect, which is followed. -/
  | redirect (i : ℕ) (url : Str)
  /-- No response, a late one, or one with an error status. -/
  | fail (i : ℕ)
  /-- The headers of the response are there. -/
  | answer (i : ℕ) (bodyLeft : Bool)
  /-- The body is read to its end. -/
  | drain (i : ℕ)
  /-- What there is of the call, the response or the stream is dropped. -/
  | drop (i : ℕ)

namespace StreamManager

open Function (update)

def new : StreamManager := ⟨fun _ => none, fun _ => 0, []⟩

variable (s : StreamManager)

def setCall (i : ℕ) (c : UpstreamCall) : StreamManager := { s with calls := s.calls.set i c }

/-- A permit is dropped. -/
def release : Option ℕ → StreamManager
  | some m => { s with available := update s.available m (s.available m + 1) }
  | none => s

/-- The response is there: what the call returns and what it gives back. -/
def answered (i : ℕ) (c : UpstreamCall) (permit : Option ℕ) (bodyLeft : Bool) : StreamManager :=
  match c.kind with
  | .makeRequest =>
    (s.release permit).setCall i (c.toPhase (if bodyLeft then .reading none else .drained none))
  | .createStream true => (s.release permit).setCall i (c.toPhase .done)
  | .createStream false =>
    s.setCall i (c.toPhase (if bodyLeft then .reading permit else .drained permit))

/-- What an event does, `none` where it cannot happen now. -/
def step (parse : Str → Option UrlAuthority) (maxConcurrentPerHost : ℕ) :
    UpstreamEvent → Option StreamManager
  | .begin kind url =>
    let key := urlHostKey parse url
    some { s with calls := s.calls ++ [⟨kind, key, key, .started⟩] }
  | .lookUp i =>
    match s.calls[i]? with
    | some c =>
      if c.phase = .started then
        if maxConcurrentPerHost = 0 then some (s.setCall i (c.toPhase (.sending none)))
        else
          match s.perHostSemaphores c.key with
          | some m => some (s.setCall i (c.toPhase (.waiting m)))
          | none => some (s.setCall i (c.toPhase .missed))
      else none
    | none => none
  | .create i =>
    match s.calls[i]? with
    | some c =>
      if c.phase = .missed then
        some ({ s with
          perHostSemaphores := update s.perHostSemaphores c.key (some i)
          available := update s.available i maxConcurrentPerHost }.setCall i
            (c.toPhase (.waiting i)))
      else none
    | none => none
  | .acquire i =>
    match s.calls[i]? with
    | some c =>
      match c.phase with
      | .waiting m =>
        if 0 < s.available m then
          some ({ s with available := update s.available m (s.available m - 1) }.setCall i
            (c.toPhase (.sending (some m))))
        else none
      | _ => none
    | none => none
  | .redirect i url =>
    match s.calls[i]? with
    | some c =>
      match c.phase with
      | .sending _ => some (s.setCall i { c with host := urlHostKey parse url })
      | _ => none
    | none => none
  | .fail i =>
    match s.calls[i]? with
    | some c =>
      match c.phase with
      | .sending permit => some ((s.release permit).setCall i (c.toPhase .done))
      | _ => none
    | none => none
  | .answer i bodyLeft =>
    match s.calls[i]? with
    | some c =>
      match c.phase with
      | .sending permit => some (s.answered i c permit bodyLeft)
      | _ => none
    | none => none
  | .drain i =>
    match s.calls[i]? with
    | some c =>
      match c.phase with
      | .reading permit => some (s.setCall i (c.toPhase (.drained permit)))
      | _ => none
    | none => none
  | .drop i =>
    match s.calls[i]? with
    | some c => some ((s.release c.permit).setCall i (c.toPhase .done))
    | none => none

end StreamManager

/-- The calls of one stream manager, from the start of the server on. -/
def upstreamMachine (parse : Str → Option UrlAuthority) (maxConcurrentPerHost : ℕ) :
    Machine StreamManager UpstreamEvent :=
  ⟨.new, fun s e => s.step parse maxConcurrentPerHost e⟩

end MediaFlow
