import MediaFlow.Acestream.Session
import MediaFlow.Lib.Runs

/-!
# Requests to the Acestream proxy

`acestream/handler.rs` and the delayed task of `release_client`: a worker of the server runs its
requests, each of which stops and waits at the calls to the engine. One event is what a request or a
task does between two of its calls to the registry or to the engine, and the events of different
requests come in any order.

Every worker builds a registry of its own (`main.rs`, in the factory of `HttpServer::new`). Time
passes for all workers alike.

A worker also keeps a `ledger` of the sessions that its registry has created and what became of
them. No step looks at it; it is there to state what becomes of sessions.
-/

open Text

namespace MediaFlow

inductive AcestreamHandler
  | manifest
  | stream
deriving DecidableEq

/-- What a request has come to. -/
inductive Phase
  /-- `get_or_create` is called next. -/
  | looking
  /-- `get_or_create` waits for the engine to start a session with the process id `pid`. -/
  | creating (pid : Str)
  /-- `get_or_create` has returned `session`. -/
  | got (session : AcestreamSession)
  /-- The client is registered, and the engine's stream of `session` is being opened. `counted` is
  the counter that was incremented, if one was. -/
  | opening (session : AcestreamSession) (counted : Option ℕ)
  /-- The client receives the stream of `session`. -/
  | streaming (session : AcestreamSession) (counted : Option ℕ)
  | closed
deriving DecidableEq

/-- A request to one of the handlers. -/
structure AcestreamRequest where
  handler : AcestreamHandler
  isHead : Bool
  infohash : Str
  contentId : Option Str
  /-- The manifest handler has invalidated a session before. -/
  retried : Bool
  phase : Phase

/-- The task that stops the engine after the last client of a session has left. -/
structure StopTask where
  infohash : Str
  commandUrl : Option Str
  due : ℕ
  /-- The counter of the session that was removed. -/
  session : ℕ

/-- What has become of a session. -/
inductive Fate
  | running
  | invalidated
  /-- Its last client has left. -/
  | released
  /-- The engine was told to stop it. -/
  | stopped
deriving DecidableEq

/-- A session in the ledger, as it was stored last. -/
structure LedgerEntry where
  infohash : Str
  session : AcestreamSession
  fate : Fate

structure AcestreamWorker where
  manager : AcestreamSessionManager
  requests : List AcestreamRequest
  stopTasks : List StopTask
  ledger : ℕ → Option LedgerEntry

/-- What can happen next at a worker. `i` is the index of a request, in order of arrival. -/
inductive AcestreamEvent
  | arrive (handler : AcestreamHandler) (isHead : Bool) (infohash : Str) (contentId : Option Str)
  /-- `get_or_create` looks the session up; if it needs a new one, it draws `pid`. -/
  | lookup (i : ℕ) (pid : Str)
  /-- The engine answers a call for a new session. -/
  | reply (i : ℕ) (reply : EngineReply)
  /-- The stream handler goes on with its session. -/
  | connect (i : ℕ)
  /-- The manifest handler goes on with its session: it fetches the manifest, and the engine
  answers with status 403 or otherwise. -/
  | fetched (i : ℕ) (forbidden : Bool)
  /-- The engine's stream opens or fails. -/
  | opened (i : ℕ) (ok : Bool)
  /-- The stream ends, or its client goes away. -/
  | disconnect (i : ℕ)
  /-- The client goes away before it has an answer, and the handler is dropped where it waits. -/
  | abandon (i : ℕ)
  /-- The delay of a stop task is over. -/
  | graceOver (k : ℕ)

namespace AcestreamWorker

open AcestreamSessionManager

def new : AcestreamWorker := ⟨.new, [], [], fun _ => none⟩

variable (w : AcestreamWorker)

/-- The request `i` gets to `phase`. -/
def goTo (i : ℕ) (r : AcestreamRequest) (phase : Phase) : AcestreamWorker :=
  { w with requests := w.requests.set i { r with phase } }

/-- The session with the counter `c` comes to `fate`. -/
def setFate (c : ℕ) (fate : Fate) : AcestreamWorker :=
  { w with ledger := Function.update w.ledger c ((w.ledger c).map ({ · with fate })) }

/-- `session` is what the registry stores for `infohash`. -/
def note (infohash : Str) (session : AcestreamSession) : AcestreamWorker :=
  { w with
    ledger := Function.update w.ledger session.clientCount (some ⟨infohash, session, .running⟩) }

def lookup (now i : ℕ) (r : AcestreamRequest) (pid : Str) : AcestreamWorker :=
  match w.manager.cached now r.infohash with
  | some (session, manager) =>
    ({ w with manager }.note r.infohash session).goTo i r (.got session)
  | none => w.goTo i r (.creating pid)

/-- An error of `get_or_create` is an error of the handler. -/
def receive (config : AcestreamConfig) (now i : ℕ) (r : AcestreamRequest) (pid : Str)
    (reply : EngineReply) : AcestreamWorker :=
  match w.manager.create config now r.infohash r.contentId pid reply with
  | .ok (session, manager) =>
    ({ w with manager }.note r.infohash session).goTo i r (.got session)
  | .error _ => w.goTo i r .closed

/-- `acestream_stream_handler`, with its session at hand: in free mode it serves the manifest, and
a `HEAD` request is answered at once. -/
def connect (i : ℕ) (r : AcestreamRequest) (session : AcestreamSession) : AcestreamWorker :=
  if session.isFreeMode then w.goTo i r .closed
  else if r.isHead then w.goTo i r .closed
  else
    let counted := (w.manager.sessions r.infohash).map (·.clientCount)
    { w with manager := w.manager.incrementClient r.infohash }.goTo i r (.opening session counted)

/-- `invalidate`. -/
def invalidate (infohash : Str) : AcestreamWorker :=
  let manager := w.manager.invalidate infohash
  match w.manager.sessions infohash with
  | some s => { w with manager }.setFate s.clientCount .invalidated
  | none => { w with manager }

/-- `acestream_manifest_handler`, with its session at hand. -/
def fetched (i : ℕ) (r : AcestreamRequest) (forbidden : Bool) : AcestreamWorker :=
  if r.isHead then w.goTo i r .closed
  else if forbidden ∧ ¬ r.retried then
    (w.invalidate r.infohash).goTo i { r with retried := true } .looking
  else w.goTo i r .closed

/-- `release_client`, with the task that it spawns. -/
def release (now : ℕ) (infohash : Str) : AcestreamWorker :=
  match w.manager.releaseClient infohash with
  | (manager, some s) =>
    let task : StopTask := ⟨infohash, s.commandUrl, now + fromSecs 30, s.clientCount⟩
    { w with manager, stopTasks := w.stopTasks ++ [task] }.setFate s.clientCount .released
  | (manager, none) => { w with manager }

/-- The URL that a stop task requests of the engine, if it does. -/
def stops (t : StopTask) : Option Str :=
  if (w.manager.sessions t.infohash).isSome then none else t.commandUrl.map stopUrl

def runStop (k : ℕ) (t : StopTask) : AcestreamWorker :=
  let w' := { w with stopTasks := w.stopTasks.eraseIdx k }
  if (w.stops t).isSome then w'.setFate t.session .stopped else w'

/-- What an event does at time `now`. -/
def step (config : AcestreamConfig) (now : ℕ) (w : AcestreamWorker) :
    AcestreamEvent → Option AcestreamWorker
  | .arrive handler isHead infohash contentId =>
    some { w with
      requests := w.requests ++ [⟨handler, isHead, infohash, contentId, false, .looking⟩] }
  | .lookup i pid =>
    match w.requests[i]? with
    | some r => if r.phase = .looking then some (w.lookup now i r pid) else none
    | none => none
  | .reply i reply =>
    match w.requests[i]? with
    | some r =>
      match r.phase with
      | .creating pid => some (w.receive config now i r pid reply)
      | _ => none
    | none => none
  | .connect i =>
    match w.requests[i]? with
    | some r =>
      match r.handler, r.phase with
      | .stream, .got session => some (w.connect i r session)
      | _, _ => none
    | none => none
  | .fetched i forbidden =>
    match w.requests[i]? with
    | some r =>
      match r.handler, r.phase with
      | .manifest, .got _ => some (w.fetched i r forbidden)
      | _, _ => none
    | none => none
  | .opened i ok =>
    match w.requests[i]? with
    | some r =>
      match r.phase with
      | .opening session counted =>
        if ok then some (w.goTo i r (.streaming session counted))
        else some ((w.release now r.infohash).goTo i r .closed)
      | _ => none
    | none => none
  | .disconnect i =>
    match w.requests[i]? with
    | some r =>
      match r.phase with
      | .streaming _ _ => some ((w.release now r.infohash).goTo i r .closed)
      | _ => none
    | none => none
  | .abandon i =>
    match w.requests[i]? with
    | some r =>
      match r.phase with
      | .streaming _ _ | .closed => none
      | _ => some (w.goTo i r .closed)
    | none => none
  | .graceOver k =>
    match w.stopTasks[k]? with
    | some t => if t.due ≤ now then some (w.runStop k t) else none
    | none => none

/-- What a step can do, with its guards. -/
inductive Does (config : AcestreamConfig) (now : ℕ) (w : AcestreamWorker) :
    AcestreamEvent → AcestreamWorker → Prop
  | arrive (handler : AcestreamHandler) (isHead : Bool) (infohash : Str)
      (contentId : Option Str) : Does config now w (.arrive handler isHead infohash contentId)
        { w with
          requests := w.requests ++ [⟨handler, isHead, infohash, contentId, false, .looking⟩] }
  | lookup {i : ℕ} {r : AcestreamRequest} (pid : Str) (hi : w.requests[i]? = some r)
      (hr : r.phase = .looking) : Does config now w (.lookup i pid) (w.lookup now i r pid)
  | reply {i : ℕ} {r : AcestreamRequest} {pid : Str} (reply : EngineReply)
      (hi : w.requests[i]? = some r) (hr : r.phase = .creating pid) :
      Does config now w (.reply i reply) (w.receive config now i r pid reply)
  | connect {i : ℕ} {r : AcestreamRequest} {s : AcestreamSession} (hi : w.requests[i]? = some r)
      (hhandler : r.handler = .stream) (hr : r.phase = .got s) :
      Does config now w (.connect i) (w.connect i r s)
  | fetched {i : ℕ} {r : AcestreamRequest} {s : AcestreamSession} (forbidden : Bool)
      (hi : w.requests[i]? = some r) (hhandler : r.handler = .manifest) (hr : r.phase = .got s) :
      Does config now w (.fetched i forbidden) (w.fetched i r forbidden)
  | opens {i : ℕ} {r : AcestreamRequest} {s : AcestreamSession} {c : Option ℕ}
      (hi : w.requests[i]? = some r) (hr : r.phase = .opening s c) :
      Does config now w (.opened i true) (w.goTo i r (.streaming s c))
  | fails {i : ℕ} {r : AcestreamRequest} {s : AcestreamSession} {c : Option ℕ}
      (hi : w.requests[i]? = some r) (hr : r.phase = .opening s c) :
      Does config now w (.opened i false) ((w.release now r.infohash).goTo i r .closed)
  | disconnect {i : ℕ} {r : AcestreamRequest} {s : AcestreamSession} {c : Option ℕ}
      (hi : w.requests[i]? = some r) (hr : r.phase = .streaming s c) :
      Does config now w (.disconnect i) ((w.release now r.infohash).goTo i r .closed)
  | abandon {i : ℕ} {r : AcestreamRequest} (hi : w.requests[i]? = some r)
      (hr : ∀ s c, r.phase ≠ .streaming s c) : Does config now w (.abandon i) (w.goTo i r .closed)
  | graceOver {k : ℕ} {t : StopTask} (hk : w.stopTasks[k]? = some t) (hdue : t.due ≤ now) :
      Does config now w (.graceOver k) (w.runStop k t)

theorem does_of_step {w w' : AcestreamWorker} {config : AcestreamConfig} {now : ℕ}
    {e : AcestreamEvent} (h : w.step config now e = some w') : Does config now w e w' := by
  cases e with
  | arrive handler isHead infohash contentId =>
    cases h
    exact .arrive handler isHead infohash contentId
  | lookup i pid =>
    simp only [step] at h
    split at h
    · next r hi =>
      split at h
      · next hr =>
        cases h
        exact .lookup pid hi hr
      · cases h
    · cases h
  | reply i reply =>
    simp only [step] at h
    split at h
    · next r hi =>
      split at h
      · next pid hr =>
        cases h
        exact .reply reply hi hr
      · cases h
    · cases h
  | connect i =>
    simp only [step] at h
    split at h
    · next r hi =>
      split at h
      · next s hhandler hr =>
        cases h
        exact .connect hi hhandler hr
      · cases h
    · cases h
  | fetched i forbidden =>
    simp only [step] at h
    split at h
    · next r hi =>
      split at h
      · next s hhandler hr =>
        cases h
        exact .fetched forbidden hi hhandler hr
      · cases h
    · cases h
  | opened i ok =>
    simp only [step] at h
    split at h
    · next r hi =>
      split at h
      · next s c hr =>
        cases ok with
        | true =>
          cases h
          exact .opens hi hr
        | false =>
          cases h
          exact .fails hi hr
      · cases h
    · cases h
  | disconnect i =>
    simp only [step] at h
    split at h
    · next r hi =>
      split at h
      · next s c hr =>
        cases h
        exact .disconnect hi hr
      · cases h
    · cases h
  | abandon i =>
    simp only [step] at h
    split at h
    · next r hi =>
      split at h
      · cases h
      · cases h
      · next hr _ =>
        cases h
        exact .abandon hi hr
    · cases h
  | graceOver k =>
    simp only [step] at h
    split at h
    · next t hk =>
      split at h
      · next hdue =>
        cases h
        exact .graceOver hk hdue
      · cases h
    · cases h

theorem runStop_manager (k : ℕ) (t : StopTask) : (w.runStop k t).manager = w.manager := by
  unfold runStop
  split <;> rfl

theorem runStop_requests (k : ℕ) (t : StopTask) : (w.runStop k t).requests = w.requests := by
  unfold runStop
  split <;> rfl

theorem runStop_stopTasks (k : ℕ) (t : StopTask) :
    (w.runStop k t).stopTasks = w.stopTasks.eraseIdx k := by
  unfold runStop
  split <;> rfl

theorem invalidate_manager (infohash : Str) :
    (w.invalidate infohash).manager = w.manager.remove infohash := by
  unfold invalidate
  split <;> rfl

theorem invalidate_requests (infohash : Str) :
    (w.invalidate infohash).requests = w.requests := by
  unfold invalidate
  split <;> rfl

theorem invalidate_stopTasks (infohash : Str) :
    (w.invalidate infohash).stopTasks = w.stopTasks := by
  unfold invalidate
  split <;> rfl

end AcestreamWorker

/-- All workers of the server, and the time. -/
structure AcestreamServer where
  now : ℕ
  workers : ℕ → AcestreamWorker

inductive ServerEvent
  | tick (elapsed : ℕ)
  | at (worker : ℕ) (event : AcestreamEvent)

/-- The server with engine settings `config`: no session and no request at first. -/
def acestreamServer (config : AcestreamConfig) : Machine AcestreamServer ServerEvent where
  init := ⟨0, fun _ => .new⟩
  step s
    | .tick elapsed => some { s with now := s.now + elapsed }
    | .at n e => ((s.workers n).step config s.now e).map fun w =>
        { s with workers := Function.update s.workers n w }

/-- An engine on this machine, without a token. -/
def localEngine : AcestreamConfig := ⟨"localhost".toList, 6878, none⟩

/-- The engine starts a session. -/
def startedReply : EngineReply :=
  .json ⟨some ⟨some "http://localhost:6878/ace/m/1".toList, none,
    some "http://localhost:6878/ace/cmd/1".toList⟩, none⟩

end MediaFlow
