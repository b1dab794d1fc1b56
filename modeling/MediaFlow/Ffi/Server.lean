import Mathlib.Logic.Function.Basic
import MediaFlow.Lib.Runs

/-!
# The embedded server

`ffi/mod.rs`: one handle, the calls that caller threads make on it, and the background threads that
`mediaflow_server_start` spawns. Each step of the machine is one visit to what they share: the two
atomics, the mutex around `shutdown_tx`, and the two channels that each start makes. The server of a
background thread is actix-web's. It holds its port from `bind` until it has ended, by itself or
because `handle.stop` was awaited.
-/

namespace MediaFlow

/-- `errConfig` is for null handles only, and no handle is null here. -/
inductive MediaflowStatus
  | ok
  | errConfig
  | errBind
  | errAlreadyRunning
  | errNotRunning
  | errInternal
deriving DecidableEq

/-- Where a call of `mediaflow_server_start` is. -/
inductive StartCall
  | idle
  /-- `is_running` was false. -/
  | checked
  /-- The thread is spawned, and the call waits in `ready_rx.recv()`. -/
  | waiting
  | received (boundPort : ℕ)
  /-- `actual_port` is stored. -/
  | published
  | returned (status : MediaflowStatus)
deriving DecidableEq

/-- Where the background thread of a start is. -/
inductive ServerThread
  | unspawned
  | starting
  | bound (port : ℕ)
  /-- The caller was told; `is_running` is still to be stored. -/
  | signalled (port : ℕ)
  | raised (port : ℕ)
  /-- Both atomics are stored; in the `select!`. -/
  | serving (port : ℕ)
  /-- Awaits `handle.stop`. -/
  | stopping (port : ℕ)
  /-- The server has ended; `is_running` is still to be stored. -/
  | stopped
  | exited
deriving DecidableEq

/-- What is in the ready channel of a start. -/
inductive ReadySignal
  | pending
  | bound (port : ℕ)
  | failed
  /-- The sender was dropped. -/
  | closed
deriving DecidableEq

/-- What one start has made. -/
structure Launch where
  call : StartCall
  thread : ServerThread
  ready : ReadySignal
  /-- The sender of the shutdown channel has sent, or is dropped. -/
  resolved : Bool
deriving DecidableEq

/-- Where a call of `mediaflow_server_stop` is. `since` has the starts that had returned `Ok`, with
no other stop called in between, when this one was called. -/
inductive StopCall
  | idle
  | called (since : List ℕ)
  /-- `is_running` was true. -/
  | loaded (since : List ℕ)
  /-- `reached` is the start whose thread has got the message. -/
  | returned (since : List ℕ) (status : MediaflowStatus) (reached : Option ℕ)
deriving DecidableEq

/-- Starts and stops are named by numbers, threads and senders by their start. -/
structure MediaflowServer where
  /-- 0 lets the OS choose. -/
  port : ℕ
  /-- What `mediaflow_server_is_running` returns. -/
  isRunning : Bool
  actualPort : ℕ
  shutdownTx : Option ℕ
  launches : ℕ → Launch
  stops : ℕ → StopCall
  /-- The ports that threads of the handle hold. -/
  ports : List ℕ
  /-- The starts that have returned `Ok` since a stop was last called. -/
  unstopped : List ℕ

inductive FfiEvent
  /-- The steps of a start; `keep` stores `shutdown_tx` and returns. -/
  | check (i : ℕ)
  | spawn (i : ℕ)
  | recv (i : ℕ)
  | publish (i : ℕ)
  | keep (i : ℕ)
  /-- Those of its thread, up to the `select!`: a runtime, configuration or bind error, or a panic,
  ends it before. -/
  | fail (i : ℕ)
  | die (i : ℕ)
  | bind (i port : ℕ)
  | signal (i : ℕ)
  | raise (i : ℕ)
  | serve (i : ℕ)
  /-- The server ends by itself. -/
  | finish (i : ℕ)
  | shutdown (i : ℕ)
  | close (i : ℕ)
  | lower (i : ℕ)
  /-- The steps of a stop. -/
  | callStop (j : ℕ)
  | load (j : ℕ)
  | take (j : ℕ)

namespace ServerThread

/-- The thread has a bound server. -/
def isBound : ServerThread → Bool
  | bound _ | signalled _ | raised _ | serving _ | stopping _ => true
  | unspawned | starting | stopped | exited => false

/-- The thread has the receiver of the shutdown channel. -/
def hasReceiver : ServerThread → Bool
  | starting | bound _ | signalled _ | raised _ | serving _ => true
  | unspawned | stopping _ | stopped | exited => false

end ServerThread

/-- The call is past its check, and has not returned. -/
def StartCall.pending : StartCall → Bool
  | checked | waiting | received _ | published => true
  | idle | returned _ => false

namespace StopCall

def since : StopCall → List ℕ
  | idle => []
  | called since | loaded since | returned since _ _ => since

def pending : StopCall → Bool
  | called _ | loaded _ => true
  | idle | returned .. => false

end StopCall

namespace MediaflowServer

open Function (update)

/-- `mediaflow_server_create`. -/
def create (port : ℕ) : MediaflowServer where
  port := port
  isRunning := false
  actualPort := 0
  shutdownTx := none
  launches _ := ⟨.idle, .unspawned, .pending, false⟩
  stops _ := .idle
  ports := []
  unstopped := []

variable (s : MediaflowServer)

def setLaunch (i : ℕ) (l : Launch) : MediaflowServer :=
  { s with launches := update s.launches i l }

def setCall (i : ℕ) (c : StartCall) : MediaflowServer :=
  s.setLaunch i { s.launches i with call := c }

def setThread (i : ℕ) (t : ServerThread) : MediaflowServer :=
  s.setLaunch i { s.launches i with thread := t }

def setStop (j : ℕ) (c : StopCall) : MediaflowServer :=
  { s with stops := update s.stops j c }

/-- The sender of this start, if any, has sent or is dropped. -/
def resolve : Option ℕ → MediaflowServer
  | none => s
  | some i => s.setLaunch i { s.launches i with resolved := true }

/-- What `recv` returns; on an error the call returns, which drops its shutdown sender. -/
def receive (i : ℕ) : Option MediaflowServer :=
  match (s.launches i).ready with
  | .pending => none
  | .bound p => some (s.setCall i (.received p))
  | .failed =>
    some (s.setLaunch i { s.launches i with call := .returned .errBind, resolved := true })
  | .closed =>
    some (s.setLaunch i { s.launches i with call := .returned .errInternal, resolved := true })

/-- The OS gives a port to one server at a time. -/
def canBind (p : ℕ) : Prop := (s.port = 0 ∨ p = s.port) ∧ p ∉ s.ports

instance (p : ℕ) : Decidable (s.canBind p) := inferInstanceAs (Decidable (_ ∧ _))

/-- The server of a thread has ended, and its port is free. -/
def release (i p : ℕ) : MediaflowServer :=
  { s.setThread i .stopped with ports := s.ports.erase p }

/-- `guard.take()`, and `tx.send(())`: it reaches a thread that still has the receiver. -/
def takeSender (j : ℕ) (since : List ℕ) : MediaflowServer :=
  match s.shutdownTx with
  | none => s.setStop j (.returned since .errInternal none)
  | some i =>
    { (s.resolve i).setStop j (.returned since .ok
        (if (s.launches i).thread.hasReceiver then some i else none)) with shutdownTx := none }

def step : FfiEvent → Option MediaflowServer
  | .check i =>
    if (s.launches i).call = .idle then
      some (s.setCall i (if s.isRunning then .returned .errAlreadyRunning else .checked))
    else none
  | .spawn i =>
    if (s.launches i).call = .checked then
      some (s.setLaunch i ⟨.waiting, .starting, .pending, false⟩)
    else none
  | .recv i => if (s.launches i).call = .waiting then s.receive i else none
  | .publish i =>
    match (s.launches i).call with
    | .received p => some { s.setCall i .published with actualPort := p }
    | _ => none
  | .keep i =>
    if (s.launches i).call = .published then
      -- the sender that was there is dropped
      some { (s.resolve s.shutdownTx).setCall i (.returned .ok) with
        shutdownTx := some i
        unstopped := i :: s.unstopped }
    else none
  | .fail i =>
    if (s.launches i).thread = .starting then
      some (s.setLaunch i { s.launches i with thread := .exited, ready := .failed })
    else none
  | .die i =>
    if (s.launches i).thread = .starting then
      some (s.setLaunch i { s.launches i with thread := .exited, ready := .closed })
    else none
  | .bind i p =>
    if (s.launches i).thread = .starting ∧ s.canBind p then
      some { s.setThread i (.bound p) with ports := p :: s.ports }
    else none
  | .signal i =>
    match (s.launches i).thread with
    | .bound p => some (s.setLaunch i { s.launches i with thread := .signalled p, ready := .bound p })
    | _ => none
  | .raise i =>
    match (s.launches i).thread with
    | .signalled p => some { s.setThread i (.raised p) with isRunning := true }
    | _ => none
  | .serve i =>
    match (s.launches i).thread with
    | .raised p => some { s.setThread i (.serving p) with actualPort := p }
    | _ => none
  | .finish i =>
    match (s.launches i).thread with
    | .serving p => some (s.release i p)
    | _ => none
  | .shutdown i =>
    match (s.launches i).thread with
    | .serving p => if (s.launches i).resolved then some (s.setThread i (.stopping p)) else none
    | _ => none
  | .close i =>
    match (s.launches i).thread with
    | .stopping p => some (s.release i p)
    | _ => none
  | .lower i =>
    if (s.launches i).thread = .stopped then some { s.setThread i .exited with isRunning := false }
    else none
  | .callStop j =>
    if s.stops j = .idle then some { s.setStop j (.called s.unstopped) with unstopped := [] }
    else none
  | .load j =>
    match s.stops j with
    | .called since =>
      some (s.setStop j (if s.isRunning then .loaded since else .returned since .errNotRunning none))
    | _ => none
  | .take j =>
    match s.stops j with
    | .loaded since => some (s.takeSender j since)
    | _ => none

end MediaflowServer

/-- The handle with its callers and threads. -/
def serverMachine (port : ℕ) : Machine MediaflowServer FfiEvent where
  init := .create port
  step := MediaflowServer.step

end MediaFlow
