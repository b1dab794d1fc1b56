import Mathlib.Logic.Function.Basic
import MediaFlow.Lib.Runs
import MediaFlow.Lib.Text

/-!
# HLS segment pre-buffer

`hls/prebuffer.rs`: the prefetchers of the playlists, and what goes on around the map entry of one
playlist URL. A call of `register_playlist` holds the lock of the entry while it updates the
prefetcher that it finds; where it finds none it inserts one and then spawns its worker. The worker
looks whether the prefetcher is idle, and takes the entry out of the map in a later step.

Each step of the machine is one visit to a lock: the map's, the one around the queue or the one
around the time of the last activity. A prefetcher is named by the call that made it.
-/

open Text

namespace MediaFlow

structure PrebufferConfig where
  /-- Number of segments to fetch ahead. -/
  segmentsAhead : ℕ
  maxPrefetchers : ℕ
  /-- In nanoseconds, as all times. -/
  inactivityTimeout : ℕ
  segmentCacheTtl : ℕ

def PrebufferConfig.default : PrebufferConfig where
  segmentsAhead := 5
  maxPrefetchers := 50
  inactivityTimeout := fromSecs 60
  segmentCacheTtl := fromSecs 300

structure PrefetcherState where
  queue : List Str
  headers : List (Str × Str)
deriving DecidableEq

/-- Without `wake`: a worker that waits for it goes on after five seconds anyway. -/
structure PlaylistPrefetcher where
  state : PrefetcherState
  lastActive : ℕ
deriving DecidableEq

namespace PlaylistPrefetcher

def new (urls : List Str) (headers : List (Str × Str)) (now : ℕ) : PlaylistPrefetcher :=
  ⟨⟨urls, headers⟩, now⟩

variable (p : PlaylistPrefetcher)

/-- What `update` and `prioritize` do at their end, under another lock than the rest. -/
def touch (now : ℕ) : PlaylistPrefetcher := { p with lastActive := now }

/-- `update`, without the new time of activity. -/
def update (urls : List Str) (headers : List (Str × Str)) : PlaylistPrefetcher :=
  { p with state := ⟨urls, headers⟩ }

/-- `prioritize`, without the new time of activity. -/
def prioritize (url : Str) : PlaylistPrefetcher :=
  { p with state := { p.state with queue := url :: p.state.queue.erase url } }

def popBatchWithHeaders (maxItems : ℕ) : (List Str × List (Str × Str)) × PlaylistPrefetcher :=
  if maxItems = 0 then (([], []), p)
  else ((p.state.queue.take maxItems, p.state.headers),
    { p with state := { p.state with queue := p.state.queue.drop maxItems } })

@[simp] theorem popBatchWithHeaders_lastActive (maxItems : ℕ) :
    (p.popBatchWithHeaders maxItems).2.lastActive = p.lastActive := by
  unfold popBatchWithHeaders
  split <;> rfl

end PlaylistPrefetcher

/-- `is_idle`, once the time of the last activity is read. -/
def isIdle (last now timeout : ℕ) : Bool := timeout ≤ now - last

/-- Where the worker of a prefetcher is. -/
inductive PrefetchWorker
  | unspawned
  /-- At the head of the loop. -/
  | looping
  /-- `is_idle` has read the time of the last activity. -/
  | read (last : ℕ)
  /-- Not idle; about to take a batch. -/
  | taking
  /-- Fetches the batch, or waits if there is none. -/
  | fetching (urls : List Str) (headers : List (Str × Str))
  /-- Found idle `atTime`, when the last activity had been at `since`; about to remove the entry. -/
  | leaving (since atTime : ℕ)
  | exited (since atTime : ℕ)
deriving DecidableEq

namespace PrefetchWorker

/-- Spawned, and not about to leave. -/
def serving : PrefetchWorker → Bool
  | looping | read _ | taking | fetching .. => true
  | unspawned | leaving .. | exited .. => false

/-- When the worker decided to exit, and how long the prefetcher had been idle then. -/
def decision : PrefetchWorker → Option (ℕ × ℕ)
  | leaving since t | exited since t => some (since, t)
  | _ => none

/-- The entry of the map is this worker's to remove. -/
def owning : PrefetchWorker → Bool
  | unspawned | exited .. => false
  | _ => true

theorem owning_of_serving {w : PrefetchWorker} (h : w.serving) : w.owning := by
  cases w <;> first | rfl | cases h

end PrefetchWorker

/-- Where a call of `register_playlist` is. From `found` to `stamped`, and in `made`, it holds the
lock of the entry. -/
inductive Registration
  /-- The entry is there, with the prefetcher `p`. -/
  | found (p : ℕ) (urls : List Str) (headers : List (Str × Str))
  /-- `update` has replaced the queue. -/
  | stored (p : ℕ)
  /-- `update` has set the time of the last activity. -/
  | stamped (p atTime : ℕ)
  /-- The entry is vacant, and the call has made a prefetcher. -/
  | made
  /-- The prefetcher is in the map; its worker is not yet spawned. -/
  | inserted
  /-- The URLs are in the queue of `p`, whose last activity was set to `atTime`. -/
  | returned (p atTime : ℕ)
deriving DecidableEq

/-- Where a call of `on_segment_request` is that has found a prefetcher. It shares the lock of the
entry until it is done. -/
inductive SegmentRequest
  | found (p : ℕ) (url : Str)
  | queued (p : ℕ)
  | stamped
  | done
deriving DecidableEq

/-- All that concerns one playlist URL. -/
structure Prebuffer where
  now : ℕ
  /-- The prefetcher in the map. -/
  entry : Option ℕ
  prefetchers : ℕ → PlaylistPrefetcher
  workers : ℕ → PrefetchWorker
  calls : ℕ → Option Registration
  requests : ℕ → Option SegmentRequest
  /-- The call that holds the lock of the entry, and the number of requests that share it. -/
  writer : Option ℕ
  readers : ℕ

inductive PrebufferEvent
  | elapse (d : ℕ)
  /-- `register_playlist` gets the lock of the entry and looks into it. -/
  | enter (i : ℕ) (urls : List Str) (headers : List (Str × Str))
  /-- `update` in its two visits, and the return, which gives the lock back. -/
  | store (i : ℕ)
  | stamp (i : ℕ)
  | leave (i : ℕ)
  | insert (i : ℕ)
  | spawn (i : ℕ)
  | request (j : ℕ) (url : Str)
  | promote (j : ℕ)
  | touch (j : ℕ)
  | release (j : ℕ)
  /-- The worker of `p`: `is_idle` in its two halves, the batch, the fetches or the wait, and the
  removal of the entry. -/
  | check (p : ℕ)
  | judge (p : ℕ)
  | take (p : ℕ)
  | again (p : ℕ)
  | remove (p : ℕ)

namespace Prebuffer

open Function (update)

def new : Prebuffer where
  now := 0
  entry := none
  prefetchers _ := .new [] [] 0
  workers _ := .unspawned
  calls _ := none
  requests _ := none
  writer := none
  readers := 0

variable (s : Prebuffer)

def setCall (i : ℕ) (c : Registration) : Prebuffer := { s with calls := update s.calls i (some c) }

def setRequest (j : ℕ) (r : SegmentRequest) : Prebuffer :=
  { s with requests := update s.requests j (some r) }

def setWorker (p : ℕ) (w : PrefetchWorker) : Prebuffer := { s with workers := update s.workers p w }

def setPrefetcher (p : ℕ) (q : PlaylistPrefetcher) : Prebuffer :=
  { s with prefetchers := update s.prefetchers p q }

/-- What an event does, `none` where it cannot happen now. -/
def step (config : PrebufferConfig) : PrebufferEvent → Option Prebuffer
  | .elapse d => some { s with now := s.now + d }
  | .enter i urls headers =>
    if s.calls i = none ∧ s.writer = none ∧ s.readers = 0 then
      match s.entry with
      | some p => some ({ s with writer := some i }.setCall i (.found p urls headers))
      | none =>
        some (({ s with writer := some i }.setPrefetcher i (.new urls headers s.now)).setCall i .made)
    else none
  | .store i =>
    match s.calls i with
    | some (.found p urls headers) =>
      some ((s.setPrefetcher p ((s.prefetchers p).update urls headers)).setCall i (.stored p))
    | _ => none
  | .stamp i =>
    match s.calls i with
    | some (.stored p) =>
      some ((s.setPrefetcher p ((s.prefetchers p).touch s.now)).setCall i (.stamped p s.now))
    | _ => none
  | .leave i =>
    match s.calls i with
    | some (.stamped p t) => some ({ s with writer := none }.setCall i (.returned p t))
    | _ => none
  | .insert i =>
    match s.calls i with
    | some .made => some ({ s with entry := some i, writer := none }.setCall i .inserted)
    | _ => none
  | .spawn i =>
    match s.calls i with
    | some .inserted =>
      some ((s.setWorker i .looping).setCall i (.returned i (s.prefetchers i).lastActive))
    | _ => none
  | .request j url =>
    if s.requests j = none ∧ s.writer = none then
      match s.entry with
      | some p => some ({ s with readers := s.readers + 1 }.setRequest j (.found p url))
      | none => some (s.setRequest j .done)
    else none
  | .promote j =>
    match s.requests j with
    | some (.found p url) =>
      some ((s.setPrefetcher p ((s.prefetchers p).prioritize url)).setRequest j (.queued p))
    | _ => none
  | .touch j =>
    match s.requests j with
    | some (.queued p) =>
      some ((s.setPrefetcher p ((s.prefetchers p).touch s.now)).setRequest j .stamped)
    | _ => none
  | .release j =>
    match s.requests j with
    | some .stamped => some ({ s with readers := s.readers - 1 }.setRequest j .done)
    | _ => none
  | .check p =>
    match s.workers p with
    | .looping => some (s.setWorker p (.read (s.prefetchers p).lastActive))
    | _ => none
  | .judge p =>
    match s.workers p with
    | .read last =>
      if isIdle last s.now config.inactivityTimeout then
        some (s.setWorker p (.leaving (s.prefetchers p).lastActive s.now))
      else some (s.setWorker p .taking)
    | _ => none
  | .take p =>
    match s.workers p with
    | .taking =>
      let ((urls, headers), q) := (s.prefetchers p).popBatchWithHeaders config.segmentsAhead
      some ((s.setPrefetcher p q).setWorker p (.fetching urls headers))
    | _ => none
  | .again p =>
    match s.workers p with
    | .fetching _ _ => some (s.setWorker p .looping)
    | _ => none
  | .remove p =>
    match s.workers p with
    | .leaving since t =>
      if s.writer = none ∧ s.readers = 0 then
        some ({ s with entry := none }.setWorker p (.exited since t))
      else none
    | _ => none

end Prebuffer

/-- The pre-buffer, from the start of the server on. -/
def prebufferMachine (config : PrebufferConfig) : Machine Prebuffer PrebufferEvent :=
  ⟨.new, fun s e => s.step config e⟩

end MediaFlow
