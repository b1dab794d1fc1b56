import MediaFlow.Cache.Local
import MediaFlow.Hls.CacheKey
import MediaFlow.Hls.Prebuffer
import MediaFlow.Lib.FilledStore

/-!
# The segment cache and those who use it

All of `hls/prebuffer.rs`, with the segment handler of `hls/segment.rs`. The prefetchers of each
playlist URL are a machine of their own (`Prebuffer`). Here their workers go through a batch: they
look up each URL, fetch those that are missing all at once, and store what came when all fetches are
over. Meanwhile players ask for segments, with or without a playlist URL, and are answered from the
same cache or from upstream.
-/

open ByteString Text

namespace MediaFlow

/-- What comes of a fetch. -/
inductive UpstreamAnswer
  /-- The request could not be made or sent. -/
  | failed
  /-- Without a body where it could not be read to its end. -/
  | response (status : ℕ) (body : Option Bytes)
deriving DecidableEq

/-- The body of a successful response. -/
def UpstreamAnswer.successBody : UpstreamAnswer → Option Bytes
  | .failed => none
  | .response status body => if 200 ≤ status ∧ status < 300 then body else none

theorem UpstreamAnswer.successBody_eq_some_iff {a : UpstreamAnswer} {body : Bytes} :
    a.successBody = some body ↔
      ∃ status, a = .response status (some body) ∧ 200 ≤ status ∧ status < 300 := by
  cases a with
  | failed => exact iff_of_false nofun nofun
  | response status b =>
    change (if 200 ≤ status ∧ status < 300 then b else none) = some body ↔ _
    by_cases h : 200 ≤ status ∧ status < 300
    · rw [if_pos h]
      constructor
      · rintro rfl
        exact ⟨status, rfl, h⟩
      · rintro ⟨_, heq, -⟩
        cases heq
        rfl
    · rw [if_neg h]
      refine iff_of_false nofun ?_
      rintro ⟨_, heq, hstatus⟩
      cases heq
      exact h hstatus

/-- `fetch_segment`, once it has its answer. -/
def fetchSegment (cacheKey : Str) (answer : UpstreamAnswer) : Option (Str × Bytes) :=
  answer.successBody.map fun bytes => (cacheKey, bytes)

/-- One of the fetches of a batch, with its result once there is one. -/
structure SegmentFetch where
  url : Str
  cacheKey : Str
  result : Option (Option (Str × Bytes))

/-- Where a worker is in its batch. -/
inductive BatchStage
  /-- It still has to look up `urls`. -/
  | looking (urls : List Str) (fetches : List SegmentFetch)
  /-- `join_all`. -/
  | joining (fetches : List SegmentFetch)
  | storing (found : List (Str × Bytes))

structure Batch where
  headers : List (Str × Str)
  stage : BatchStage

/-- Where a call of the segment handler is. -/
inductive SegmentPhase
  | arrived
  /-- In `on_segment_request`. -/
  | notifying
  | notified
  /-- Answered from the cache at `served`. -/
  | cached (served : ℕ) (entry : CacheEntry)
  | upstream
deriving DecidableEq

/-- What the handler reads of the request. -/
structure SegmentCall where
  destination : Str
  passHeaders : List (Str × Str)
  hasRange : Bool
  playlistUrl : Option Str
  phase : SegmentPhase
deriving DecidableEq

/-- What came of a fetch, for the record. -/
structure SegmentAnswer where
  url : Str
  headers : List (Str × Str)
  response : UpstreamAnswer
  atTime : ℕ

structure SegmentPool where
  now : ℕ
  playlists : Str → Prebuffer
  /-- Of the worker of each prefetcher. -/
  batches : Str × ℕ → Option Batch
  cache : LocalCache
  calls : List SegmentCall
  /-- All calls of `register_playlist`. -/
  registered : List (Str × List Str × List (Str × Str))
  answers : List SegmentAnswer

inductive SegmentEvent
  | elapse (d : ℕ)
  /-- `register_playlist` gets the lock of an entry. -/
  | register (playlist : Str) (i : ℕ) (urls : List Str) (headers : List (Str × Str))
  /-- Another visit to a lock of the playlist. -/
  | visit (playlist : Str) (e : PrebufferEvent)
  | arrive (destination : Str) (passHeaders : List (Str × Str)) (hasRange : Bool)
      (playlistUrl : Option Str)
  /-- The call `k` enters `on_segment_request`, leaves it, and turns to the cache. -/
  | notify (k : ℕ)
  | proceed (k : ℕ)
  | look (k : ℕ)
  /-- The worker of `p` takes a batch, looks up the next URL of it, gets an answer to the fetch `n`,
  has all answers, stores the next body, and goes back to the head of its loop. -/
  | take (playlist : Str) (p : ℕ)
  | examine (playlist : Str) (p : ℕ)
  | answer (playlist : Str) (p n : ℕ) (a : UpstreamAnswer)
  | collect (playlist : Str) (p : ℕ)
  | keep (playlist : Str) (p : ℕ)
  | again (playlist : Str) (p : ℕ)
  /-- The cache drops an entry to keep its size. -/
  | drop (key : Str)

/-- The steps of a playlist that are not part of another event here. -/
def PrebufferEvent.alone : PrebufferEvent → Bool
  | .elapse _ | .enter .. | .request .. | .take _ | .again _ => false
  | _ => true

namespace SegmentPool

open Function (update)

variable (s : SegmentPool)

def setPlaylist (playlist : Str) (b : Prebuffer) : SegmentPool :=
  { s with playlists := update s.playlists playlist b }

def setBatch (playlist : Str) (p : ℕ) (b : Option Batch) : SegmentPool :=
  { s with batches := update s.batches (playlist, p) b }

def setPhase (k : ℕ) (c : SegmentCall) (phase : SegmentPhase) : SegmentPool :=
  { s with calls := s.calls.set k { c with phase } }

def addAnswer (a : SegmentAnswer) : SegmentPool := { s with answers := s.answers ++ [a] }

/-- `get_cached_segment`, with the time at which the segment was stored. -/
def cachedSegment (url : Str) (headers : List (Str × Str)) : Option CacheEntry :=
  s.cache.live s.now (segmentCacheKey url headers)

/-- The next URL of a batch, unless it is in the cache; after the last one, all fetches begin. -/
def examined (headers : List (Str × Str)) (urls : List Str) (fetches : List SegmentFetch) : BatchStage :=
  match urls with
  | [] => .joining fetches
  | url :: rest =>
    let cacheKey := segmentCacheKey url headers
    if (s.cache.get s.now cacheKey).isSome then .looking rest fetches
    else .looking rest (fetches ++ [⟨url, cacheKey, none⟩])

/-- What an event does, `none` where it cannot happen now. -/
def step (config : PrebufferConfig) : SegmentEvent → Option SegmentPool
  | .elapse d => some { s with
      now := s.now + d
      playlists := fun u => { s.playlists u with now := (s.playlists u).now + d } }
  | .register u i urls headers =>
    ((s.playlists u).step config (.enter i urls headers)).map fun b =>
      { s with registered := s.registered ++ [(u, urls, headers)] }.setPlaylist u b
  | .visit u e =>
    if e.alone then ((s.playlists u).step config e).map (s.setPlaylist u) else none
  | .arrive destination passHeaders hasRange playlistUrl =>
    some { s with calls := s.calls ++ [⟨destination, passHeaders, hasRange, playlistUrl, .arrived⟩] }
  | .notify k =>
    match s.calls[k]? with
    | some c =>
      if c.phase = .arrived then
        match c.playlistUrl with
        | some u =>
          ((s.playlists u).step config (.request k c.destination)).map fun b =>
            (s.setPlaylist u b).setPhase k c .notifying
        | none => some (s.setPhase k c .notified)
      else none
    | none => none
  | .proceed k =>
    match s.calls[k]? with
    | some c =>
      if c.phase = .notifying ∧ ∃ u ∈ c.playlistUrl, (s.playlists u).requests k = some .done then
        some (s.setPhase k c .notified)
      else none
    | none => none
  | .look k =>
    match s.calls[k]? with
    | some c =>
      if c.phase = .notified then
        if c.hasRange then some (s.setPhase k c .upstream)
        else
          match s.cachedSegment c.destination c.passHeaders with
          | some e => some (s.setPhase k c (.cached s.now e))
          | none => some (s.setPhase k c .upstream)
      else none
    | none => none
  | .take u p =>
    ((s.playlists u).step config (.take p)).map fun b =>
      (s.setPlaylist u b).setBatch u p
        (match b.workers p with
        | .fetching urls headers => some ⟨headers, .looking urls []⟩
        | _ => none)
  | .examine u p =>
    match s.batches (u, p) with
    | some ⟨headers, .looking urls fetches⟩ =>
      some (s.setBatch u p (some ⟨headers, s.examined headers urls fetches⟩))
    | _ => none
  | .answer u p n a =>
    match s.batches (u, p) with
    | some ⟨headers, .joining fetches⟩ =>
      match fetches[n]? with
      | some f =>
        if f.result = none then
          some ((s.addAnswer ⟨f.url, headers, a, s.now⟩).setBatch u p
            (some ⟨headers,
              .joining (fetches.set n { f with result := some (fetchSegment f.cacheKey a) })⟩))
        else none
      | none => none
    | _ => none
  | .collect u p =>
    match s.batches (u, p) with
    | some ⟨headers, .joining fetches⟩ =>
      if fetches.all (·.result.isSome) then
        some (s.setBatch u p (some ⟨headers, .storing (fetches.filterMap (·.result.join))⟩))
      else none
    | _ => none
  | .keep u p =>
    match s.batches (u, p) with
    | some ⟨headers, .storing ((key, bytes) :: found)⟩ =>
      some ({ s with cache := s.cache.set s.now key bytes }.setBatch u p
        (some ⟨headers, .storing found⟩))
    | _ => none
  | .again u p =>
    match s.batches (u, p) with
    | some ⟨_, .storing []⟩ =>
      ((s.playlists u).step config (.again p)).map fun b => (s.setPlaylist u b).setBatch u p none
    | _ => none
  | .drop key => some { s with cache := s.cache.remove key }

end SegmentPool

/-- The pre-buffer and the segment handler, from the start of the server on. -/
def segmentMachine (config : PrebufferConfig) : Machine SegmentPool SegmentEvent :=
  ⟨⟨0, fun _ => .new, fun _ => none, .new config.segmentCacheTtl, [], [], []⟩,
    fun s e => s.step config e⟩

end MediaFlow
