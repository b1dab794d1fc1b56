import Mathlib.Logic.Function.Basic
import MediaFlow.Lib.Runs
import MediaFlow.Lib.Text

/-!
# DASH segment pre-buffer

`mpd/prebuffer.rs`: the map from playlist URLs to prefetchers, and the worker of each. Unlike the
pre-buffer of HLS, `register_playlist` makes a new prefetcher with a new worker each time, and puts it
in the place of the one that the map has. A worker whose prefetcher is stale removes the entry of its
URL, whichever prefetcher that has by then (`removesOwnEntry_fails`). `removesOwnEntry`: in runs in
which no worker leaves while a later prefetcher of its URL is in use, each removes its own entry.

Each step of the machine is one visit to the map, to the queue or to the time of the last request of a
prefetcher. A prefetcher is named by the call that made it. What the workers fetch is not part of the
machine.
-/

open Text

namespace MediaFlow

namespace DashPrebuffer

/-- `PlaylistPrefetcher`. -/
structure DashPrefetcher where
  segmentUrls : List Str
  headers : List (Str × Str)
  lastRequest : ℕ

namespace DashPrefetcher

def new (urls : List Str) (headers : List (Str × Str)) (now : ℕ) : DashPrefetcher :=
  ⟨urls, headers, now⟩

variable (p : DashPrefetcher)

def touch (now : ℕ) : DashPrefetcher := { p with lastRequest := now }

def popNext : Option Str × DashPrefetcher :=
  (p.segmentUrls.head?, { p with segmentUrls := p.segmentUrls.tail })

end DashPrefetcher

/-- `is_stale`, once the time of the last request is read. -/
def isStale (last now timeoutSecs : ℕ) : Bool := now - last > fromSecs timeoutSecs

/-- Where the worker of a prefetcher is, which works for one URL. -/
inductive DashWorker
  /-- The prefetcher is not made. -/
  | absent
  /-- The prefetcher is in the map. -/
  | inserted
  | looping
  /-- `is_stale` has read the time of the last request. -/
  | read (last : ℕ)
  | popping
  /-- Looks for the segment in the cache, or fetches it; or sleeps, without one. -/
  | fetching (url : Option Str)
  /-- Stale; about to remove the entry. -/
  | leaving
  /-- `removed` is the prefetcher that the entry had. -/
  | exited (removed : Option ℕ)
deriving DecidableEq

/-- Where a call of `on_segment_request` is. -/
inductive TouchRequest
  | idle
  | found (p : ℕ)
  | done
deriving DecidableEq

end DashPrebuffer

open DashPrebuffer

structure DashPrebuffer where
  now : ℕ
  /-- The map. -/
  entries : Str → Option ℕ
  prefetchers : ℕ → DashPrefetcher
  /-- The URL that a prefetcher was registered for. -/
  keys : ℕ → Str
  workers : ℕ → DashWorker
  requests : ℕ → TouchRequest
  /-- The prefetcher that was registered last for a URL. -/
  latest : Str → Option ℕ

inductive DashEvent
  | elapse (d : ℕ)
  /-- `register_playlist` inserts the prefetcher that it has made, and then spawns its worker. -/
  | insert (p : ℕ) (playlistUrl : Str) (urls : List Str) (headers : List (Str × Str))
  | spawn (p : ℕ)
  /-- `on_segment_request` looks into the map, and spawns the task that sets the time. -/
  | request (j : ℕ) (playlistUrl : Str)
  | touch (j : ℕ)
  /-- The worker of `p`: `is_stale` in its two halves, `pop_next`, the end of the fetch or the sleep,
  and the removal of the entry. -/
  | check (p : ℕ)
  | judge (p : ℕ)
  | pop (p : ℕ)
  | again (p : ℕ)
  | remove (p : ℕ)

namespace DashPrebuffer

open Function (update)

def new : DashPrebuffer where
  now := 0
  entries _ := none
  prefetchers _ := .new [] [] 0
  keys _ := []
  workers _ := .absent
  requests _ := .idle
  latest _ := none

variable (s : DashPrebuffer)

def setWorker (p : ℕ) (w : DashWorker) : DashPrebuffer :=
  { s with workers := update s.workers p w }

def setRequest (j : ℕ) (r : TouchRequest) : DashPrebuffer :=
  { s with requests := update s.requests j r }

def setPrefetcher (p : ℕ) (q : DashPrefetcher) : DashPrebuffer :=
  { s with prefetchers := update s.prefetchers p q }

/-- What an event does, `none` where it cannot happen now. -/
def step (timeoutSecs : ℕ) : DashEvent → Option DashPrebuffer
  | .elapse d => some { s with now := s.now + d }
  | .insert p url urls headers =>
    if s.workers p = .absent then
      some { (s.setPrefetcher p (.new urls headers s.now)).setWorker p .inserted with
        keys := update s.keys p url
        entries := update s.entries url (some p)
        latest := update s.latest url (some p) }
    else none
  | .spawn p => if s.workers p = .inserted then some (s.setWorker p .looping) else none
  | .request j url =>
    if s.requests j = .idle then
      match s.entries url with
      | some p => some (s.setRequest j (.found p))
      | none => some (s.setRequest j .done)
    else none
  | .touch j =>
    match s.requests j with
    | .found p => some ((s.setPrefetcher p ((s.prefetchers p).touch s.now)).setRequest j .done)
    | _ => none
  | .check p =>
    match s.workers p with
    | .looping => some (s.setWorker p (.read (s.prefetchers p).lastRequest))
    | _ => none
  | .judge p =>
    match s.workers p with
    | .read last => some (s.setWorker p (if isStale last s.now timeoutSecs then .leaving else .popping))
    | _ => none
  | .pop p =>
    match s.workers p with
    | .popping =>
      let (url, q) := (s.prefetchers p).popNext
      some ((s.setPrefetcher p q).setWorker p (.fetching url))
    | _ => none
  | .again p =>
    match s.workers p with
    | .fetching _ => some (s.setWorker p .looping)
    | _ => none
  | .remove p =>
    match s.workers p with
    | .leaving =>
      some { s.setWorker p (.exited (s.entries (s.keys p))) with
        entries := update s.entries (s.keys p) none }
    | _ => none

end DashPrebuffer

/-- The pre-buffer, from the start of the server on. -/
def dashPrebufferMachine (timeoutSecs : ℕ) : Machine DashPrebuffer DashEvent :=
  ⟨.new, fun s e => s.step timeoutSecs e⟩

/-! ### What is to hold -/

namespace DashPrebuffer

/-- The worker has removed its entry. -/
def DashWorker.hasExited : DashWorker → Bool
  | exited _ => true
  | _ => false

variable (s : DashPrebuffer)

/-- What a worker has removed was its own; and the last registration of a URL is in the map until its
own worker has exited. -/
structure KeepsEntries : Prop where
  own : ∀ p q, s.workers p = .exited (some q) → q = p
  kept : ∀ url p, s.latest url = some p → (s.workers p).hasExited = false → s.entries url = some p

/-- **The condition on steps.** When a worker removes the entry of its URL, the URL was not registered
again since, or the worker of the last registration has exited, too. -/
def Orderly : DashEvent → Prop
  | .remove p => ∀ q, s.latest (s.keys p) = some q → q ≠ p → (s.workers q).hasExited
  | _ => True

end DashPrebuffer

/-- In every run whose steps all meet `ok`, every state keeps the entries. -/
def RemovesOwnEntry (timeoutSecs : ℕ) (ok : DashPrebuffer → DashEvent → Prop) : Prop :=
  ∀ s, (dashPrebufferMachine timeoutSecs).Reaches ok s → s.KeepsEntries

/-! ### The invariant -/

namespace DashPrebuffer

open Function (update)

variable {s s' : DashPrebuffer}

/-- The invariant of orderly runs. -/
structure Registered (s : DashPrebuffer) : Prop where
  /-- The map has nothing but last registrations, whose workers are there. -/
  entry : ∀ url p, s.entries url = some p →
    s.latest url = some p ∧ (s.workers p).hasExited = false
  made : ∀ url p, s.latest url = some p → s.keys p = url ∧ s.workers p ≠ .absent
  holds : s.KeepsEntries

theorem registered_new : Registered .new where
  entry _ _ h := nomatch h
  made _ _ h := nomatch h
  holds := {
    own := fun _ _ h => nomatch h
    kept := fun _ _ h => nomatch h }

/-- A worker that has not exited goes on. -/
theorem Registered.setWorker (h : s.Registered) {p : ℕ} {w : DashWorker}
    (hp : (s.workers p).hasExited = false) (hw : w.hasExited = false) (hmade : w ≠ .absent) :
    (s.setWorker p w).Registered := by
  have hexited (k : ℕ) : (update s.workers p w k).hasExited = (s.workers k).hasExited := by
    by_cases hk : k = p
    · rw [hk, Function.update_self, hw, hp]
    · rw [Function.update_of_ne hk]
  refine ⟨?_, ?_, ?_, ?_⟩
  · intro url k hk
    change s.latest url = some k ∧ (update s.workers p w k).hasExited = false
    rw [hexited]
    exact h.entry url k hk
  · intro url k hk
    obtain ⟨hkey, hpresent⟩ := h.made url k hk
    refine ⟨hkey, ?_⟩
    change update s.workers p w k ≠ .absent
    by_cases hkp : k = p
    · rwa [hkp, Function.update_self]
    · rwa [Function.update_of_ne hkp]
  · intro k q hk
    change update s.workers p w k = .exited (some q) at hk
    by_cases hkp : k = p
    · rw [hkp, Function.update_self] at hk
      rw [hk] at hw
      cases hw
    · rw [Function.update_of_ne hkp] at hk
      exact h.holds.own k q hk
  · intro url k hk hstays
    change (update s.workers p w k).hasExited = false at hstays
    rw [hexited] at hstays
    exact h.holds.kept url k hk hstays

/-- The times, the queues and the requests are nobody's concern here. -/
theorem Registered.frame (h : s.Registered) (now : ℕ) (prefetchers : ℕ → DashPrefetcher)
    (requests : ℕ → TouchRequest) : Registered { s with now, prefetchers, requests } :=
  ⟨h.entry, h.made, ⟨h.holds.own, h.holds.kept⟩⟩

/-- A new prefetcher takes the place of the one that the map has. -/
theorem Registered.insert (h : s.Registered) {p : ℕ} (hp : s.workers p = .absent) (url : Str) :
    Registered { s.setWorker p .inserted with
      keys := update s.keys p url
      entries := update s.entries url (some p)
      latest := update s.latest url (some p) } := by
  -- the name is new
  have hnew {u : Str} {k : ℕ} (hk : s.latest u = some k) : k ≠ p := by
    rintro rfl
    exact (h.made u k hk).2 hp
  have hcases {f : Str → Option ℕ} {u : Str} {k : ℕ} (hk : update f url (some p) u = some k) :
      (u = url ∧ k = p) ∨ (u ≠ url ∧ f u = some k) := by
    by_cases hu : u = url
    · rw [hu, Function.update_self] at hk
      exact .inl ⟨hu, (Option.some.inj hk).symm⟩
    · rw [Function.update_of_ne hu] at hk
      exact .inr ⟨hu, hk⟩
  refine ⟨?_, ?_, ?_, ?_⟩
  · intro u k hk
    change update s.latest url (some p) u = some k ∧ (update s.workers p .inserted k).hasExited = false
    obtain ⟨rfl, rfl⟩ | ⟨hu, hk⟩ := hcases hk
    · rw [Function.update_self, Function.update_self]
      exact ⟨rfl, rfl⟩
    · obtain ⟨hlatest, hstays⟩ := h.entry u k hk
      rw [Function.update_of_ne hu, Function.update_of_ne (hnew hlatest)]
      exact ⟨hlatest, hstays⟩
  · intro u k hk
    change update s.keys p url k = u ∧ update s.workers p .inserted k ≠ .absent
    obtain ⟨rfl, rfl⟩ | ⟨-, hk⟩ := hcases hk
    · rw [Function.update_self, Function.update_self]
      exact ⟨rfl, nofun⟩
    · rw [Function.update_of_ne (hnew hk), Function.update_of_ne (hnew hk)]
      exact h.made u k hk
  · intro k q hk
    change update s.workers p .inserted k = .exited (some q) at hk
    by_cases hkp : k = p
    · rw [hkp, Function.update_self] at hk
      cases hk
    · rw [Function.update_of_ne hkp] at hk
      exact h.holds.own k q hk
  · intro u k hk hstays
    change update s.entries url (some p) u = some k
    change (update s.workers p .inserted k).hasExited = false at hstays
    obtain ⟨rfl, rfl⟩ | ⟨hu, hk⟩ := hcases hk
    · rw [Function.update_self]
    · rw [Function.update_of_ne (hnew hk)] at hstays
      rw [Function.update_of_ne hu]
      exact h.holds.kept u k hk hstays

/-- A worker removes the entry of its URL. -/
theorem Registered.remove (h : s.Registered) {p : ℕ}
    (hok : ∀ q, s.latest (s.keys p) = some q → q ≠ p → (s.workers q).hasExited) :
    Registered { s.setWorker p (.exited (s.entries (s.keys p))) with
      entries := update s.entries (s.keys p) none } := by
  have hother {k : ℕ} (hk : k ≠ p) :
      update s.workers p (.exited (s.entries (s.keys p))) k = s.workers k :=
    Function.update_of_ne hk _ _
  refine ⟨?_, ?_, ?_, ?_⟩
  · intro u k hk
    change update s.entries (s.keys p) none u = some k at hk
    by_cases hu : u = s.keys p
    · rw [hu, Function.update_self] at hk
      cases hk
    · rw [Function.update_of_ne hu] at hk
      obtain ⟨hlatest, hstays⟩ := h.entry u k hk
      have hkp : k ≠ p := by
        rintro rfl
        exact hu (h.made u k hlatest).1.symm
      change s.latest u = some k ∧ (update s.workers p _ k).hasExited = false
      rw [hother hkp]
      exact ⟨hlatest, hstays⟩
  · intro u k hk
    obtain ⟨hkey, hpresent⟩ := h.made u k hk
    refine ⟨hkey, ?_⟩
    change update s.workers p _ k ≠ .absent
    by_cases hkp : k = p
    · rw [hkp, Function.update_self]
      exact nofun
    · rwa [hother hkp]
  · intro k q hk
    change update s.workers p _ k = .exited (some q) at hk
    by_cases hkp : k = p
    · rw [hkp, Function.update_self] at hk
      -- what the map has is the last registration, and its worker has not exited
      obtain ⟨hlatest, hstays⟩ := h.entry _ q (DashWorker.exited.inj hk)
      rw [hkp]
      by_contra hqp
      exact absurd (hok q hlatest hqp) (Bool.eq_false_iff.mp hstays)
    · rw [hother hkp] at hk
      exact h.holds.own k q hk
  · intro u k hk hstays
    change (update s.workers p _ k).hasExited = false at hstays
    change update s.entries (s.keys p) none u = some k
    have hkp : k ≠ p := by
      rintro rfl
      rw [Function.update_self] at hstays
      cases hstays
    rw [hother hkp] at hstays
    have hu : u ≠ s.keys p := by
      rintro rfl
      exact absurd (hok k hk hkp) (Bool.eq_false_iff.mp hstays)
    rw [Function.update_of_ne hu]
    exact h.holds.kept u k hk hstays

/-- One orderly step. -/
theorem Registered.step {timeoutSecs : ℕ} {e : DashEvent} (h : s.Registered) (hok : s.Orderly e)
    (hstep : s.step timeoutSecs e = some s') : s'.Registered := by
  cases e with
  | elapse d =>
    cases hstep
    exact h.frame _ _ _
  | insert p url urls headers =>
    simp only [DashPrebuffer.step] at hstep
    split at hstep
    · next hp =>
      cases hstep
      exact (h.insert hp url).frame _ _ _
    · cases hstep
  | spawn p =>
    simp only [DashPrebuffer.step] at hstep
    split at hstep
    · next hp =>
      cases hstep
      exact h.setWorker (by rw [hp]; rfl) rfl nofun
    · cases hstep
  | request j url =>
    simp only [DashPrebuffer.step] at hstep
    split at hstep
    · split at hstep <;> cases hstep
      · exact h.frame _ _ _
      · exact h.frame _ _ _
    · cases hstep
  | touch j =>
    simp only [DashPrebuffer.step] at hstep
    split at hstep
    · cases hstep
      exact h.frame _ _ _
    · cases hstep
  | check p =>
    simp only [DashPrebuffer.step] at hstep
    split at hstep
    · next hp =>
      cases hstep
      exact h.setWorker (by rw [hp]; rfl) rfl nofun
    · cases hstep
  | judge p =>
    simp only [DashPrebuffer.step] at hstep
    split at hstep
    · next last hp =>
      cases hstep
      refine h.setWorker (by rw [hp]; rfl) ?_ ?_ <;> split <;> first | rfl | exact nofun
    · cases hstep
  | pop p =>
    simp only [DashPrebuffer.step] at hstep
    split at hstep
    · next hp =>
      cases hstep
      refine (h.frame s.now _ s.requests).setWorker ?_ rfl nofun
      change (s.workers p).hasExited = false
      rw [hp]
      rfl
    · cases hstep
  | again p =>
    simp only [DashPrebuffer.step] at hstep
    split at hstep
    · next hp =>
      cases hstep
      exact h.setWorker (by rw [hp]; rfl) rfl nofun
    · cases hstep
  | remove p =>
    simp only [DashPrebuffer.step] at hstep
    split at hstep
    · cases hstep
      exact h.remove hok
    · cases hstep

end DashPrebuffer

/-- **A worker removes its own entry** in an orderly run. -/
theorem removesOwnEntry (timeoutSecs : ℕ) :
    RemovesOwnEntry timeoutSecs DashPrebuffer.Orderly := by
  intro s hs
  have h : s.Registered := hs.invariant DashPrebuffer.registered_new
    fun _ _ _ ih hok hstep => DashPrebuffer.Registered.step ih hok hstep
  exact h.holds

/-- A playlist is registered twice, and its segments are requested. Requests keep the second
prefetcher awake, so the first gets stale. -/
def registeredTwice : List DashEvent :=
  [.insert 0 "m".toList [] [], .spawn 0, .insert 1 "m".toList [] [], .spawn 1,
    .elapse (fromSecs 61), .request 0 "m".toList, .touch 0, .check 0, .judge 0, .remove 0]

theorem registeredTwice_removed :
    ((dashPrebufferMachine 60).run registeredTwice).map (fun s => (s.workers 0, s.workers 1)) =
      some (.exited (some 1), .looping) := by
  decide +kernel

theorem removesOwnEntry_fails : ¬ RemovesOwnEntry 60 Machine.Anyhow := by
  intro h
  have hrun := registeredTwice_removed
  cases hs : (dashPrebufferMachine 60).run registeredTwice with
  | none =>
    rw [hs] at hrun
    cases hrun
  | some s =>
    rw [hs] at hrun
    have hworker := (Prod.mk.inj (Option.some.inj hrun)).1
    have hown := (h s (Machine.reaches_run hs)).own 0 1 hworker
    cases hown

end MediaFlow
