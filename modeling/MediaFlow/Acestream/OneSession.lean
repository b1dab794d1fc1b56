import MediaFlow.Acestream.Handler

/-!
# One session for an infohash

`get_or_create` looks for a session, calls the engine and stores the session that it starts. What it
returns is the only live session for the infohash (`oneSession`) in a run whose requests for the
infohash come to one worker, look for a session only when no other one is being started, and do not
come while a session that its last client has left waits for its stop. Two first requests at a time
start two sessions (`oneSession_fails`).
-/

open Text

namespace MediaFlow

/-- The session that `get_or_create` has returned. -/
def AcestreamRequest.session (r : AcestreamRequest) : Option AcestreamSession :=
  match r.phase with
  | .got s | .opening s _ | .streaming s _ => some s
  | _ => none

/-- `get_or_create` has called the engine. -/
def AcestreamRequest.waits (r : AcestreamRequest) : Bool :=
  match r.phase with
  | .creating _ => true
  | _ => false

/-- A session that was created, and is neither invalidated, stale nor stopped. -/
def LedgerEntry.Alive (entry : LedgerEntry) (now : ℕ) : Prop :=
  entry.fate ≠ .invalidated ∧ entry.fate ≠ .stopped ∧
    entry.session.isStale now (fromSecs 300) = false

namespace AcestreamWorker

/-- In a step from `w` to `w'`, `get_or_create` returns `t` to the request `i`. -/
def Gets (w w' : AcestreamWorker) (i : ℕ) (infohash : Str) (t : AcestreamSession) : Prop :=
  ∃ r r', w.requests[i]? = some r ∧ w'.requests[i]? = some r' ∧ r.infohash = infohash ∧
    r.session = none ∧ r'.session = some t

/-- Some request of the worker is for `infohash`. -/
def Serves (w : AcestreamWorker) (infohash : Str) : Prop := ∃ r ∈ w.requests, r.infohash = infohash

/-- The number of calls to the engine for `infohash` that have no answer yet. -/
def pending (w : AcestreamWorker) (infohash : Str) : ℕ :=
  w.requests.countP fun r => r.infohash = infohash && r.waits

/-- A request looks for a session: no other one is being started, and one that its last client has
left was stopped or is stale. -/
def LooksAlone (w : AcestreamWorker) (now : ℕ) (infohash : Str) : Prop :=
  w.pending infohash = 0 ∧
    ∀ c entry, w.ledger c = some entry → entry.infohash = infohash → entry.fate = .released →
      entry.session.isStale now (fromSecs 300)

end AcestreamWorker

/-- **The condition on steps**, for one infohash: its requests come to one worker, and look for a
session alone. -/
def LooksInTurn (infohash : Str) (s : AcestreamServer) : ServerEvent → Prop
  | .at n (.arrive _ _ h _) => h = infohash → ∀ k, (s.workers k).Serves infohash → k = n
  | .at n (.lookup i _) => ∀ r, (s.workers n).requests[i]? = some r → r.infohash = infohash →
      (s.workers n).LooksAlone s.now infohash
  | _ => True

/-- In every run whose steps meet `ok`: whenever `get_or_create` returns a session `t` for
`infohash`, no other session of any worker for `infohash` is alive, so a request that has a live
session has the process id and the playback URL of `t`. -/
def OneSession (config : AcestreamConfig) (infohash : Str)
    (ok : AcestreamServer → ServerEvent → Prop) : Prop :=
  ∀ s, (acestreamServer config).Reaches ok s → ∀ n e s', ok s (.at n e) →
    (acestreamServer config).step s (.at n e) = some s' →
    ∀ i t, (s.workers n).Gets (s'.workers n) i infohash t →
      (∀ k c entry, (s'.workers k).ledger c = some entry → entry.infohash = infohash →
        entry.Alive s'.now → k = n ∧ c = t.clientCount) ∧
      ∀ k, ∀ r ∈ (s'.workers k).requests, r.infohash = infohash → ∀ u entry, r.session = some u →
        (s'.workers k).ledger u.clientCount = some entry → entry.Alive s'.now →
        u.pid = t.pid ∧ u.playbackUrl = t.playbackUrl

namespace AcestreamWorker

variable {w w' : AcestreamWorker}

/-! ### What a step does to the registry -/

/-- What a step does to the stored sessions, the ledger and the stop tasks. -/
inductive Turn (now : ℕ) (w w' : AcestreamWorker) : Prop
  | keep (hsessions : w'.manager.sessions = w.manager.sessions) (hledger : w'.ledger = w.ledger)
      (hnext : w'.manager.nextCounter = w.manager.nextCounter)
      (htasks : ∀ task ∈ w'.stopTasks, task ∈ w.stopTasks)
  | touch {infohash : Str} {entry : AcestreamSession}
      (hentry : w.manager.sessions infohash = some entry)
      (hlive : entry.isStale now (fromSecs 300) = false)
      (hsessions : w'.manager.sessions =
        Function.update w.manager.sessions infohash (some (entry.touch now)))
      (hledger : w'.ledger = Function.update w.ledger entry.clientCount
        (some ⟨infohash, entry.touch now, .running⟩))
      (hnext : w'.manager.nextCounter = w.manager.nextCounter)
      (htasks : ∀ task ∈ w'.stopTasks, task ∈ w.stopTasks)
  | store {infohash : Str} {t : AcestreamSession} (hcell : t.clientCount = w.manager.nextCounter)
      (hsessions : w'.manager.sessions = Function.update w.manager.sessions infohash (some t))
      (hledger : w'.ledger = Function.update w.ledger w.manager.nextCounter
        (some ⟨infohash, t, .running⟩))
      (hnext : w'.manager.nextCounter = w.manager.nextCounter + 1)
      (htasks : ∀ task ∈ w'.stopTasks, task ∈ w.stopTasks)
      (hpending : w'.pending infohash + 1 = w.pending infohash)
  | drop {infohash : Str} {t : AcestreamSession} (fate : Fate)
      (ht : w.manager.sessions infohash = some t)
      (hfate : fate = .invalidated ∨ fate = .released)
      (hsessions : w'.manager.sessions = Function.update w.manager.sessions infohash none)
      (hledger : w'.ledger = Function.update w.ledger t.clientCount
        ((w.ledger t.clientCount).map ({ · with fate })))
      (hnext : w'.manager.nextCounter = w.manager.nextCounter)
      (htasks : ∀ task ∈ w'.stopTasks, task ∈ w.stopTasks ∨
        (task.infohash = infohash ∧ task.session = t.clientCount))
  | stop {task : StopTask} (htask : task ∈ w.stopTasks)
      (hnone : w.manager.sessions task.infohash = none)
      (hsessions : w'.manager.sessions = w.manager.sessions)
      (hledger : w'.ledger = Function.update w.ledger task.session
        ((w.ledger task.session).map ({ · with fate := .stopped })))
      (hnext : w'.manager.nextCounter = w.manager.nextCounter)
      (htasks : ∀ task ∈ w'.stopTasks, task ∈ w.stopTasks)

/-- The request `i` changes from `r` to `r'`, and others stay. -/
theorem pending_set {i : ℕ} {r r' : AcestreamRequest} (hi : w.requests[i]? = some r)
    (hreq : w'.requests = w.requests.set i r') (infohash : Str) :
    w'.pending infohash + (if r.infohash = infohash && r.waits then 1 else 0) =
      w.pending infohash + if r'.infohash = infohash && r'.waits then 1 else 0 := by
  unfold pending
  rw [hreq]
  exact List.countP_set_add hi r'

/-- The call of request `i` is answered. -/
theorem pending_answered {i : ℕ} {r r' : AcestreamRequest} (hi : w.requests[i]? = some r)
    (hreq : w'.requests = w.requests.set i r') (hr : r.waits = true) (hr' : r'.waits = false) :
    w'.pending r.infohash + 1 = w.pending r.infohash := by
  have := pending_set hi hreq r.infohash
  simpa [hr, hr'] using this

theorem turn_goTo (now i : ℕ) (r : AcestreamRequest) (phase : Phase) :
    Turn now w (w.goTo i r phase) := .keep rfl rfl rfl fun _ h => h

theorem turn_release (now time i : ℕ) (r : AcestreamRequest) (infohash : Str) (phase : Phase) :
    Turn now w ((w.release time infohash).goTo i r phase) := by
  unfold release
  split
  · next manager t hrelease =>
    unfold AcestreamSessionManager.releaseClient at hrelease
    split at hrelease
    · cases hrelease
    · next s hs =>
      dsimp only at hrelease
      split at hrelease
      · cases hrelease
      split at hrelease
      · cases hrelease
      cases hrelease
      refine .drop .released hs (.inr rfl) rfl rfl rfl fun task ht => ?_
      rcases List.mem_append.mp ht with ht | ht
      · exact .inl ht
      · rw [List.mem_singleton.mp ht]
        exact .inr ⟨rfl, rfl⟩
  · next manager hrelease =>
    unfold AcestreamSessionManager.releaseClient at hrelease
    split at hrelease
    · cases hrelease
      exact .keep rfl rfl rfl fun _ h => h
    · next s hs =>
      -- the counter changes, and the sessions stay
      dsimp only at hrelease
      split_ifs at hrelease <;> cases hrelease <;> exact .keep rfl rfl rfl fun _ h => h

theorem turn_of_does {config : AcestreamConfig} {now : ℕ} {e : AcestreamEvent}
    (h : Does config now w e w') : Turn now w w' := by
  cases h with
  | arrive handler isHead infohash contentId => exact .keep rfl rfl rfl fun _ h => h
  | @lookup i r pid hi hr =>
    unfold lookup
    split
    · next s m' hcached =>
      obtain ⟨entry, hentry, hlive, rfl, rfl⟩ := AcestreamSessionManager.cached_eq_some hcached
      exact .touch hentry hlive rfl rfl rfl fun _ h => h
    · exact turn_goTo _ _ _ _
  | @reply i r pid reply hi hr =>
    unfold receive
    split
    · next s m' hcreate =>
      obtain ⟨-, hs, -, rfl⟩ := AcestreamSessionManager.create_eq_ok hcreate
      refine .store hs rfl ?_ rfl (fun _ h => h) ?_
      · show Function.update w.ledger s.clientCount _ = _
        rw [hs]
      · exact pending_answered hi rfl (by rw [AcestreamRequest.waits, hr]) rfl
    · exact turn_goTo _ _ _ _
  | @connect i r s hi hhandler hr =>
    unfold connect
    split
    · exact turn_goTo _ _ _ _
    · split
      · exact turn_goTo _ _ _ _
      · have hinc : (w.manager.incrementClient r.infohash).sessions = w.manager.sessions ∧
            (w.manager.incrementClient r.infohash).nextCounter = w.manager.nextCounter := by
          unfold AcestreamSessionManager.incrementClient
          split <;> exact ⟨rfl, rfl⟩
        exact .keep hinc.1 rfl hinc.2 fun _ h => h
  | @fetched i r s forbidden hi hhandler hr =>
    unfold AcestreamWorker.fetched
    split
    · exact turn_goTo _ _ _ _
    · split
      · unfold invalidate
        split
        · next s hs =>
          exact .drop .invalidated hs (.inl rfl) rfl rfl rfl fun _ h => .inl h
        · next hnone =>
          refine .keep ?_ rfl rfl fun _ h => h
          show Function.update w.manager.sessions r.infohash none = _
          rw [← hnone, Function.update_eq_self]
      · exact turn_goTo _ _ _ _
  | opens hi hr => exact turn_goTo _ _ _ _
  | fails hi hr => exact turn_release _ _ _ _ _ _
  | disconnect hi hr => exact turn_release _ _ _ _ _ _
  | abandon hi hr => exact turn_goTo _ _ _ _
  | @graceOver k t hk hdue =>
    have herase : ∀ task ∈ w.stopTasks.eraseIdx k, task ∈ w.stopTasks :=
      fun _ h => List.mem_of_mem_eraseIdx h
    unfold runStop
    split
    · next hstops =>
      have hnone : w.manager.sessions t.infohash = none := by
        unfold stops at hstops
        split at hstops
        · cases hstops
        · next hs => exact Option.not_isSome_iff_eq_none.mp hs
      exact .stop (List.mem_of_getElem? hk) hnone rfl rfl rfl herase
    · exact .keep rfl rfl rfl herase

/-! ### What a step does to the requests -/

/-- What a step with event `e` does to the requests. -/
inductive Change (now : ℕ) (w : AcestreamWorker) (e : AcestreamEvent) (w' : AcestreamWorker) : Prop
  | arrive {handler : AcestreamHandler} {isHead : Bool} {infohash : Str} {contentId : Option Str}
      (he : e = .arrive handler isHead infohash contentId)
      (hreq : w'.requests = w.requests ++ [⟨handler, isHead, infohash, contentId, false, .looking⟩])
  | keep (hreq : w'.requests = w.requests)
  | goes {i : ℕ} {r r' : AcestreamRequest} (hi : w.requests[i]? = some r)
      (hreq : w'.requests = w.requests.set i r') (hinfohash : r'.infohash = r.infohash)
      (hsession : r'.session = none ∨ r'.session = r.session) (hwaits : r'.waits = false)
  | calls {i : ℕ} {r r' : AcestreamRequest} {pid : Str} (hi : w.requests[i]? = some r)
      (hreq : w'.requests = w.requests.set i r') (hinfohash : r'.infohash = r.infohash)
      (hsession : r'.session = none) (he : e = .lookup i pid)
      (hmiss : w.manager.cached now r.infohash = none)
  | gets {i : ℕ} {r r' : AcestreamRequest} {t : AcestreamSession} (hi : w.requests[i]? = some r)
      (hreq : w'.requests = w.requests.set i r') (hinfohash : r'.infohash = r.infohash)
      (hsession : r'.session = some t) (hwaits : r'.waits = false)
      (hstored : w'.manager.sessions r.infohash = some t)
      (he : (∃ pid, e = .lookup i pid) ∨ r.waits = true)

theorem release_requests (now : ℕ) (infohash : Str) :
    (w.release now infohash).requests = w.requests := by
  unfold release
  split <;> rfl

theorem change_of_does {config : AcestreamConfig} {now : ℕ} {e : AcestreamEvent}
    (h : Does config now w e w') : Change now w e w' := by
  cases h with
  | arrive handler isHead infohash contentId => exact .arrive rfl rfl
  | @lookup i r pid hi hr =>
    unfold lookup
    split
    · next s m' hcached =>
      obtain ⟨entry, hentry, hlive, rfl, rfl⟩ := AcestreamSessionManager.cached_eq_some hcached
      exact .gets hi rfl rfl rfl rfl (Function.update_self ..) (.inl ⟨pid, rfl⟩)
    · next hmiss => exact .calls hi rfl rfl rfl rfl hmiss
  | @reply i r pid reply hi hr =>
    unfold receive
    split
    · next s m' hcreate =>
      obtain ⟨-, -, -, rfl⟩ := AcestreamSessionManager.create_eq_ok hcreate
      refine .gets hi rfl rfl rfl rfl (Function.update_self ..) (.inr ?_)
      rw [AcestreamRequest.waits, hr]
    · exact .goes hi rfl rfl (.inl rfl) rfl
  | @connect i r s hi hhandler hr =>
    unfold connect
    split
    · exact .goes hi rfl rfl (.inl rfl) rfl
    · split
      · exact .goes hi rfl rfl (.inl rfl) rfl
      · refine .goes hi rfl rfl (.inr ?_) rfl
        rw [AcestreamRequest.session, AcestreamRequest.session, hr]
  | @fetched i r s forbidden hi hhandler hr =>
    unfold AcestreamWorker.fetched
    split
    · exact .goes hi rfl rfl (.inl rfl) rfl
    · split
      · have hreq := w.invalidate_requests r.infohash
        exact .goes hi (congrArg (List.set · i _) hreq) rfl (.inl rfl) rfl
      · exact .goes hi rfl rfl (.inl rfl) rfl
  | @opens i r s c hi hr =>
    refine .goes hi rfl rfl (.inr ?_) rfl
    rw [AcestreamRequest.session, AcestreamRequest.session, hr]
  | @fails i r s c hi hr =>
    exact .goes hi (congrArg (List.set · i _) (release_requests now r.infohash)) rfl (.inl rfl) rfl
  | @disconnect i r s c hi hr =>
    exact .goes hi (congrArg (List.set · i _) (release_requests now r.infohash)) rfl (.inl rfl) rfl
  | abandon hi hr => exact .goes hi rfl rfl (.inl rfl) rfl
  | graceOver hk hdue => exact .keep (w.runStop_requests _ _)

/-! ### The ledger and the registry -/

/-- The invariant of every run: the ledger knows the stored sessions, and those that requests have. -/
structure Recorded (w : AcestreamWorker) : Prop where
  stored : ∀ h t, w.manager.sessions h = some t → w.ledger t.clientCount = some ⟨h, t, .running⟩
  fresh : ∀ c entry, w.ledger c = some entry → c < w.manager.nextCounter
  tasks : ∀ task ∈ w.stopTasks, ∃ entry, w.ledger task.session = some entry ∧
    entry.infohash = task.infohash
  requests : ∀ r ∈ w.requests, ∀ s, r.session = some s → ∃ entry, w.ledger s.clientCount = some entry ∧
    entry.infohash = r.infohash ∧ entry.session.pid = s.pid ∧ entry.session.playbackUrl = s.playbackUrl

theorem recorded_new : Recorded .new where
  stored _ _ h := nomatch h
  fresh _ _ h := nomatch h
  tasks _ h := nomatch h
  requests _ h := nomatch h

/-- A session in the ledger stays there, under its infohash and with its URL. -/
theorem Turn.ledger_of_ledger {now : ℕ} (hturn : Turn now w w') (hw : w.Recorded) {c : ℕ}
    {entry : LedgerEntry} (h : w.ledger c = some entry) :
    ∃ entry', w'.ledger c = some entry' ∧ entry'.infohash = entry.infohash ∧
      entry'.session.pid = entry.session.pid ∧
      entry'.session.playbackUrl = entry.session.playbackUrl := by
  have hfate (d : ℕ) (fate : Fate) (hledger : w'.ledger =
      Function.update w.ledger d ((w.ledger d).map ({ · with fate }))) :
      ∃ entry', w'.ledger c = some entry' ∧ entry'.infohash = entry.infohash ∧
        entry'.session.pid = entry.session.pid ∧
        entry'.session.playbackUrl = entry.session.playbackUrl := by
    rw [hledger]
    by_cases hc : c = d
    · refine ⟨{ entry with fate }, ?_, rfl, rfl, rfl⟩
      rw [← hc, Function.update_self, h]
      rfl
    · rw [Function.update_of_ne hc]
      exact ⟨entry, h, rfl, rfl, rfl⟩
  cases hturn with
  | keep _ hledger _ _ => exact ⟨entry, by rw [hledger, h], rfl, rfl, rfl⟩
  | @touch infohash t hentry _ _ hledger _ _ =>
    rw [hledger]
    by_cases hc : c = t.clientCount
    · -- the entry of the session that is touched
      have hstored := hw.stored _ _ hentry
      rw [← hc, h] at hstored
      cases hstored
      refine ⟨⟨infohash, t.touch now, .running⟩, ?_, rfl, rfl, rfl⟩
      rw [hc, Function.update_self]
    · rw [Function.update_of_ne hc]
      exact ⟨entry, h, rfl, rfl, rfl⟩
  | store _ _ hledger _ _ _ =>
    rw [hledger, Function.update_of_ne (hw.fresh _ _ h).ne]
    exact ⟨entry, h, rfl, rfl, rfl⟩
  | drop fate _ _ _ hledger _ _ => exact hfate _ fate hledger
  | stop _ _ _ hledger _ _ => exact hfate _ _ hledger

/-- Two stored sessions have two counters. -/
theorem Recorded.eq_of_clientCount_eq (hw : w.Recorded) {h h' : Str} {t t' : AcestreamSession}
    (ht : w.manager.sessions h = some t) (ht' : w.manager.sessions h' = some t')
    (heq : t.clientCount = t'.clientCount) : h = h' := by
  have h₁ := hw.stored _ _ ht
  rw [heq, hw.stored _ _ ht'] at h₁
  cases h₁
  rfl

theorem Recorded.stored_turn {now : ℕ} (hw : w.Recorded) (hturn : Turn now w w') {h : Str}
    {t : AcestreamSession} (ht : w'.manager.sessions h = some t) :
    w'.ledger t.clientCount = some ⟨h, t, .running⟩ := by
  cases hturn with
  | keep hsessions hledger _ _ =>
    rw [hsessions] at ht
    rw [hledger]
    exact hw.stored h t ht
  | @touch infohash entry hentry _ hsessions hledger _ _ =>
    rw [hsessions] at ht
    rw [hledger]
    by_cases hh : h = infohash
    · rw [hh, Function.update_self] at ht
      cases ht
      rw [hh]
      exact Function.update_self ..
    · rw [Function.update_of_ne hh] at ht
      rw [Function.update_of_ne]
      · exact hw.stored h t ht
      · exact fun heq => hh (hw.eq_of_clientCount_eq ht hentry heq)
  | @store infohash s hcell hsessions hledger _ _ _ =>
    rw [hsessions] at ht
    rw [hledger]
    by_cases hh : h = infohash
    · rw [hh, Function.update_self] at ht
      cases ht
      rw [hcell, hh]
      exact Function.update_self ..
    · rw [Function.update_of_ne hh] at ht
      have hstored := hw.stored h t ht
      rw [Function.update_of_ne (hw.fresh _ _ hstored).ne]
      exact hstored
  | @drop infohash s fate hs _ hsessions hledger _ _ =>
    rw [hsessions] at ht
    rw [hledger]
    by_cases hh : h = infohash
    · rw [hh, Function.update_self] at ht
      cases ht
    · rw [Function.update_of_ne hh] at ht
      rw [Function.update_of_ne]
      · exact hw.stored h t ht
      · exact fun heq => hh (hw.eq_of_clientCount_eq ht hs heq)
  | @stop task htask hnone hsessions hledger _ _ =>
    rw [hsessions] at ht
    rw [hledger]
    have hstored := hw.stored h t ht
    rw [Function.update_of_ne]
    · exact hstored
    · -- the stopped session is one of an infohash without a session
      intro heq
      obtain ⟨entry, hentry, hinfohash⟩ := hw.tasks task htask
      rw [← heq, hstored] at hentry
      cases hentry
      rw [← hinfohash, ht] at hnone
      cases hnone

theorem Recorded.fresh_turn {now : ℕ} (hw : w.Recorded) (hturn : Turn now w w') {c : ℕ}
    {entry : LedgerEntry} (h : w'.ledger c = some entry) : c < w'.manager.nextCounter := by
  have hfate (d : ℕ) (fate : Fate) (hledger : w'.ledger =
      Function.update w.ledger d ((w.ledger d).map ({ · with fate }))) :
      c < w.manager.nextCounter := by
    rw [hledger] at h
    by_cases hc : c = d
    · rw [hc, Function.update_self] at h
      obtain ⟨entry, hentry, -⟩ := Option.map_eq_some_iff.mp h
      rw [hc]
      exact hw.fresh _ _ hentry
    · rw [Function.update_of_ne hc] at h
      exact hw.fresh _ _ h
  cases hturn with
  | keep _ hledger hnext _ =>
    rw [hledger] at h
    rw [hnext]
    exact hw.fresh _ _ h
  | @touch infohash t hentry _ _ hledger hnext _ =>
    rw [hledger] at h
    rw [hnext]
    by_cases hc : c = t.clientCount
    · rw [hc]
      exact hw.fresh _ _ (hw.stored _ _ hentry)
    · rw [Function.update_of_ne hc] at h
      exact hw.fresh _ _ h
  | store _ _ hledger hnext _ _ =>
    rw [hledger] at h
    rw [hnext]
    by_cases hc : c = w.manager.nextCounter
    · exact hc ▸ Nat.lt_succ_self _
    · rw [Function.update_of_ne hc] at h
      exact (hw.fresh _ _ h).trans (Nat.lt_succ_self _)
  | drop fate _ _ _ hledger hnext _ => exact hnext ▸ hfate _ fate hledger
  | stop _ _ _ hledger hnext _ => exact hnext ▸ hfate _ _ hledger

theorem Recorded.tasks_turn {now : ℕ} (hw : w.Recorded) (hturn : Turn now w w') {task : StopTask}
    (h : task ∈ w'.stopTasks) :
    ∃ entry, w'.ledger task.session = some entry ∧ entry.infohash = task.infohash := by
  have hold : task ∈ w.stopTasks →
      ∃ entry, w'.ledger task.session = some entry ∧ entry.infohash = task.infohash := by
    intro hmem
    obtain ⟨entry, hentry, hinfohash⟩ := hw.tasks task hmem
    obtain ⟨entry', hentry', heq, -⟩ := hturn.ledger_of_ledger hw hentry
    exact ⟨entry', hentry', heq.trans hinfohash⟩
  have hturn' := hturn
  cases hturn with
  | keep _ _ _ htasks => exact hold (htasks _ h)
  | touch _ _ _ _ _ htasks => exact hold (htasks _ h)
  | store _ _ _ _ htasks _ => exact hold (htasks _ h)
  | drop fate ht _ _ _ _ htasks =>
    rcases htasks _ h with hmem | ⟨hinfohash, hsession⟩
    · exact hold hmem
    · obtain ⟨entry, hentry, heq, -⟩ := hturn'.ledger_of_ledger hw (hw.stored _ _ ht)
      rw [hsession, hinfohash]
      exact ⟨entry, hentry, heq⟩
  | stop _ _ _ _ _ htasks => exact hold (htasks _ h)

theorem Recorded.requests_turn {now : ℕ} {e : AcestreamEvent} (hw : w.Recorded)
    (hturn : Turn now w w') (hchange : Change now w e w') {r : AcestreamRequest}
    (hr : r ∈ w'.requests) {s : AcestreamSession} (hs : r.session = some s) :
    ∃ entry, w'.ledger s.clientCount = some entry ∧ entry.infohash = r.infohash ∧
      entry.session.pid = s.pid ∧ entry.session.playbackUrl = s.playbackUrl := by
  have hold {q : AcestreamRequest} (hq : q ∈ w.requests) (hqs : q.session = some s) :
      ∃ entry, w'.ledger s.clientCount = some entry ∧ entry.infohash = q.infohash ∧
        entry.session.pid = s.pid ∧ entry.session.playbackUrl = s.playbackUrl := by
    obtain ⟨entry, hentry, h₁, h₂, h₃⟩ := hw.requests q hq s hqs
    obtain ⟨entry', hentry', h₁', h₂', h₃'⟩ := hturn.ledger_of_ledger hw hentry
    exact ⟨entry', hentry', h₁'.trans h₁, h₂'.trans h₂, h₃'.trans h₃⟩
  cases hchange with
  | arrive _ hreq =>
    rw [hreq] at hr
    rcases List.mem_append.mp hr with hr | hr
    · exact hold hr hs
    · rw [List.mem_singleton.mp hr] at hs
      cases hs
  | keep hreq => exact hold (hreq ▸ hr) hs
  | goes hi hreq hinfohash hsession _ =>
    rw [hreq] at hr
    rcases List.mem_or_eq_of_mem_set hr with hr | rfl
    · exact hold hr hs
    · rcases hsession with h | h
      · rw [h] at hs
        cases hs
      · rw [hinfohash]
        exact hold (List.mem_of_getElem? hi) (h ▸ hs)
  | calls _ hreq _ hsession _ _ =>
    rw [hreq] at hr
    rcases List.mem_or_eq_of_mem_set hr with hr | rfl
    · exact hold hr hs
    · rw [hsession] at hs
      cases hs
  | gets _ hreq hinfohash hsession _ hstored _ =>
    rw [hreq] at hr
    rcases List.mem_or_eq_of_mem_set hr with hr | rfl
    · exact hold hr hs
    · -- the session that is returned is the stored one
      rw [hsession] at hs
      cases hs
      exact ⟨_, hw.stored_turn hturn hstored, hinfohash.symm, rfl, rfl⟩

theorem Recorded.step {config : AcestreamConfig} {now : ℕ} {e : AcestreamEvent} (hw : w.Recorded)
    (h : w.step config now e = some w') : w'.Recorded where
  stored _ _ := hw.stored_turn (turn_of_does (does_of_step h))
  fresh _ _ := hw.fresh_turn (turn_of_does (does_of_step h))
  tasks _ := hw.tasks_turn (turn_of_does (does_of_step h))
  requests _ hr _ :=
    hw.requests_turn (turn_of_does (does_of_step h)) (change_of_does (does_of_step h)) hr

/-! ### The live sessions -/

/-- The invariant of orderly runs, for one infohash: a live session is stored or left by its last
client, and while one is being started, none is alive and no other one is being started. -/
structure Known (infohash : Str) (now : ℕ) (w : AcestreamWorker) : Prop where
  known : ∀ c entry, w.ledger c = some entry → entry.infohash = infohash → entry.Alive now →
    (w.manager.sessions infohash).map (·.clientCount) = some c ∨ entry.fate = .released
  pending : 0 < w.pending infohash → ∀ c entry, w.ledger c = some entry →
    entry.infohash = infohash → ¬ entry.Alive now
  onePending : w.pending infohash ≤ 1

theorem known_new (infohash : Str) (now : ℕ) : Known infohash now .new where
  known _ _ h := nomatch h
  pending h := nomatch h
  onePending := Nat.zero_le _

end AcestreamWorker

/-- Time makes sessions stale. -/
theorem LedgerEntry.Alive.of_le {entry : LedgerEntry} {now now' : ℕ} (h : entry.Alive now')
    (hle : now ≤ now') : entry.Alive now := by
  refine ⟨h.1, h.2.1, ?_⟩
  have hstale := h.2.2
  unfold AcestreamSession.isStale at hstale ⊢
  rw [decide_eq_false_iff_not, not_lt] at hstale ⊢
  exact (Nat.sub_le_sub_right hle _).trans hstale

namespace AcestreamWorker

variable {w w' : AcestreamWorker} {infohash : Str} {now : ℕ}

theorem Known.of_le {now' : ℕ} (hw : Known infohash now w) (hle : now ≤ now') :
    Known infohash now' w where
  known c entry h hi ha := hw.known c entry h hi (ha.of_le hle)
  pending hp c entry h hi ha := hw.pending hp c entry h hi (ha.of_le hle)
  onePending := hw.onePending

/-- **No session revives.** A session that is alive after a step was alive before it, or it is the
one that the step stores. -/
theorem Turn.alive (hturn : Turn now w w') (hw : w.Recorded) {c : ℕ} {entry' : LedgerEntry}
    (h : w'.ledger c = some entry') (ha : entry'.Alive now) :
    (∃ entry, w.ledger c = some entry ∧ entry.infohash = entry'.infohash ∧ entry.Alive now ∧
      (entry'.fate = .released ∨ (entry'.fate = entry.fate ∧
        ((w.manager.sessions entry.infohash).map (·.clientCount) = some c →
          (w'.manager.sessions entry.infohash).map (·.clientCount) = some c ∨
            w'.pending entry.infohash + 1 = w.pending entry.infohash)))) ∨
    ((w'.manager.sessions entry'.infohash).map (·.clientCount) = some c ∧
      w'.pending entry'.infohash + 1 = w.pending entry'.infohash) := by
  cases hturn with
  | keep hsessions hledger _ _ =>
    rw [hledger] at h
    rw [hsessions]
    exact .inl ⟨entry', h, rfl, ha, .inr ⟨rfl, .inl⟩⟩
  | @touch h₁ t ht hlive hsessions hledger _ _ =>
    have hsame (h₂ : Str) : (w'.manager.sessions h₂).map (·.clientCount) =
        (w.manager.sessions h₂).map (·.clientCount) := by
      rw [hsessions]
      by_cases hh : h₂ = h₁
      · rw [hh, Function.update_self, ht]
        rfl
      · rw [Function.update_of_ne hh]
    rw [hledger] at h
    by_cases hc : c = t.clientCount
    · -- the session that is touched was alive
      rw [hc, Function.update_self] at h
      cases h
      refine .inl ⟨⟨h₁, t, .running⟩, hc ▸ hw.stored _ _ ht, rfl, ⟨nofun, nofun, hlive⟩, .inr ⟨rfl, ?_⟩⟩
      rw [hsame]
      exact .inl
    · rw [Function.update_of_ne hc] at h
      refine .inl ⟨entry', h, rfl, ha, .inr ⟨rfl, ?_⟩⟩
      rw [hsame]
      exact .inl
  | @store h₁ t hcell hsessions hledger _ _ hpending =>
    rw [hledger] at h
    by_cases hc : c = w.manager.nextCounter
    · rw [hc, Function.update_self] at h
      cases h
      refine .inr ⟨?_, hpending⟩
      rw [hsessions, hc, ← hcell]
      dsimp only
      rw [Function.update_self]
      rfl
    · rw [Function.update_of_ne hc] at h
      refine .inl ⟨entry', h, rfl, ha, .inr ⟨rfl, fun hold => ?_⟩⟩
      by_cases hh : entry'.infohash = h₁
      · rw [hh]
        exact .inr hpending
      · rw [hsessions, Function.update_of_ne hh]
        exact .inl hold
  | @drop h₁ t fate ht hfate hsessions hledger _ _ =>
    rw [hledger] at h
    have hstored := hw.stored _ _ ht
    by_cases hc : c = t.clientCount
    · rw [hc, Function.update_self, hstored] at h
      cases h
      rcases hfate with rfl | rfl
      · exact absurd rfl ha.1
      · exact .inl ⟨⟨h₁, t, .running⟩, hc ▸ hstored, rfl, ⟨nofun, nofun, ha.2.2⟩, .inl rfl⟩
    · rw [Function.update_of_ne hc] at h
      refine .inl ⟨entry', h, rfl, ha, .inr ⟨rfl, fun hold => .inl ?_⟩⟩
      rw [hsessions, Function.update_of_ne]
      · exact hold
      · intro hh
        rw [hh, ht] at hold
        exact hc (Option.some.inj hold).symm
  | @stop task _ _ hsessions hledger _ _ =>
    rw [hledger] at h
    by_cases hc : c = task.session
    · rw [hc, Function.update_self] at h
      obtain ⟨entry, -, rfl⟩ := Option.map_eq_some_iff.mp h
      exact absurd rfl ha.2.1
    · rw [Function.update_of_ne hc] at h
      rw [hsessions]
      exact .inl ⟨entry', h, rfl, ha, .inr ⟨rfl, .inl⟩⟩

/-- A call to the engine is made by a lookup that finds no live session. -/
theorem Change.pending_le {e : AcestreamEvent} (h : Change now w e w') (infohash : Str) :
    w'.pending infohash ≤ w.pending infohash ∨
      ∃ i r pid, e = .lookup i pid ∧ w.requests[i]? = some r ∧ r.infohash = infohash ∧
        w'.pending infohash ≤ w.pending infohash + 1 ∧ w.manager.cached now infohash = none := by
  have hset {i : ℕ} {r r' : AcestreamRequest} (hi : w.requests[i]? = some r)
      (hreq : w'.requests = w.requests.set i r') (hwaits : r'.waits = false) :
      w'.pending infohash ≤ w.pending infohash := by
    have := pending_set hi hreq infohash
    rw [hwaits, Bool.and_false, if_neg Bool.false_ne_true, add_zero] at this
    exact this ▸ Nat.le_add_right _ _
  cases h with
  | arrive _ hreq =>
    refine .inl (le_of_eq ?_)
    unfold pending
    rw [hreq, List.countP_append, List.countP_singleton, if_neg, add_zero]
    simp [AcestreamRequest.waits]
  | keep hreq =>
    refine .inl (le_of_eq ?_)
    unfold pending
    rw [hreq]
  | goes hi hreq _ _ hwaits => exact .inl (hset hi hreq hwaits)
  | gets hi hreq _ _ hwaits _ _ => exact .inl (hset hi hreq hwaits)
  | @calls i r r' pid hi hreq hinfohash _ he hmiss =>
    have := pending_set hi hreq infohash
    by_cases hr : r.infohash = infohash
    · refine .inr ⟨i, r, pid, he, hi, hr, ?_, hr ▸ hmiss⟩
      split_ifs at this <;> omega
    · rw [hinfohash, decide_eq_false hr] at this
      exact .inl (le_of_eq (by simpa using this))

/-- A lookup that finds nothing, alone: no session is alive. -/
theorem Known.not_alive_of_cached (hw : Known infohash now w) (hrec : w.Recorded)
    (halone : w.LooksAlone now infohash) (hmiss : w.manager.cached now infohash = none) {c : ℕ}
    {entry : LedgerEntry} (h : w.ledger c = some entry) (hi : entry.infohash = infohash) :
    ¬ entry.Alive now := by
  intro ha
  have hstale : entry.session.isStale now (fromSecs 300) = true := by
    rcases hw.known c entry h hi ha with hstored | hreleased
    · obtain ⟨t, ht, rfl⟩ := Option.map_eq_some_iff.mp hstored
      have := hrec.stored _ _ ht
      rw [h] at this
      cases this
      exact AcestreamSessionManager.cached_eq_none hmiss ht
    · exact halone.2 c entry h hi hreleased
  rw [ha.2.2] at hstale
  cases hstale

/-- **One step** that looks for a session alone keeps the invariant. -/
theorem Known.step {e : AcestreamEvent} (hw : Known infohash now w) (hrec : w.Recorded)
    (hok : ∀ i pid r, e = .lookup i pid → w.requests[i]? = some r → r.infohash = infohash →
      w.LooksAlone now infohash)
    (hturn : Turn now w w') (hchange : Change now w e w') : Known infohash now w' := by
  have hpending := hchange.pending_le infohash
  refine ⟨?_, ?_, ?_⟩
  · intro c entry' h hi ha
    rcases hturn.alive hrec h ha with ⟨entry, hentry, hinfohash, halive, hfate⟩ | ⟨hstored, -⟩
    · rcases hfate with hfate | ⟨hfate, hstays⟩
      · exact .inr hfate
      · rw [hinfohash, hi] at hstays
        rcases hw.known c entry hentry (hinfohash.trans hi) halive with hstored | hreleased
        · rcases hstays hstored with hstored' | hanswered
          · exact .inl hstored'
          · -- the session would be alive while another one is started
            refine absurd halive (hw.pending ?_ c entry hentry (hinfohash.trans hi))
            exact hanswered ▸ Nat.succ_pos _
        · exact .inr (hfate.trans hreleased)
    · rw [hi] at hstored
      exact .inl hstored
  · intro hpos c entry' h hi ha
    rcases hturn.alive hrec h ha with ⟨entry, hentry, hinfohash, halive, -⟩ | ⟨-, hanswered⟩
    · rcases hpending with hle | ⟨i, r, pid, he, hr, hrinfohash, -, hmiss⟩
      · exact hw.pending (hpos.trans_le hle) c entry hentry (hinfohash.trans hi) halive
      · exact hw.not_alive_of_cached hrec (hok i pid r he hr hrinfohash) hmiss hentry
          (hinfohash.trans hi) halive
    · -- the only call was answered
      rw [hi] at hanswered
      have := hw.onePending
      omega
  · rcases hpending with hle | ⟨i, r, pid, he, hr, hrinfohash, hle, -⟩
    · exact hle.trans hw.onePending
    · rw [(hok i pid r he hr hrinfohash).1] at hle
      exact hle

/-- A session that its last client has left was left before, or there is none stored now. -/
theorem Turn.released (hturn : Turn now w w') (hw : w.Recorded) {c : ℕ} {entry : LedgerEntry}
    (h : w'.ledger c = some entry) (hfate : entry.fate = .released) :
    w.ledger c = some entry ∨ w'.manager.sessions entry.infohash = none := by
  cases hturn with
  | keep _ hledger _ _ => exact .inl (hledger ▸ h)
  | @touch _ t _ _ _ hledger _ _ =>
    rw [hledger] at h
    by_cases hc : c = t.clientCount
    · rw [hc, Function.update_self] at h
      cases h
      cases hfate
    · exact .inl ((Function.update_of_ne hc _ _).symm.trans h)
  | store _ _ hledger _ _ _ =>
    rw [hledger] at h
    by_cases hc : c = w.manager.nextCounter
    · rw [hc, Function.update_self] at h
      cases h
      cases hfate
    · exact .inl ((Function.update_of_ne hc _ _).symm.trans h)
  | @drop _ t fate ht _ hsessions hledger _ _ =>
    rw [hledger] at h
    by_cases hc : c = t.clientCount
    · rw [hc, Function.update_self, hw.stored _ _ ht] at h
      cases h
      rw [hsessions]
      exact .inr (Function.update_self ..)
    · exact .inl ((Function.update_of_ne hc _ _).symm.trans h)
  | @stop task _ _ _ hledger _ _ =>
    rw [hledger] at h
    by_cases hc : c = task.session
    · rw [hc, Function.update_self] at h
      obtain ⟨_, -, rfl⟩ := Option.map_eq_some_iff.mp h
      cases hfate
    · exact .inl ((Function.update_of_ne hc _ _).symm.trans h)

/-- `get_or_create` returns the stored session, after a lookup or a call. -/
theorem Change.stored_of_gets {e : AcestreamEvent} (h : Change now w e w') {i : ℕ}
    {t : AcestreamSession} (hgets : Gets w w' i infohash t) :
    w'.manager.sessions infohash = some t ∧ ∃ r, w.requests[i]? = some r ∧ r.infohash = infohash ∧
      ((∃ pid, e = .lookup i pid) ∨ r.waits = true) := by
  obtain ⟨r, r', hi, hi', hinfohash, hnone, hsome⟩ := hgets
  -- the request has changed
  have hne : r' ≠ r := by
    rintro rfl
    rw [hnone] at hsome
    cases hsome
  have hset {j : ℕ} {q q' : AcestreamRequest} (hj : w.requests[j]? = some q)
      (hreq : w'.requests = w.requests.set j q') : j = i ∧ q = r ∧ q' = r' := by
    rw [hreq] at hi'
    by_cases hji : j = i
    · subst hji
      obtain ⟨hlt, -⟩ := List.getElem?_eq_some_iff.mp hj
      rw [List.getElem?_set_self hlt] at hi'
      rw [hj] at hi
      exact ⟨rfl, Option.some.inj hi, Option.some.inj hi'⟩
    · rw [List.getElem?_set_ne hji, hi] at hi'
      exact absurd (Option.some.inj hi').symm hne
  cases h with
  | arrive _ hreq =>
    obtain ⟨hlt, -⟩ := List.getElem?_eq_some_iff.mp hi
    rw [hreq, List.getElem?_append_left hlt, hi] at hi'
    exact absurd (Option.some.inj hi').symm hne
  | keep hreq =>
    rw [hreq, hi] at hi'
    exact absurd (Option.some.inj hi').symm hne
  | goes hj hreq _ hsession _ =>
    obtain ⟨-, rfl, rfl⟩ := hset hj hreq
    rw [hnone, or_self, hsome] at hsession
    cases hsession
  | calls hj hreq _ hsession _ _ =>
    obtain ⟨-, rfl, rfl⟩ := hset hj hreq
    rw [hsession] at hsome
    cases hsome
  | gets hj hreq _ hsession _ hstored he =>
    obtain ⟨rfl, rfl, rfl⟩ := hset hj hreq
    rw [hsession] at hsome
    cases hsome
    exact ⟨hinfohash ▸ hstored, _, hi, hinfohash, he⟩

/-- **What `get_or_create` returns is the live session.** -/
theorem Known.eq_of_gets {e : AcestreamEvent} (hw : Known infohash now w) (hrec : w.Recorded)
    (hok : ∀ i pid r, e = .lookup i pid → w.requests[i]? = some r → r.infohash = infohash →
      w.LooksAlone now infohash)
    (hturn : Turn now w w') (hchange : Change now w e w') {i : ℕ} {t : AcestreamSession}
    (hgets : Gets w w' i infohash t) {c : ℕ} {entry : LedgerEntry} (h : w'.ledger c = some entry)
    (hi : entry.infohash = infohash) (ha : entry.Alive now) : c = t.clientCount := by
  obtain ⟨hstored, r, hr, hrinfohash, he⟩ := hchange.stored_of_gets hgets
  rcases (hw.step hrec hok hturn hchange).known c entry h hi ha with hcell | hreleased
  · rw [hstored] at hcell
    exact (Option.some.inj hcell).symm
  · rcases hturn.released hrec h hreleased with hold | hnone
    · -- such a session is not alive when another one is looked for or started
      rcases he with ⟨pid, rfl⟩ | hwaits
      · have hstale := (hok i pid r rfl hr hrinfohash).2 c entry hold hi hreleased
        rw [ha.2.2] at hstale
        cases hstale
      · refine absurd ha (hw.pending ?_ c entry hold hi)
        refine List.countP_pos_iff.mpr ⟨r, List.mem_of_getElem? hr, ?_⟩
        simp [hrinfohash, hwaits]
    · rw [hi, hstored] at hnone
      cases hnone

theorem serves_of_pending_pos (h : 0 < w.pending infohash) : w.Serves infohash := by
  obtain ⟨r, hr, hp⟩ := List.countP_pos_iff.mp h
  rw [Bool.and_eq_true, decide_eq_true_eq] at hp
  exact ⟨r, hr, hp.1⟩

/-- Requests stay requests for their infohash, and only an arrival is a new one. -/
theorem Change.serves {e : AcestreamEvent} (h : Change now w e w') :
    (w.Serves infohash → w'.Serves infohash) ∧
      (w'.Serves infohash → w.Serves infohash ∨
        ∃ handler isHead contentId, e = .arrive handler isHead infohash contentId) := by
  have hset {i : ℕ} {r r' : AcestreamRequest} (hi : w.requests[i]? = some r)
      (hreq : w'.requests = w.requests.set i r') (hr : r'.infohash = r.infohash) :
      w'.Serves infohash ↔ w.Serves infohash := by
    obtain ⟨hlt, rfl⟩ := List.getElem?_eq_some_iff.mp hi
    have hmap : w'.requests.map (·.infohash) = w.requests.map (·.infohash) := by
      refine List.ext_getElem (by rw [hreq, List.length_map, List.length_map, List.length_set]) ?_
      intro j _ _
      simp only [List.getElem_map, hreq, List.getElem_set]
      split
      · next hij => subst hij; exact hr
      · rfl
    have hiff (v : AcestreamWorker) : v.Serves infohash ↔ infohash ∈ v.requests.map (·.infohash) :=
      List.mem_map.symm
    rw [hiff, hiff, hmap]
  cases h with
  | @arrive handler isHead h₁ contentId he hreq =>
    constructor
    · rintro ⟨r, hr, hrh⟩
      exact ⟨r, hreq ▸ List.mem_append_left _ hr, hrh⟩
    · rintro ⟨r, hr, rfl⟩
      rw [hreq] at hr
      rcases List.mem_append.mp hr with hr | hr
      · exact .inl ⟨r, hr, rfl⟩
      · rw [List.mem_singleton.mp hr]
        exact .inr ⟨_, _, _, he⟩
  | keep hreq =>
    unfold Serves
    rw [hreq]
    exact ⟨id, .inl⟩
  | goes hi hreq hr _ _ => exact ⟨(hset hi hreq hr).mpr, fun h => .inl ((hset hi hreq hr).mp h)⟩
  | calls hi hreq hr _ _ _ => exact ⟨(hset hi hreq hr).mpr, fun h => .inl ((hset hi hreq hr).mp h)⟩
  | gets hi hreq hr _ _ _ _ => exact ⟨(hset hi hreq hr).mpr, fun h => .inl ((hset hi hreq hr).mp h)⟩

/-- A session in the ledger was there before, or a request had called for it. -/
theorem Turn.ledger_or_pending (hturn : Turn now w w') (hw : w.Recorded) {c : ℕ}
    {entry : LedgerEntry} (h : w'.ledger c = some entry) :
    (∃ entry₀, w.ledger c = some entry₀ ∧ entry₀.infohash = entry.infohash) ∨
      0 < w.pending entry.infohash := by
  have hfate (d : ℕ) (fate : Fate) (hledger : w'.ledger =
      Function.update w.ledger d ((w.ledger d).map ({ · with fate }))) :
      ∃ entry₀, w.ledger c = some entry₀ ∧ entry₀.infohash = entry.infohash := by
    rw [hledger] at h
    by_cases hc : c = d
    · rw [hc, Function.update_self] at h
      obtain ⟨entry₀, h₀, rfl⟩ := Option.map_eq_some_iff.mp h
      exact ⟨entry₀, hc ▸ h₀, rfl⟩
    · exact ⟨entry, (Function.update_of_ne hc _ _).symm.trans h, rfl⟩
  cases hturn with
  | keep _ hledger _ _ => exact .inl ⟨entry, hledger ▸ h, rfl⟩
  | @touch h₁ t ht _ _ hledger _ _ =>
    rw [hledger] at h
    by_cases hc : c = t.clientCount
    · rw [hc, Function.update_self] at h
      cases h
      exact .inl ⟨⟨h₁, t, .running⟩, hc ▸ hw.stored _ _ ht, rfl⟩
    · exact .inl ⟨entry, (Function.update_of_ne hc _ _).symm.trans h, rfl⟩
  | store _ _ hledger _ _ hpending =>
    rw [hledger] at h
    by_cases hc : c = w.manager.nextCounter
    · rw [hc, Function.update_self] at h
      cases h
      exact .inr (hpending ▸ Nat.succ_pos _)
    · exact .inl ⟨entry, (Function.update_of_ne hc _ _).symm.trans h, rfl⟩
  | drop fate _ _ _ hledger _ _ => exact .inl (hfate _ fate hledger)
  | stop _ _ _ hledger _ _ => exact .inl (hfate _ _ hledger)

end AcestreamWorker

/-! ### Runs -/

/-- The invariant of the server: one worker serves the infohash, and it knows its live session. -/
structure OneWorker (infohash : Str) (s : AcestreamServer) : Prop where
  recorded : ∀ n, (s.workers n).Recorded
  known : ∀ n, (s.workers n).Known infohash s.now
  serves : ∀ n k, (s.workers n).Serves infohash → (s.workers k).Serves infohash → n = k
  ledger : ∀ n c entry, (s.workers n).ledger c = some entry → entry.infohash = infohash →
    (s.workers n).Serves infohash

section Runs

variable {config : AcestreamConfig} {infohash : Str}

theorem OneWorker.step {s s' : AcestreamServer} {e : ServerEvent} (hs : OneWorker infohash s)
    (hok : LooksInTurn infohash s e) (h : (acestreamServer config).step s e = some s') :
    OneWorker infohash s' := by
  cases e with
  | tick elapsed =>
    cases h
    exact ⟨hs.recorded, fun n => (hs.known n).of_le (Nat.le_add_right _ _), hs.serves, hs.ledger⟩
  | «at» m e =>
    obtain ⟨w', hw', rfl⟩ := Option.map_eq_some_iff.mp h
    have hturn := AcestreamWorker.turn_of_does (AcestreamWorker.does_of_step hw')
    have hchange := AcestreamWorker.change_of_does (AcestreamWorker.does_of_step hw')
    -- a property of each worker, from what it was and what it is at `m`
    have hall {P : ℕ → AcestreamWorker → Prop} (hold : ∀ n, P n (s.workers n)) (hnew : P m w') :
        ∀ n, P n (Function.update s.workers m w' n) := by
      intro n
      by_cases hn : n = m
      · rw [hn, Function.update_self]
        exact hnew
      · rw [Function.update_of_ne hn]
        exact hold n
    have hlooks : ∀ i pid r, e = .lookup i pid → (s.workers m).requests[i]? = some r →
        r.infohash = infohash → (s.workers m).LooksAlone s.now infohash := by
      rintro i pid r rfl
      exact hok r
    refine ⟨hall hs.recorded ((hs.recorded m).step hw'),
      hall hs.known ((hs.known m).step (hs.recorded m) hlooks hturn hchange), ?_, ?_⟩
    · -- who serves the infohash now has served it before, or it is the worker of the arrival
      by_cases harrive : ∃ handler isHead contentId, e = .arrive handler isHead infohash contentId
      · obtain ⟨handler, isHead, contentId, rfl⟩ := harrive
        have hm : ∀ n, (Function.update s.workers m w' n).Serves infohash → n = m :=
          hall (P := fun n w => w.Serves infohash → n = m) (hok rfl) fun _ => rfl
        exact fun n k hn hk => (hm n hn).trans (hm k hk).symm
      · have hold : ∀ n, (Function.update s.workers m w' n).Serves infohash →
            (s.workers n).Serves infohash :=
          hall (P := fun n w => w.Serves infohash → (s.workers n).Serves infohash) (fun _ h => h)
            fun h => (hchange.serves.2 h).resolve_right harrive
        exact fun n k hn hk => hs.serves n k (hold n hn) (hold k hk)
    · refine hall (P := fun _ w => ∀ c entry, w.ledger c = some entry → entry.infohash = infohash →
        w.Serves infohash) hs.ledger ?_
      intro c entry hentry hinfohash
      refine hchange.serves.1 ?_
      rcases hturn.ledger_or_pending (hs.recorded m) hentry with ⟨entry₀, h₀, hi₀⟩ | hpos
      · exact hs.ledger m c entry₀ h₀ (hi₀.trans hinfohash)
      · exact AcestreamWorker.serves_of_pending_pos (hinfohash ▸ hpos)

theorem oneWorker_of_reaches {s : AcestreamServer}
    (hs : (acestreamServer config).Reaches (LooksInTurn infohash) s) : OneWorker infohash s := by
  refine hs.invariant ⟨fun _ => AcestreamWorker.recorded_new,
    fun _ => AcestreamWorker.known_new infohash 0, ?_, ?_⟩ fun _ _ _ ih hok h => ih.step hok h
  · rintro n k ⟨r, hr, -⟩
    cases hr
  · intro n c entry h
    cases h

/-- **At most one live session for an infohash**, in every run whose requests for it come to one
worker and look for a session alone. -/
theorem oneSession (config : AcestreamConfig) (infohash : Str) :
    OneSession config infohash (LooksInTurn infohash) := by
  intro s hs n e s' hok hstep i t hgets
  have hinv := oneWorker_of_reaches hs
  have hinv' := hinv.step hok hstep
  obtain ⟨w', hw', rfl⟩ := Option.map_eq_some_iff.mp hstep
  have hself : Function.update s.workers n w' n = w' := Function.update_self ..
  have hturn := AcestreamWorker.turn_of_does (AcestreamWorker.does_of_step hw')
  have hchange := AcestreamWorker.change_of_does (AcestreamWorker.does_of_step hw')
  dsimp only at hgets
  rw [hself] at hgets
  have hstored := (hchange.stored_of_gets hgets).1
  have hlooks : ∀ i pid r, e = .lookup i pid → (s.workers n).requests[i]? = some r →
      r.infohash = infohash → (s.workers n).LooksAlone s.now infohash := by
    rintro i pid r rfl
    exact hok r
  -- the request is at worker `n`, so all live sessions are
  have hserves : (Function.update s.workers n w' n).Serves infohash := by
    rw [hself]
    obtain ⟨-, r, hr, hri, -⟩ := hchange.stored_of_gets hgets
    exact hchange.serves.1 ⟨r, List.mem_of_getElem? hr, hri⟩
  have hone : ∀ k c entry, (Function.update s.workers n w' k).ledger c = some entry →
      entry.infohash = infohash → entry.Alive s.now → k = n ∧ c = t.clientCount := by
    intro k c entry hentry hi ha
    obtain rfl := hinv'.serves k n (hinv'.ledger k c entry hentry hi) hserves
    rw [hself] at hentry
    exact ⟨rfl, (hinv.known k).eq_of_gets (hinv.recorded k) hlooks hturn hchange hgets hentry hi ha⟩
  refine ⟨hone, ?_⟩
  intro k r hr hri u entry hu hentry ha
  obtain ⟨entry', hentry', hi', hpid, hplayback⟩ := (hinv'.recorded k).requests r hr u hu
  dsimp only at hentry hentry'
  rw [hentry] at hentry'
  cases hentry'
  obtain ⟨rfl, hc⟩ := hone k _ entry hentry (hi'.trans hri) ha
  have hrecorded := (hinv'.recorded k).stored infohash t (by rw [← hstored]; dsimp only; rw [hself])
  dsimp only at hrecorded
  rw [hc, hrecorded] at hentry
  cases hentry
  exact ⟨hpid.symm, hplayback.symm⟩

end Runs

/-! ### Two first requests -/

/-- Two first requests at one worker: both look before the engine has answered one of them. -/
def firstRequests : List ServerEvent :=
  [.at 0 (.arrive .stream false "a1".toList none), .at 0 (.arrive .stream false "a1".toList none),
    .at 0 (.lookup 0 "p1".toList), .at 0 (.lookup 1 "p2".toList), .at 0 (.reply 0 startedReply)]

/-- **Two sessions are started.** The second answer takes the place of the first session in the
registry, and the engine runs both. -/
theorem oneSession_fails : ¬ OneSession localEngine "a1".toList Machine.Anyhow := by
  intro h
  have hreply : (((acestreamServer localEngine).run firstRequests).bind fun s =>
      ((acestreamServer localEngine).step s (.at 0 (.reply 1 startedReply))).map fun s' =>
        ((s.workers 0).requests[1]?.any fun r => r.infohash = "a1".toList && r.session.isNone,
          (s'.workers 0).requests[1]?.any fun r => r.session.any (·.clientCount = 1),
          ((s'.workers 0).ledger 0).any fun entry => entry.infohash = "a1".toList &&
            entry.fate = .running && !entry.session.isStale s'.now (fromSecs 300))) =
      some (true, true, true) := by
    decide +kernel
  obtain ⟨s, hs, hreply⟩ := Option.bind_eq_some_iff.mp hreply
  obtain ⟨s', hs', hfacts⟩ := Option.map_eq_some_iff.mp hreply
  rw [Prod.mk.injEq, Prod.mk.injEq] at hfacts
  obtain ⟨hbefore, hafter, hfirst⟩ := hfacts
  obtain ⟨r, hr, hrfacts⟩ := (Option.any_eq_true ..).mp hbefore
  obtain ⟨r', hr', hrt⟩ := (Option.any_eq_true ..).mp hafter
  obtain ⟨t, ht, htc⟩ := (Option.any_eq_true ..).mp hrt
  obtain ⟨entry, hentry, hefacts⟩ := (Option.any_eq_true ..).mp hfirst
  simp only [Bool.and_eq_true, decide_eq_true_eq, Bool.not_eq_true', Option.isNone_iff_eq_none]
    at hrfacts htc hefacts
  obtain ⟨⟨hinfohash, hfate⟩, hlive⟩ := hefacts
  have halive : entry.Alive s'.now := by
    refine ⟨?_, ?_, hlive⟩ <;> rw [hfate] <;> nofun
  have hone := (h s (Machine.reaches_run hs) 0 _ s' trivial hs' 1 t
    ⟨r, r', hr, hr', hrfacts.1, hrfacts.2, ht⟩).1 0 0 entry hentry hinfohash halive
  rw [htc] at hone
  exact absurd hone.2 (by decide)

end MediaFlow
