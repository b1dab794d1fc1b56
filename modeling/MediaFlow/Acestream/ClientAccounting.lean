import MediaFlow.Acestream.Handler

/-!
# The clients of an Acestream session

`increment_client` and `release_client` look the session up by infohash, each for itself. The
counter of a session is the number of its clients as long as the session that a client leaves is the
one it was counted on. What can come between is named by `AcestreamWorker.Orderly`: a run without it
keeps all accounts (`clientsAccounted`), while a session that is replaced under its client makes the
next client lose its session (`clientsAccounted_fails`).
-/

open Text

namespace MediaFlow

namespace AcestreamRequest

variable (r : AcestreamRequest)

/-- The session of a stream request, by its counter, from where `get_or_create` returns it to where
it is released. A request that is answered without a stream has none. -/
def held : Option ℕ :=
  match r.phase with
  | .got s => if r.handler = .stream ∧ ¬ r.isHead ∧ ¬ s.isFreeMode then some s.clientCount else none
  | .opening s _ | .streaming s _ => some s.clientCount
  | _ => none

/-- The counter that a connected client was counted on. -/
def counted : Option ℕ :=
  match r.phase with
  | .opening _ c | .streaming _ c => c
  | _ => none

/-- The client was registered and not yet released. -/
def connected : Bool :=
  match r.phase with
  | .opening .. | .streaming .. => true
  | _ => false

/-- A connected client uses the session that it plays and the one that it was counted on. -/
def Uses (c : ℕ) : Prop := r.connected ∧ (r.held = some c ∨ r.counted = some c)

theorem counted_eq_none (h : ¬ r.connected) : r.counted = none := by
  unfold connected at h
  unfold counted
  split at h <;> simp_all

theorem held_of_connected (h : r.connected) : ∃ c, r.held = some c := by
  unfold connected at h
  unfold held
  split at h
  · next s c hp => exact ⟨s.clientCount, by rw [hp]⟩
  · next s c hp => exact ⟨s.clientCount, by rw [hp]⟩
  · cases h

end AcestreamRequest

namespace AcestreamWorker

variable (w : AcestreamWorker)

/-- The counter of the session that is stored for `infohash`. -/
def cell (infohash : Str) : Option ℕ := (w.manager.sessions infohash).map (·.clientCount)

/-- The number of connected clients that were counted on `c`. -/
def connectedOn (c : ℕ) : ℕ := w.requests.countP fun r => r.counted = some c

/-- The counter of a stored session is the number of clients that were counted on it. -/
def CountsMatch : Prop :=
  ∀ infohash c, w.cell infohash = some c → w.manager.counters c = w.connectedOn c

/-- What a step from `w` with event `e` to `w'` may do to sessions and their clients. -/
structure StepAccounts (w : AcestreamWorker) (e : AcestreamEvent) (w' : AcestreamWorker) : Prop where
  /-- No counter wraps: from zero it would go to the greatest number. -/
  noWrap : ∀ c, w'.manager.counters c ≤ w.manager.counters c + 1
  /-- A session is removed only when no connected client uses it. -/
  removed : ∀ infohash c, w.cell infohash = some c → w'.cell infohash ≠ some c →
    ∀ r ∈ w'.requests, ¬ r.Uses c
  /-- A session is stopped only when no connected client uses it. -/
  stopped : ∀ k t, e = .graceOver k → w.stopTasks[k]? = some t → (w.stops t).isSome →
    ∀ r ∈ w.requests, ¬ r.Uses t.session
  /-- When the last client has left a session, it is removed. -/
  lastLeft : ∀ c, 0 < w.connectedOn c → w'.connectedOn c = 0 → ∀ infohash, w'.cell infohash ≠ some c

/-- No stream request has the session that is stored for `infohash`. -/
def Unheld (infohash : Str) : Prop :=
  ∀ r ∈ w.requests, ∀ c, w.cell infohash = some c → r.held ≠ some c

/-- The last client of the stored session does not leave between `get_or_create` and
`increment_client` of another one. -/
def LeavesOrderly (infohash : Str) : Prop :=
  ∀ c, w.cell infohash = some c → w.manager.counters c = 1 →
    ∀ r ∈ w.requests, r.held = some c → r.connected

/-- **The condition on steps.** A stored session is replaced or invalidated only when no stream
request has it, the last client leaves only when no other one is about to be counted, a request is
not dropped while its stream is being opened, and the counter has room for another client. -/
def Orderly (config : AcestreamConfig) : AcestreamEvent → Prop
  | .reply i reply => ∀ r pid, w.requests[i]? = some r → r.phase = .creating pid →
      (AcestreamSessionManager.sessionUrls config r.infohash r.contentId pid reply).isOk →
      w.Unheld r.infohash
  | .fetched i forbidden => ∀ r, w.requests[i]? = some r → r.isHead = false → forbidden →
      r.retried = false → w.Unheld r.infohash
  | .connect i => ∀ r c, w.requests[i]? = some r → w.cell r.infohash = some c →
      w.manager.counters c + 1 < AcestreamSessionManager.usizeModulus
  | .opened i ok => ∀ r, w.requests[i]? = some r → ok = false → w.LeavesOrderly r.infohash
  | .disconnect i => ∀ r, w.requests[i]? = some r → w.LeavesOrderly r.infohash
  | .abandon i => ∀ r s c, w.requests[i]? = some r → r.phase ≠ .opening s c
  | .arrive .. | .lookup .. | .graceOver _ => True

end AcestreamWorker

/-- In every run whose steps all meet `ok`, in every state reached the counters are right, and every
further step that meets `ok` keeps the accounts. -/
def ClientsAccounted (config : AcestreamConfig)
    (ok : AcestreamServer → ServerEvent → Prop) : Prop :=
  ∀ s, (acestreamServer config).Reaches ok s → ∀ n,
    (s.workers n).CountsMatch ∧
      ∀ e w', ok s (.at n e) → (s.workers n).step config s.now e = some w' →
        (s.workers n).StepAccounts e w'

/-- The steps of all workers are orderly. -/
def OrderlyClients (config : AcestreamConfig) (s : AcestreamServer) : ServerEvent → Prop
  | .tick _ => True
  | .at n e => (s.workers n).Orderly config e

/-! ### What a step keeps -/

namespace AcestreamWorker

open AcestreamSessionManager

variable {w : AcestreamWorker}

/-- The invariant: what a stream request holds is stored, and it was counted there. -/
structure Accounted (w : AcestreamWorker) : Prop where
  counts : w.CountsMatch
  held : ∀ r ∈ w.requests, ∀ c, r.held = some c → w.cell r.infohash = some c
  counted : ∀ r ∈ w.requests, r.connected → r.counted = r.held
  distinct : ∀ h h' c, w.cell h = some c → w.cell h' = some c → h = h'
  fresh : ∀ h c, w.cell h = some c → c < w.manager.nextCounter
  bounded : ∀ c, w.manager.counters c < usizeModulus
  tasks : ∀ t ∈ w.stopTasks, t.session < w.manager.nextCounter ∧ ∀ h, w.cell h ≠ some t.session

theorem accounted_new : Accounted .new where
  counts _ _ h := nomatch h
  held _ h := nomatch h
  counted _ h := nomatch h
  distinct _ _ _ h := nomatch h
  fresh _ _ h := nomatch h
  bounded _ := Nat.two_pow_pos 64
  tasks _ h := nomatch h

/-- A session that is used is stored. -/
theorem Accounted.cell_of_uses (hw : w.Accounted) {r : AcestreamRequest} (hr : r ∈ w.requests)
    {c : ℕ} (h : r.Uses c) : w.cell r.infohash = some c := by
  obtain ⟨hc, h | h⟩ := h
  · exact hw.held r hr c h
  · rw [hw.counted r hr hc] at h
    exact hw.held r hr c h

theorem Accounted.cell_of_counted (hw : w.Accounted) {r : AcestreamRequest} (hr : r ∈ w.requests)
    {c : ℕ} (h : r.counted = some c) : w.cell r.infohash = some c := by
  refine hw.cell_of_uses hr ⟨?_, .inr h⟩
  by_contra hc
  rw [r.counted_eq_none hc] at h
  cases h

theorem connectedOn_pos_iff {c : ℕ} : 0 < w.connectedOn c ↔ ∃ r ∈ w.requests, r.counted = some c := by
  unfold connectedOn
  rw [List.countP_pos_iff]
  simp

/-- Nobody was counted on a session that is not stored. -/
theorem Accounted.connectedOn_eq_zero (hw : w.Accounted) {c : ℕ} (h : ∀ i, w.cell i ≠ some c) :
    w.connectedOn c = 0 := by
  by_contra hc
  obtain ⟨r, hr, hrc⟩ := connectedOn_pos_iff.mp (Nat.pos_of_ne_zero hc)
  exact h _ (hw.cell_of_counted hr hrc)

/-- The request `i` changes from `r` to `r'`. -/
theorem countP_set_counted {requests : List AcestreamRequest} {i : ℕ} {r : AcestreamRequest}
    (hi : requests[i]? = some r) (r' : AcestreamRequest) (c : ℕ) :
    (requests.set i r').countP (fun r => r.counted = some c) + (if r.counted = some c then 1 else 0) =
      requests.countP (fun r => r.counted = some c) + if r'.counted = some c then 1 else 0 := by
  have := List.countP_set_add (p := fun r => decide (r.counted = some c)) hi r'
  simpa only [decide_eq_true_eq] using this

/-- The registry and the stop tasks stay, and one request changes that stays counted where it was. -/
structure Keeps (w w' : AcestreamWorker) (i : ℕ) (r r' : AcestreamRequest) : Prop where
  requests : w'.requests = w.requests.set i r'
  cell : w'.cell = w.cell
  counters : w'.manager.counters = w.manager.counters
  nextCounter : w'.manager.nextCounter = w.manager.nextCounter
  stopTasks : w'.stopTasks = w.stopTasks
  same : r'.counted = r.counted
  held : ∀ c, r'.held = some c → w.cell r'.infohash = some c
  connected : r'.connected → r'.counted = r'.held

theorem Keeps.connectedOn {w' : AcestreamWorker} {i : ℕ} {r r' : AcestreamRequest}
    (h : Keeps w w' i r r') (hi : w.requests[i]? = some r) : w'.connectedOn = w.connectedOn := by
  ext c
  have := countP_set_counted hi r' c
  unfold AcestreamWorker.connectedOn
  rw [h.requests]
  rw [h.same] at this
  omega

theorem Accounted.keeps {w' : AcestreamWorker} {i : ℕ} {r q : AcestreamRequest} (hw : w.Accounted)
    (hi : w.requests[i]? = some r) (h : Keeps w w' i r q) : w'.Accounted where
  counts infohash c hc := by
    rw [h.cell] at hc
    rw [h.counters, h.connectedOn hi]
    exact hw.counts infohash c hc
  held := by
    rw [h.requests, h.cell]
    exact List.forall_mem_set hw.held h.held
  counted := by
    rw [h.requests]
    exact List.forall_mem_set hw.counted h.connected
  distinct := by rw [h.cell]; exact hw.distinct
  fresh := by rw [h.cell, h.nextCounter]; exact hw.fresh
  bounded := by rw [h.counters]; exact hw.bounded
  tasks := by rw [h.cell, h.nextCounter, h.stopTasks]; exact hw.tasks

/-- A new session takes the place of one that nobody holds. -/
theorem Accounted.stores {w' : AcestreamWorker} {i : ℕ} {r q : AcestreamRequest} (hw : w.Accounted)
    (hi : w.requests[i]? = some r) (hfree : w.Unheld r.infohash)
    (hreq : w'.requests = w.requests.set i q)
    (hcell : w'.cell = Function.update w.cell r.infohash (some w.manager.nextCounter))
    (hcounters : w'.manager.counters = Function.update w.manager.counters w.manager.nextCounter 0)
    (hnext : w'.manager.nextCounter = w.manager.nextCounter + 1)
    (htasks : w'.stopTasks = w.stopTasks) (hsame : q.infohash = r.infohash)
    (hr : r.counted = none) (hr' : ¬ q.connected)
    (hheld : ∀ c, q.held = some c → c = w.manager.nextCounter) : w'.Accounted := by
  have hold {h : Str} {c : ℕ} (hc : w'.cell h = some c) :
      (h = r.infohash ∧ c = w.manager.nextCounter) ∨ (h ≠ r.infohash ∧ w.cell h = some c) := by
    rw [hcell] at hc
    by_cases hh : h = r.infohash
    · rw [hh, Function.update_self] at hc
      exact .inl ⟨hh, (Option.some.inj hc).symm⟩
    · rw [Function.update_of_ne hh] at hc
      exact .inr ⟨hh, hc⟩
  have hcount (c : ℕ) : w'.connectedOn c = w.connectedOn c := by
    have := countP_set_counted hi q c
    unfold AcestreamWorker.connectedOn
    rw [hreq]
    rw [hr, q.counted_eq_none hr'] at this
    simpa using this
  refine ⟨?_, ?_, ?_, ?_, ?_, ?_, ?_⟩
  · -- nobody was counted on the new session yet
    intro h c hc
    rw [hcounters, hcount]
    obtain ⟨-, rfl⟩ | ⟨-, hc⟩ := hold hc
    · rw [Function.update_self]
      refine (hw.connectedOn_eq_zero fun h' hc' => ?_).symm
      exact absurd (hw.fresh _ _ hc') (lt_irrefl _)
    · rw [Function.update_of_ne (hw.fresh _ _ hc).ne]
      exact hw.counts _ _ hc
  · rw [hreq, hcell]
    refine List.forall_mem_set (fun r₂ hr₂ c hc => ?_) fun c hc => ?_
    · have hc' := hw.held r₂ hr₂ c hc
      have hne : r₂.infohash ≠ r.infohash := by
        intro heq
        rw [heq] at hc'
        exact hfree r₂ hr₂ c hc' hc
      rw [Function.update_of_ne hne]
      exact hc'
    · rw [hsame, Function.update_self, hheld c hc]
  · rw [hreq]
    exact List.forall_mem_set hw.counted fun h => absurd h hr'
  · intro h h' c hc hc'
    obtain ⟨rfl, rfl⟩ | ⟨-, hc⟩ := hold hc <;> obtain ⟨rfl, h₁⟩ | ⟨-, hc'⟩ := hold hc'
    · rfl
    · exact absurd (hw.fresh _ _ hc') (lt_irrefl _)
    · exact absurd (hw.fresh _ _ hc) (h₁ ▸ lt_irrefl _)
    · exact hw.distinct _ _ _ hc hc'
  · intro h c hc
    rw [hnext]
    obtain ⟨-, rfl⟩ | ⟨-, hc⟩ := hold hc
    · exact Nat.lt_succ_self _
    · exact (hw.fresh _ _ hc).trans (Nat.lt_succ_self _)
  · intro c
    rw [hcounters]
    by_cases hc : c = w.manager.nextCounter
    · rw [hc, Function.update_self]
      decide
    · rw [Function.update_of_ne hc]
      exact hw.bounded c
  · rw [htasks, hnext]
    intro t ht
    obtain ⟨hlt, hne⟩ := hw.tasks t ht
    refine ⟨hlt.trans (Nat.lt_succ_self _), fun h hc => ?_⟩
    obtain ⟨-, heq⟩ | ⟨-, hc⟩ := hold hc
    · exact absurd hlt (heq ▸ lt_irrefl _)
    · exact hne h hc

/-- A session is taken out. `hgone` is what makes that safe: no request that stays has it. -/
theorem Accounted.removes {w' : AcestreamWorker} {i : ℕ} {q : AcestreamRequest} {infohash : Str}
    (hw : w.Accounted)
    (hreq : w'.requests = w.requests.set i q)
    (hcell : w'.cell = Function.update w.cell infohash none)
    (hnext : w'.manager.nextCounter = w.manager.nextCounter)
    (hbounded : ∀ c, w'.manager.counters c < usizeModulus)
    (hr' : ¬ q.connected) (hheld : q.held = none)
    (hcounts : ∀ h c, h ≠ infohash → w.cell h = some c →
      w'.manager.counters c = w.manager.counters c ∧ w'.connectedOn c = w.connectedOn c)
    (hgone : ∀ r₂ ∈ w'.requests, ∀ c, w.cell infohash = some c → r₂.held ≠ some c)
    (htasks : ∀ t ∈ w'.stopTasks, t ∈ w.stopTasks ∨ w.cell infohash = some t.session) :
    w'.Accounted := by
  have hold {h : Str} {c : ℕ} (hc : w'.cell h = some c) : h ≠ infohash ∧ w.cell h = some c := by
    rw [hcell] at hc
    by_cases hh : h = infohash
    · rw [hh, Function.update_self] at hc
      cases hc
    · rw [Function.update_of_ne hh] at hc
      exact ⟨hh, hc⟩
  refine ⟨?_, ?_, ?_, ?_, ?_, hbounded, ?_⟩
  · intro h c hc
    obtain ⟨hne, hc⟩ := hold hc
    obtain ⟨hctr, hcon⟩ := hcounts h c hne hc
    rw [hctr, hcon]
    exact hw.counts h c hc
  · intro r₂ hr₂ c hc
    have hc' : w.cell r₂.infohash = some c := by
      rw [hreq] at hr₂
      rcases List.mem_or_eq_of_mem_set hr₂ with hr₂ | rfl
      · exact hw.held r₂ hr₂ c hc
      · rw [hheld] at hc
        cases hc
    have hne : r₂.infohash ≠ infohash := by
      intro heq
      rw [heq] at hc'
      exact hgone r₂ hr₂ c hc' hc
    rw [hcell, Function.update_of_ne hne]
    exact hc'
  · rw [hreq]
    exact List.forall_mem_set hw.counted fun h => absurd h hr'
  · intro h h' c hc hc'
    exact hw.distinct _ _ _ (hold hc).2 (hold hc').2
  · intro h c hc
    rw [hnext]
    exact hw.fresh _ _ (hold hc).2
  · intro t ht
    rw [hnext]
    rcases htasks t ht with ht | ht
    · obtain ⟨hlt, hne⟩ := hw.tasks t ht
      exact ⟨hlt, fun h hc => hne h (hold hc).2⟩
    · refine ⟨hw.fresh _ _ ht, fun h hc => ?_⟩
      obtain ⟨hne, hc⟩ := hold hc
      exact hne (hw.distinct _ _ _ hc ht)

/-- The accounts of a step that keeps the invariant: sessions are stored under one infohash only and
a counter gets to zero only with its session. -/
theorem Accounted.stepAccounts {w' : AcestreamWorker} (e : AcestreamEvent) (hw : w.Accounted)
    (hw' : w'.Accounted)
    (hcells : ∀ h c, w'.cell h = some c → w.cell h = some c ∨ c = w.manager.nextCounter)
    (hcounters : ∀ c, w'.manager.counters c ≤ w.manager.counters c + 1)
    (hzero : ∀ h c, w'.cell h = some c → w'.manager.counters c = 0 →
      w.manager.counters c = 0 ∨ c = w.manager.nextCounter) : w.StepAccounts e w' where
  noWrap := hcounters
  removed infohash c hc hc' r hr huses := by
    have hstored := hw'.cell_of_uses hr huses
    rcases hcells _ _ hstored with h | h
    · rw [← hw.distinct _ _ _ hc h] at hstored
      exact hc' hstored
    · exact absurd (hw.fresh _ _ hc) (h ▸ lt_irrefl _)
  stopped k t _ ht _ r hr huses :=
    (hw.tasks t (List.mem_of_getElem? ht)).2 _ (hw.cell_of_uses hr huses)
  lastLeft c hpos hzero' infohash hc := by
    obtain ⟨r, hr, hrc⟩ := connectedOn_pos_iff.mp hpos
    have hstored := hw.cell_of_counted hr hrc
    have hcount := hw.counts _ _ hstored
    have hcount' := hw'.counts _ _ hc
    rcases hzero _ _ hc (hcount'.trans hzero') with h | h
    · exact hpos.ne' (hcount.symm.trans h)
    · exact absurd (hw.fresh _ _ hstored) (h ▸ lt_irrefl _)

/-- The invariant and the accounts together. -/
def Sound (w : AcestreamWorker) (e : AcestreamEvent) (w' : AcestreamWorker) : Prop :=
  w'.Accounted ∧ w.StepAccounts e w'

theorem Accounted.sound_keeps {w' : AcestreamWorker} {i : ℕ} {r q : AcestreamRequest}
    (e : AcestreamEvent) (hw : w.Accounted) (hi : w.requests[i]? = some r) (h : Keeps w w' i r q) :
    Sound w e w' := by
  have hw' := hw.keeps hi h
  refine ⟨hw', hw.stepAccounts e hw' ?_ ?_ ?_⟩
  · rw [h.cell]
    exact fun _ _ hc => .inl hc
  · rw [h.counters]
    exact fun c => Nat.le_succ _
  · rw [h.counters]
    exact fun _ _ _ hc => .inl hc

/-- A session that is stored, or removed, changes one counter. -/
theorem cell_of_update {w' : AcestreamWorker} {infohash : Str} (stored : Option AcestreamSession)
    (h : w'.manager.sessions = Function.update w.manager.sessions infohash stored) :
    w'.cell = Function.update w.cell infohash (stored.map (·.clientCount)) := by
  ext1 k
  unfold cell
  rw [h]
  by_cases hk : k = infohash
  · rw [hk, Function.update_self, Function.update_self]
  · rw [Function.update_of_ne hk, Function.update_of_ne hk]

/-! ### The steps -/

section Steps

variable {config : AcestreamConfig} {now i : ℕ} {r : AcestreamRequest} (e : AcestreamEvent)
  (hw : w.Accounted) (hi : w.requests[i]? = some r)

include hw

theorem Accounted.sound_arrive (handler : AcestreamHandler) (isHead : Bool) (infohash : Str)
    (contentId : Option Str) :
    Sound w e { w with
      requests := w.requests ++ [⟨handler, isHead, infohash, contentId, false, .looking⟩] } := by
  have hall {P : AcestreamRequest → Prop} (h : ∀ r ∈ w.requests, P r)
      (hP : P ⟨handler, isHead, infohash, contentId, false, .looking⟩) :
      ∀ r ∈ w.requests ++ [⟨handler, isHead, infohash, contentId, false, .looking⟩], P r := by
    intro r hr
    rcases List.mem_append.mp hr with hr | hr
    · exact h r hr
    · rw [List.mem_singleton.mp hr]
      exact hP
  have hw' : Accounted { w with
      requests := w.requests ++ [⟨handler, isHead, infohash, contentId, false, .looking⟩] } := by
    refine ⟨?_, ?_, ?_, hw.distinct, hw.fresh, hw.bounded, hw.tasks⟩
    · intro h c hc
      have := hw.counts h c hc
      unfold connectedOn at this ⊢
      rw [List.countP_append]
      exact this
    · exact hall hw.held fun c hc => nomatch hc
    · exact hall hw.counted fun hc => nomatch hc
  exact ⟨hw', hw.stepAccounts e hw' (fun _ _ hc => .inl hc) (fun _ => Nat.le_succ _)
    fun _ _ _ hc => .inl hc⟩

include hi

/-- A request without a stream comes to its end or waits. -/
theorem Accounted.sound_goTo (hr : ¬ r.connected) {phase : Phase}
    (hphase : ∀ s c, phase ≠ .got s ∧ phase ≠ .opening s c ∧ phase ≠ .streaming s c) :
    Sound w e (w.goTo i r phase) := by
  have hcounted : ({ r with phase } : AcestreamRequest).counted = none := by
    unfold AcestreamRequest.counted
    split
    · next s c h => exact absurd h (hphase s c).2.1
    · next s c h => exact absurd h (hphase s c).2.2
    · rfl
  have hheld : ({ r with phase } : AcestreamRequest).held = none := by
    unfold AcestreamRequest.held
    split
    · next s h => exact absurd h (hphase s none).1
    · next s c h => exact absurd h (hphase s c).2.1
    · next s c h => exact absurd h (hphase s c).2.2
    · rfl
  refine hw.sound_keeps e hi (q := { r with phase }) ⟨rfl, rfl, rfl, rfl, rfl, ?_, ?_, ?_⟩
  · rw [hcounted, r.counted_eq_none hr]
  · intro c hc
    rw [hheld] at hc
    cases hc
  · intro _
    rw [hcounted, hheld]

theorem Accounted.sound_lookup (hr : r.phase = .looking) (pid : Str) :
    Sound w e (w.lookup now i r pid) := by
  have hcon : ¬ r.connected := by simp [AcestreamRequest.connected, hr]
  unfold lookup
  split
  · next s m' hcached =>
    obtain ⟨entry, hentry, -, rfl, rfl⟩ := cached_eq_some hcached
    refine hw.sound_keeps e hi (q := { r with phase := .got (entry.touch now) })
      ⟨rfl, ?_, rfl, rfl, rfl, ?_, ?_, fun h => nomatch h⟩
    · -- the session is touched, and keeps its counter
      ext1 h
      show (Function.update w.manager.sessions r.infohash _ h).map (·.clientCount) = _
      by_cases hh : h = r.infohash
      · rw [hh, Function.update_self, cell, hentry]
        rfl
      · rw [Function.update_of_ne hh]
        rfl
    · rw [r.counted_eq_none hcon]
      rfl
    · intro c hc
      show w.cell r.infohash = some c
      unfold cell
      rw [hentry]
      dsimp only [AcestreamRequest.held] at hc
      split at hc
      · exact hc
      · cases hc
  · exact hw.sound_goTo e hi hcon fun s c => ⟨nofun, nofun, nofun⟩

theorem Accounted.sound_receive {pid : Str} {reply : EngineReply} (hr : r.phase = .creating pid)
    (hfree : (sessionUrls config r.infohash r.contentId pid reply).isOk →
      w.Unheld r.infohash) :
    Sound w e (w.receive config now i r pid reply) := by
  have hcon : ¬ r.connected := by simp [AcestreamRequest.connected, hr]
  unfold receive
  split
  · next s m' hcreate =>
    obtain ⟨hok, hs, -, rfl⟩ := create_eq_ok hcreate
    have hcell : (({ w with
          manager := ⟨Function.update w.manager.sessions r.infohash (some s),
            Function.update w.manager.counters w.manager.nextCounter 0,
            w.manager.nextCounter + 1⟩ }.note r.infohash s).goTo i r (.got s)).cell =
        Function.update w.cell r.infohash (some w.manager.nextCounter) :=
      (cell_of_update (some s) rfl).trans (by rw [Option.map_some, hs])
    have hw' := hw.stores hi (hfree hok) rfl hcell rfl rfl rfl rfl (r.counted_eq_none hcon)
      (q := { r with phase := .got s }) nofun fun c hc => by
        dsimp only [AcestreamRequest.held] at hc
        split at hc
        · rw [← hs]
          exact (Option.some.inj hc).symm
        · cases hc
    refine ⟨hw', hw.stepAccounts e hw' ?_ ?_ ?_⟩
    · intro h c hc
      rw [hcell] at hc
      by_cases hh : h = r.infohash
      · rw [hh, Function.update_self] at hc
        exact .inr (Option.some.inj hc).symm
      · rw [Function.update_of_ne hh] at hc
        exact .inl hc
    · intro c
      show Function.update w.manager.counters w.manager.nextCounter 0 c ≤ _
      by_cases hc : c = w.manager.nextCounter
      · rw [hc, Function.update_self]
        exact Nat.zero_le _
      · rw [Function.update_of_ne hc]
        exact Nat.le_succ _
    · intro h c _ hzero
      by_cases hc : c = w.manager.nextCounter
      · exact .inr hc
      · exact .inl ((Function.update_of_ne hc _ _).symm.trans hzero)
  · exact hw.sound_goTo e hi hcon fun s c => ⟨nofun, nofun, nofun⟩

theorem Accounted.sound_connect {s : AcestreamSession} (hstream : r.handler = .stream)
    (hr : r.phase = .got s)
    (hroom : ∀ c, w.cell r.infohash = some c → w.manager.counters c + 1 < usizeModulus) :
    Sound w e (w.connect i r s) := by
  have hcon : ¬ r.connected := by simp [AcestreamRequest.connected, hr]
  unfold connect
  split
  · exact hw.sound_goTo e hi hcon fun s c => ⟨nofun, nofun, nofun⟩
  next hfree =>
  split
  · exact hw.sound_goTo e hi hcon fun s c => ⟨nofun, nofun, nofun⟩
  next hhead =>
  -- the session is the one that the client has got, so that is what it is counted on
  have hheld : r.held = some s.clientCount := by
    unfold AcestreamRequest.held
    rw [hr]
    exact if_pos ⟨hstream, hhead, hfree⟩
  have hcell : w.cell r.infohash = some s.clientCount := hw.held r (List.mem_of_getElem? hi) _ hheld
  obtain ⟨t, ht, htc⟩ := Option.map_eq_some_iff.mp hcell
  have hinc : w.manager.incrementClient r.infohash =
      { w.manager with counters :=
        Function.update w.manager.counters s.clientCount (w.manager.counters s.clientCount + 1) } := by
    unfold incrementClient fetchAdd
    rw [ht]
    dsimp only
    rw [htc, Nat.mod_eq_of_lt (hroom _ hcell)]
  have hcounted : (w.manager.sessions r.infohash).map (·.clientCount) = some s.clientCount := hcell
  rw [hinc, hcounted]
  set r' : AcestreamRequest := { r with phase := .opening s (some s.clientCount) }
  have hcount (c : ℕ) : (w.requests.set i r').countP (fun r => r.counted = some c) =
      w.connectedOn c + if s.clientCount = c then 1 else 0 := by
    have := countP_set_counted hi r' c
    rw [r.counted_eq_none hcon] at this
    have hr' : r'.counted = some s.clientCount := rfl
    simpa only [hr', reduceCtorEq, if_false, add_zero, Option.some.injEq, connectedOn] using this
  set w' := AcestreamWorker.goTo _ i r (.opening s (some s.clientCount))
  have hw' : w'.Accounted := by
    refine ⟨?_, ?_, ?_, hw.distinct, hw.fresh, ?_, hw.tasks⟩
    · intro h c hc
      show Function.update w.manager.counters _ _ c = (w.requests.set i r').countP _
      rw [hcount]
      by_cases hsc : s.clientCount = c
      · rw [if_pos hsc, ← hsc, Function.update_self, hw.counts h _ (hsc ▸ hc)]
      · rw [if_neg hsc, Function.update_of_ne (Ne.symm hsc)]
        exact hw.counts h c hc
    · exact List.forall_mem_set hw.held fun c hc => hcell.trans hc
    · exact List.forall_mem_set hw.counted fun _ => rfl
    · intro c
      show Function.update w.manager.counters _ _ c < _
      by_cases hsc : c = s.clientCount
      · rw [hsc, Function.update_self]
        exact hroom _ hcell
      · rw [Function.update_of_ne hsc]
        exact hw.bounded c
  refine ⟨hw', hw.stepAccounts e hw' (fun _ _ hc => .inl hc) ?_ ?_⟩
  · intro c
    show Function.update w.manager.counters _ _ c ≤ _
    by_cases hsc : c = s.clientCount
    · rw [hsc, Function.update_self]
    · rw [Function.update_of_ne hsc]
      exact Nat.le_succ _
  · intro h c _ hzero
    replace hzero : Function.update w.manager.counters _ _ c = 0 := hzero
    by_cases hsc : c = s.clientCount
    · rw [hsc, Function.update_self] at hzero
      cases hzero
    · rw [Function.update_of_ne hsc] at hzero
      exact .inl hzero

theorem Accounted.sound_fetched {s : AcestreamSession} (hr : r.phase = .got s) {forbidden : Bool}
    (hfree : r.isHead = false → forbidden → r.retried = false → w.Unheld r.infohash) :
    Sound w e (w.fetched i r forbidden) := by
  have hcon : ¬ r.connected := by simp [AcestreamRequest.connected, hr]
  unfold fetched
  split
  · exact hw.sound_goTo e hi hcon fun s c => ⟨nofun, nofun, nofun⟩
  next hhead =>
  split
  swap
  · exact hw.sound_goTo e hi hcon fun s c => ⟨nofun, nofun, nofun⟩
  next hforbidden =>
  have hunheld := hfree (Bool.eq_false_iff.mpr hhead) hforbidden.1 (Bool.eq_false_iff.mpr hforbidden.2)
  set r' : AcestreamRequest := { r with retried := true, phase := .looking }
  set w' := (w.invalidate r.infohash).goTo i { r with retried := true } .looking with hdef
  have hmanager : w'.manager = w.manager.remove r.infohash := w.invalidate_manager _
  have hreq : w'.requests = w.requests.set i r' := by
    rw [hdef, goTo, w.invalidate_requests]
  have htasks : w'.stopTasks = w.stopTasks := w.invalidate_stopTasks _
  have hcell : w'.cell = Function.update w.cell r.infohash none :=
    cell_of_update none (by rw [hmanager]; rfl)
  have hcounters : w'.manager.counters = w.manager.counters := by
    rw [hmanager]
    rfl
  have hw' : w'.Accounted := by
    refine hw.removes hreq hcell (by rw [hmanager]; rfl) ?_ nofun rfl ?_ ?_ ?_
    · rw [hcounters]
      exact hw.bounded
    · intro h c _ _
      refine ⟨by rw [hcounters], ?_⟩
      have := countP_set_counted hi r' c
      unfold AcestreamWorker.connectedOn
      rw [hreq]
      rw [r.counted_eq_none hcon] at this
      exact this
    · rw [hreq]
      exact List.forall_mem_set hunheld fun c _ => nofun
    · rw [htasks]
      exact fun t ht => .inl ht
  refine ⟨hw', hw.stepAccounts e hw' ?_ ?_ ?_⟩
  · intro h c hc
    rw [hcell] at hc
    by_cases hh : h = r.infohash
    · rw [hh, Function.update_self] at hc
      cases hc
    · rw [Function.update_of_ne hh] at hc
      exact .inl hc
  · rw [hcounters]
    exact fun c => Nat.le_succ _
  · rw [hcounters]
    exact fun _ _ _ hc => .inl hc

omit hw in
/-- What is left of the clients when `r` is closed. -/
theorem countP_closed {c : ℕ} (hcounted : r.counted = some c) (d : ℕ) :
    (w.requests.set i { r with phase := .closed }).countP (fun r => r.counted = some d) +
      (if c = d then 1 else 0) = w.connectedOn d := by
  have := countP_set_counted hi { r with phase := .closed } d
  have hnone : ({ r with phase := .closed } : AcestreamRequest).counted = none := rfl
  simpa only [hnone, reduceCtorEq, if_false, add_zero, hcounted, Option.some.injEq, connectedOn]
    using this

/-- The last client leaves, and the session goes with it. -/
theorem Accounted.sound_releaseLast {s : AcestreamSession}
    (hs : w.manager.sessions r.infohash = some s) (hcounted : r.counted = some s.clientCount)
    (hlast : w.manager.counters s.clientCount = 1) (horderly : w.LeavesOrderly r.infohash) :
    Sound w e ((w.release now r.infohash).goTo i r .closed) := by
  have hcell : w.cell r.infohash = some s.clientCount := by rw [cell, hs]; rfl
  have hset := countP_closed hi hcounted
  unfold release
  rw [releaseClient_last hs hlast]
  dsimp only
  set w' := AcestreamWorker.goTo (AcestreamWorker.setFate _ s.clientCount .released) i r .closed
  have hcell' : w'.cell = Function.update w.cell r.infohash none := cell_of_update none rfl
  have hcounters : w'.manager.counters = Function.update w.manager.counters s.clientCount 0 := rfl
  have hle (d : ℕ) : w'.manager.counters d ≤ w.manager.counters d := by
    rw [hcounters]
    by_cases hd : d = s.clientCount
    · rw [hd, Function.update_self]
      exact Nat.zero_le _
    · rw [Function.update_of_ne hd]
  have hzero : w'.connectedOn s.clientCount = 0 := by
    have := hset s.clientCount
    rw [if_pos rfl, ← hw.counts _ _ hcell, hlast] at this
    exact Nat.succ_injective this
  have hstored {h : Str} {d : ℕ} (hd : w'.cell h = some d) : w.cell h = some d ∧ d ≠ s.clientCount := by
    rw [hcell'] at hd
    by_cases hh : h = r.infohash
    · rw [hh, Function.update_self] at hd
      cases hd
    · rw [Function.update_of_ne hh] at hd
      refine ⟨hd, ?_⟩
      rintro rfl
      exact hh (hw.distinct _ _ _ hd hcell)
  have hw' : w'.Accounted := by
    refine hw.removes (q := { r with phase := .closed }) rfl hcell' rfl
      (fun d => (hle d).trans_lt (hw.bounded d)) nofun rfl ?_ ?_ ?_
    · intro h d hh hd
      have hne : s.clientCount ≠ d := by
        rintro rfl
        exact hh (hw.distinct _ _ _ hd hcell)
      refine ⟨by rw [hcounters, Function.update_of_ne hne.symm], ?_⟩
      have := hset d
      rwa [if_neg hne] at this
    · intro r₂ hr₂ d hd hheld
      rw [hcell] at hd
      cases hd
      rcases List.mem_or_eq_of_mem_set hr₂ with hmem | rfl
      · -- whoever else has the session is connected, so it was counted there
        have hconn := horderly _ hcell hlast r₂ hmem hheld
        have hpos := connectedOn_pos_iff.mpr ⟨r₂, hr₂, (hw.counted r₂ hmem hconn).trans hheld⟩
        exact hpos.ne' hzero
      · cases hheld
    · intro t ht
      rcases List.mem_append.mp ht with ht | ht
      · exact .inl ht
      · rw [List.mem_singleton.mp ht]
        exact .inr hcell
  refine ⟨hw', hw.stepAccounts e hw' (fun _ _ hd => .inl (hstored hd).1) ?_ ?_⟩
  · exact fun d => (hle d).trans (Nat.le_succ _)
  · intro h d hd hzero'
    rw [hcounters, Function.update_of_ne (hstored hd).2] at hzero'
    exact .inl hzero'

/-- A client leaves, and another one stays. -/
theorem Accounted.sound_releaseMore {s : AcestreamSession}
    (hs : w.manager.sessions r.infohash = some s) (hcounted : r.counted = some s.clientCount)
    (hmore : 1 < w.manager.counters s.clientCount) :
    Sound w e ((w.release now r.infohash).goTo i r .closed) := by
  have hcell : w.cell r.infohash = some s.clientCount := by rw [cell, hs]; rfl
  have hset := countP_closed hi hcounted
  unfold release
  rw [releaseClient_more hs hmore (hw.bounded _)]
  dsimp only
  set w' := AcestreamWorker.goTo _ i r .closed
  have hcounters : w'.manager.counters = Function.update w.manager.counters s.clientCount
      (w.manager.counters s.clientCount - 1) := rfl
  have hle (d : ℕ) : w'.manager.counters d ≤ w.manager.counters d := by
    rw [hcounters]
    by_cases hd : d = s.clientCount
    · rw [hd, Function.update_self]
      exact Nat.sub_le _ _
    · rw [Function.update_of_ne hd]
  have hw' : w'.Accounted := by
    refine ⟨?_, ?_, ?_, hw.distinct, hw.fresh, fun d => (hle d).trans_lt (hw.bounded d), hw.tasks⟩
    · intro h d hd
      have hd' := hset d
      have hcounts := hw.counts h d hd
      show w'.manager.counters d = (w.requests.set i _).countP _
      rw [hcounters]
      by_cases hds : d = s.clientCount
      · rw [if_pos hds.symm] at hd'
        rw [hds, Function.update_self, ← hds, hcounts, ← hd']
        rfl
      · rw [if_neg (Ne.symm hds)] at hd'
        rw [Function.update_of_ne hds, hcounts]
        exact hd'.symm
    · exact List.forall_mem_set hw.held fun _ hc => nomatch hc
    · exact List.forall_mem_set hw.counted fun hc => nomatch hc
  refine ⟨hw', hw.stepAccounts e hw' (fun _ _ hc => .inl hc) ?_ ?_⟩
  · exact fun d => (hle d).trans (Nat.le_succ _)
  · intro h d _ hzero
    rw [hcounters] at hzero
    by_cases hds : d = s.clientCount
    · rw [hds, Function.update_self] at hzero
      omega
    · rw [Function.update_of_ne hds] at hzero
      exact .inl hzero

/-- A client leaves the session that it was counted on. -/
theorem Accounted.sound_release (hr : r.connected) (horderly : w.LeavesOrderly r.infohash) :
    Sound w e ((w.release now r.infohash).goTo i r .closed) := by
  have hmem := List.mem_of_getElem? hi
  obtain ⟨c, hheld⟩ := r.held_of_connected hr
  have hcounted : r.counted = some c := (hw.counted r hmem hr).trans hheld
  have hcell := hw.held r hmem c hheld
  obtain ⟨s, hs, rfl⟩ := Option.map_eq_some_iff.mp hcell
  have hpos : 0 < w.manager.counters s.clientCount := by
    rw [hw.counts _ _ hcell]
    exact connectedOn_pos_iff.mpr ⟨r, hmem, hcounted⟩
  obtain hlast | hmore : w.manager.counters s.clientCount = 1 ∨ 1 < _ := by
    rcases Nat.lt_or_ge 1 (w.manager.counters s.clientCount) with h | h
    · exact .inr h
    · exact .inl (le_antisymm h hpos)
  · exact hw.sound_releaseLast e hi hs hcounted hlast horderly
  · exact hw.sound_releaseMore e hi hs hcounted hmore

omit hi in
theorem Accounted.sound_graceOver (k : ℕ) (t : StopTask) : Sound w e (w.runStop k t) := by
  have hcell : (w.runStop k t).cell = w.cell := by
    unfold cell
    rw [runStop_manager]
  have hw' : (w.runStop k t).Accounted := by
    refine ⟨?_, ?_, ?_, ?_, ?_, ?_, ?_⟩
    · unfold CountsMatch connectedOn
      rw [hcell, runStop_manager, runStop_requests]
      exact hw.counts
    · rw [runStop_requests, hcell]
      exact hw.held
    · rw [runStop_requests]
      exact hw.counted
    · rw [hcell]
      exact hw.distinct
    · rw [hcell, runStop_manager]
      exact hw.fresh
    · rw [runStop_manager]
      exact hw.bounded
    · rw [runStop_stopTasks, hcell, runStop_manager]
      exact fun t ht => hw.tasks t (List.mem_of_mem_eraseIdx ht)
  refine ⟨hw', hw.stepAccounts e hw' ?_ ?_ ?_⟩
  · rw [hcell]
    exact fun _ _ hc => .inl hc
  · rw [runStop_manager]
    exact fun _ => Nat.le_succ _
  · rw [runStop_manager]
    exact fun _ _ _ hc => .inl hc

end Steps

/-- **One step.** An orderly step keeps the invariant and the accounts. -/
theorem Accounted.step {w' : AcestreamWorker} {config : AcestreamConfig} {now : ℕ}
    {e : AcestreamEvent} (hw : w.Accounted) (hok : w.Orderly config e)
    (h : w.step config now e = some w') : Sound w e w' := by
  cases does_of_step h with
  | arrive handler isHead infohash contentId =>
    exact hw.sound_arrive _ handler isHead infohash contentId
  | lookup pid hi hr => exact hw.sound_lookup _ hi hr pid
  | reply reply hi hr => exact hw.sound_receive _ hi hr (hok _ _ hi hr)
  | connect hi hhandler hr => exact hw.sound_connect _ hi hhandler hr fun c => hok _ c hi
  | fetched forbidden hi _ hr => exact hw.sound_fetched _ hi hr (hok _ hi)
  | @opens i r s c hi hr =>
    have hmem := List.mem_of_getElem? hi
    -- the request keeps its session and its counter
    refine hw.sound_keeps _ hi (q := { r with phase := .streaming s c })
      ⟨rfl, rfl, rfl, rfl, rfl, ?_, ?_, ?_⟩
    · rw [AcestreamRequest.counted, AcestreamRequest.counted, hr]
    · intro d hd
      refine hw.held r hmem d ?_
      rw [AcestreamRequest.held, hr]
      exact hd
    · intro _
      have := hw.counted r hmem (by rw [AcestreamRequest.connected, hr])
      rw [AcestreamRequest.counted, AcestreamRequest.held, hr] at this
      exact this
  | fails hi hr =>
    exact hw.sound_release _ hi (by rw [AcestreamRequest.connected, hr]) (hok _ hi rfl)
  | disconnect hi hr =>
    exact hw.sound_release _ hi (by rw [AcestreamRequest.connected, hr]) (hok _ hi)
  | abandon hi hr =>
    refine hw.sound_goTo _ hi ?_ fun s c => ⟨nofun, nofun, nofun⟩
    intro hcon
    unfold AcestreamRequest.connected at hcon
    split at hcon
    · next s c hopening => exact hok _ s c hi hopening
    · next s c hstreaming => exact hr s c hstreaming
    · cases hcon
  | graceOver hk _ => exact hw.sound_graceOver _ _ _

end AcestreamWorker

/-- All workers keep the invariant in an orderly run. -/
theorem accounted_of_reaches {config : AcestreamConfig} {s : AcestreamServer}
    (hs : (acestreamServer config).Reaches (OrderlyClients config) s) (n : ℕ) :
    (s.workers n).Accounted := by
  revert n
  refine hs.invariant (P := fun s => ∀ n, (s.workers n).Accounted)
    (fun n => AcestreamWorker.accounted_new) ?_
  intro s e s' ih hok hstep n
  cases e with
  | tick elapsed =>
    cases hstep
    exact ih n
  | «at» k e =>
    obtain ⟨w', hw', rfl⟩ := Option.map_eq_some_iff.mp hstep
    by_cases hn : n = k
    · subst hn
      show (Function.update s.workers n w' n).Accounted
      rw [Function.update_self]
      exact ((ih n).step hok hw').1
    · show (Function.update s.workers k w' n).Accounted
      rw [Function.update_of_ne hn]
      exact ih n

/-- **Clients are accounted for** in every run whose steps are orderly. -/
theorem clientsAccounted (config : AcestreamConfig) :
    ClientsAccounted config (OrderlyClients config) := by
  intro s hs n
  have hw := accounted_of_reaches hs n
  exact ⟨hw.counts, fun e w' hok hstep => (hw.step hok hstep).2⟩

/-! ### A session replaced under its client -/

/-- The steps of stream request `i`, up to the stream. `pid` is drawn if a session is needed. -/
def startsStream (i : ℕ) (pid : Str) : List ServerEvent :=
  [.at 0 (.arrive .stream false "a1".toList none), .at 0 (.lookup i pid),
    .at 0 (.reply i startedReply), .at 0 (.connect i), .at 0 (.opened i true)]

/-- A client streams for more than 300 s without another request, and a second client joins: its
`get_or_create` replaces the stale session. -/
def joinsLate : List ServerEvent :=
  startsStream 0 "p1".toList ++ .tick (fromSecs 301) :: startsStream 1 "p2".toList

/-- **The first client takes the second one's session along.** When it leaves, `release_client`
finds the new session with a count of one, and removes it under the second client. -/
theorem clientsAccounted_fails : ¬ ClientsAccounted localEngine Machine.Anyhow := by
  intro h
  have hleaves : (((acestreamServer localEngine).run joinsLate).bind fun s =>
      ((s.workers 0).step localEngine s.now (.disconnect 0)).map fun w' =>
        ((s.workers 0).cell "a1".toList, w'.cell "a1".toList,
          w'.requests.any fun r => r.connected && r.held == some 1)) =
      some (some 1, none, true) := by decide +kernel
  obtain ⟨s, hs, hleaves⟩ := Option.bind_eq_some_iff.mp hleaves
  obtain ⟨w', hw', hfacts⟩ := Option.map_eq_some_iff.mp hleaves
  rw [Prod.mk.injEq, Prod.mk.injEq] at hfacts
  obtain ⟨hbefore, hafter, huses⟩ := hfacts
  obtain ⟨r, hr, hr1⟩ := List.any_eq_true.mp huses
  rw [Bool.and_eq_true, beq_iff_eq] at hr1
  have haccounts := ((h s (Machine.reaches_run hs) 0).2 _ w' trivial hw').removed _ _ hbefore
  exact haccounts (by rw [hafter]; nofun) r hr ⟨hr1.1, .inl hr1.2⟩

end MediaFlow
