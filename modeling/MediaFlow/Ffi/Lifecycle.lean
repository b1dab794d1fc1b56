import MediaFlow.Ffi.Server

/-!
# One server at a time

The handle should have one bound server at most, and a start that has returned `Ok` should leave a
server that runs until the first stop, which reaches it. The caller is told that the server is ready
before `is_running` is stored, and both start and stop look at the flag and act in later steps, so
some runs break this (`oneServer_fails`, `twoStarts_bound`). Runs in which no start begins while
another is under way, no start hears of its server before the flag is stored, no stop takes the
sender of a start that it was not the first to be called after, and no server ends by itself, keep it
(`oneServer`).

Such a run has one launch at a time, which goes through the stages of `Stage`.
-/

namespace MediaFlow

namespace MediaflowServer

variable (s : MediaflowServer)

/-- What is to hold in every state. -/
structure LifecycleHolds : Prop where
  oneBound : ∀ i k, (s.launches i).thread.isBound → (s.launches k).thread.isBound → i = k
  running : ∀ i ∈ s.unstopped, s.isRunning = true
  /-- The first stop after a start has returned `Ok`. -/
  stopped : ∀ j since status reached, s.stops j = .returned since status reached →
    ∀ i ∈ since, status = .ok ∧ reached = some i

/-- **The condition on steps.** A start finds the flag false only if no other is under way; it hears of
its server only after the flag is stored; a stop takes the sender of a start only if it was the first
to be called after that had returned; and a server ends by itself only after its stop. -/
def Orderly : FfiEvent → Prop
  | .check _ => s.isRunning = false → ∀ k, (s.launches k).call.pending = false
  | .recv i => ∀ p, (s.launches i).thread ≠ .signalled p
  | .take j => ∀ since, s.stops j = .loaded since → ∀ i, s.shutdownTx = some i → i ∈ since
  | .finish i => (s.launches i).resolved = true
  | _ => True

end MediaflowServer

/-- In every run whose steps all meet `ok`, the lifecycle holds in every state. -/
def OneServer (port : ℕ) (ok : MediaflowServer → FfiEvent → Prop) : Prop :=
  ∀ s, (serverMachine port).Reaches ok s → s.LifecycleHolds

/-! ### The stages of a launch -/

namespace ServerThread

/-- Both with the flag stored, and with the receiver of the shutdown channel. -/
def serves : ServerThread → Bool
  | raised _ | serving _ => true
  | _ => false

/-- The flag is stored, and not taken back yet. -/
def flies : ServerThread → Bool
  | raised _ | serving _ | stopping _ | stopped => true
  | _ => false

variable {t : ServerThread}

theorem flies_of_serves (h : t.serves) : t.flies := by
  cases t <;> first | rfl | cases h

theorem hasReceiver_of_serves (h : t.serves) : t.hasReceiver := by
  cases t <;> first | rfl | cases h

end ServerThread

/-- The stages of launch `i`, with the sender that is kept and the flag. -/
inductive Stage (i : ℕ) : Launch → Option ℕ → Bool → Prop
  | checked : Stage i ⟨.checked, .unspawned, .pending, false⟩ none false
  | starting : Stage i ⟨.waiting, .starting, .pending, false⟩ none false
  | failed {m : ReadySignal} : (∀ p, m ≠ .bound p) →
      Stage i ⟨.waiting, .exited, m, false⟩ none false
  | bound {p : ℕ} : Stage i ⟨.waiting, .bound p, .pending, false⟩ none false
  | signalled {p : ℕ} : Stage i ⟨.waiting, .signalled p, .bound p, false⟩ none false
  | raised {t : ServerThread} {p : ℕ} : t.serves → Stage i ⟨.waiting, t, .bound p, false⟩ none true
  | received {t : ServerThread} {p q : ℕ} : t.serves →
      Stage i ⟨.received q, t, .bound p, false⟩ none true
  | published {t : ServerThread} {p : ℕ} : t.serves →
      Stage i ⟨.published, t, .bound p, false⟩ none true
  | kept {t : ServerThread} {p : ℕ} : t.serves →
      Stage i ⟨.returned .ok, t, .bound p, false⟩ (some i) true
  | stopped {t : ServerThread} {p : ℕ} : t.flies →
      Stage i ⟨.returned .ok, t, .bound p, true⟩ none true

/-- A launch that is not made, or is over. -/
def Rests (l : Launch) : Prop :=
  l.call.pending = false ∧ (l.thread = .unspawned ∨ l.thread = .exited)

namespace Stage

variable {i : ℕ} {l : Launch} {tx : Option ℕ} {running : Bool}

/-- A kept sender is that of the launch, which serves. -/
theorem of_kept {k : ℕ} (h : Stage i l (some k) running) :
    k = i ∧ running = true ∧ l.call = .returned .ok ∧ l.thread.serves ∧
      Stage i { l with resolved := true } none true := by
  cases h with
  | kept hserves => exact ⟨rfl, rfl, rfl, hserves, .stopped (ServerThread.flies_of_serves hserves)⟩

/-- A call that is under way keeps no sender. -/
theorem tx_of_pending (h : Stage i l tx running) (hl : l.call.pending) : tx = none := by
  cases h <;> first | rfl | cases hl

theorem running_of_call (h : Stage i l tx running) (hl : l.call.pending = false) :
    running = true := by
  cases h <;> first | rfl | cases hl

theorem call_ne_idle (h : Stage i l tx running) : l.call ≠ .idle := by
  cases h <;> exact nofun

/-! #### The steps of the call -/

theorem spawn (h : Stage i l tx running) (hl : l.call = .checked) :
    Stage i ⟨.waiting, .starting, .pending, false⟩ tx running := by
  cases h <;> first | exact .starting | cases hl

theorem receive (h : Stage i l tx running) (hl : l.call = .waiting) {p : ℕ}
    (hready : l.ready = .bound p) (horderly : ∀ q, l.thread ≠ .signalled q) :
    Stage i { l with call := .received p } tx running := by
  cases h with
  | failed hm => exact absurd hready (hm p)
  | signalled => exact absurd rfl (horderly _)
  | raised hserves => exact .received hserves
  | checked | received _ | published _ | kept _ | stopped _ => cases hl
  | starting | bound => cases hready

/-- After an error the thread has ended. -/
theorem receive_error (h : Stage i l tx running) (hl : l.call = .waiting)
    (hready : l.ready = .failed ∨ l.ready = .closed) :
    l.thread = .exited ∧ tx = none ∧ running = false := by
  cases h with
  | failed _ => exact ⟨rfl, rfl, rfl⟩
  | checked | received _ | published _ | kept _ | stopped _ => cases hl
  | starting | bound | signalled | raised _ => rcases hready with h | h <;> cases h

theorem publish (h : Stage i l tx running) {p : ℕ} (hl : l.call = .received p) :
    Stage i { l with call := .published } tx running := by
  cases h with
  | received hserves => exact .published hserves
  | _ => cases hl

theorem keep (h : Stage i l tx running) (hl : l.call = .published) :
    Stage i { l with call := .returned .ok } (some i) running := by
  cases h with
  | published hserves => exact .kept hserves
  | _ => cases hl

/-! #### The steps of the thread -/

theorem fail (h : Stage i l tx running) (hl : l.thread = .starting) {m : ReadySignal}
    (hm : ∀ p, m ≠ .bound p) :
    Stage i { l with thread := .exited, ready := m } tx running := by
  cases h with
  | starting => exact .failed hm
  | raised ht | received ht | published ht | kept ht | stopped ht => cases hl; cases ht
  | _ => cases hl

theorem bind (h : Stage i l tx running) (hl : l.thread = .starting) (p : ℕ) :
    Stage i { l with thread := .bound p } tx running := by
  cases h with
  | starting => exact .bound
  | raised ht | received ht | published ht | kept ht | stopped ht => cases hl; cases ht
  | _ => cases hl

theorem signal (h : Stage i l tx running) {p : ℕ} (hl : l.thread = .bound p) :
    Stage i { l with thread := .signalled p, ready := .bound p } tx running := by
  cases h with
  | bound => exact .signalled
  | raised ht | received ht | published ht | kept ht | stopped ht => cases hl; cases ht
  | _ => cases hl

theorem raise (h : Stage i l tx running) {p : ℕ} (hl : l.thread = .signalled p) :
    Stage i { l with thread := .raised p } tx true := by
  cases h with
  | signalled => exact .raised rfl
  | raised ht | received ht | published ht | kept ht | stopped ht => cases hl; cases ht
  | _ => cases hl

theorem serve (h : Stage i l tx running) {p : ℕ} (hl : l.thread = .raised p) :
    Stage i { l with thread := .serving p } tx running := by
  cases h with
  | raised _ => exact .raised rfl
  | received _ => exact .received rfl
  | published _ => exact .published rfl
  | kept _ => exact .kept rfl
  | stopped _ => exact .stopped rfl
  | _ => cases hl

/-- Only a launch that was stopped gets a thread that does not serve. -/
theorem leave (h : Stage i l tx running) (hl : l.thread.flies) (hresolved : l.resolved = true)
    {t : ServerThread} (ht : t.flies) : Stage i { l with thread := t } tx running := by
  cases h with
  | stopped _ => exact .stopped ht
  | raised _ | received _ | published _ | kept _ => cases hresolved
  | _ => cases hl

/-- A thread that stops was told to. -/
theorem resolved_of_stopping (h : Stage i l tx running) (hl : l.thread.flies)
    (hserves : l.thread.serves = false) : l.resolved = true := by
  cases h with
  | stopped _ => rfl
  | raised ht | received ht | published ht | kept ht => exact absurd ht (Bool.eq_false_iff.mp hserves)
  | _ => cases hl

theorem lower (h : Stage i l tx running) (hl : l.thread = .stopped) :
    l.call.pending = false ∧ tx = none := by
  cases h with
  | stopped _ => exact ⟨rfl, rfl⟩
  | raised ht | received ht | published ht | kept ht => cases hl; cases ht
  | _ => cases hl

end Stage

/-! ### The invariant -/

namespace MediaflowServer

open Function (update)

variable {s s' : MediaflowServer} {cur : Option ℕ}

/-- All launches but `cur` rest. -/
structure Lives (s : MediaflowServer) (cur : Option ℕ) : Prop where
  current : ∀ i, cur = some i → Stage i (s.launches i) s.shutdownTx s.isRunning
  vacant : cur = none → s.shutdownTx = none ∧ s.isRunning = false
  rests : ∀ k, cur ≠ some k → Rests (s.launches k)
  fresh : ∀ k, (s.launches k).call = .idle →
    s.launches k = ⟨.idle, .unspawned, .pending, false⟩

/-- The kept sender is for the first stop after its start. -/
structure StopsKept (s : MediaflowServer) : Prop where
  unstopped : ∀ i ∈ s.unstopped, s.shutdownTx = some i ∧ ∀ j, i ∉ (s.stops j).since
  pending : ∀ j, (s.stops j).pending → ∀ i ∈ (s.stops j).since, s.shutdownTx = some i
  first : ∀ j j' i, i ∈ (s.stops j).since → i ∈ (s.stops j').since → j = j'
  returned : ∀ j since status reached, s.stops j = .returned since status reached →
    ∀ i ∈ since, status = .ok ∧ reached = some i
  started : ∀ j, ∀ i ∈ (s.stops j).since, (s.launches i).call = .returned .ok

/-- The invariant of orderly runs. -/
def Alone (s : MediaflowServer) : Prop := ∃ cur, s.Lives cur ∧ s.StopsKept

theorem alone_create (port : ℕ) : (create port).Alone :=
  ⟨none,
    { current := fun _ h => nomatch h
      vacant := fun _ => ⟨rfl, rfl⟩
      rests := fun _ _ => ⟨rfl, .inl rfl⟩
      fresh := fun _ _ => rfl },
    { unstopped := fun _ h => nomatch h
      pending := fun _ h => nomatch h
      first := fun _ _ _ h => nomatch h
      returned := fun _ _ _ _ h => nomatch h
      started := fun _ _ h => nomatch h }⟩

namespace Lives

theorem current_of_call (h : s.Lives cur) {i : ℕ} {c : StartCall} (hi : (s.launches i).call = c)
    (hc : c.pending) : cur = some i := by
  by_contra hcur
  exact absurd (hi ▸ hc) (Bool.eq_false_iff.mp (h.rests i hcur).1)

theorem current_of_thread (h : s.Lives cur) {i : ℕ} {t : ServerThread}
    (hi : (s.launches i).thread = t) (ht : t ≠ .unspawned) (ht' : t ≠ .exited) : cur = some i := by
  by_contra hcur
  obtain hrests | hrests := (h.rests i hcur).2
  · exact ht (hi.symm.trans hrests)
  · exact ht' (hi.symm.trans hrests)

/-- A kept sender is that of the current launch. -/
theorem current_of_kept (h : s.Lives cur) {i : ℕ} (htx : s.shutdownTx = some i) :
    cur = some i ∧ s.isRunning = true ∧ (s.launches i).call = .returned .ok ∧
      (s.launches i).thread.serves ∧
      Stage i { s.launches i with resolved := true } none true := by
  cases cur with
  | none =>
    rw [(h.vacant rfl).1] at htx
    cases htx
  | some k =>
    have hstage := h.current k rfl
    rw [htx] at hstage
    obtain ⟨rfl, hrest⟩ := hstage.of_kept
    exact ⟨rfl, hrest⟩

/-- The other launches rest as before. -/
theorem rests_of_update {i : ℕ} {l : Launch} (h : s.Lives cur)
    (hl : s'.launches = update s.launches i l) (hrests : Rests l) {k : ℕ}
    (hk : k ≠ i → cur ≠ some k) : Rests (s'.launches k) := by
  rw [hl]
  by_cases hki : k = i
  · rw [hki, Function.update_self]
    exact hrests
  · rw [Function.update_of_ne hki]
    exact h.rests k (hk hki)

theorem fresh_of_update {i : ℕ} {l : Launch} (h : s.Lives cur)
    (hl : s'.launches = update s.launches i l) (hcall : l.call ≠ .idle) (k : ℕ)
    (hidle : (s'.launches k).call = .idle) :
    s'.launches k = ⟨.idle, .unspawned, .pending, false⟩ := by
  rw [hl] at hidle ⊢
  by_cases hki : k = i
  · rw [hki, Function.update_self] at hidle
    exact absurd hidle hcall
  · rw [Function.update_of_ne hki] at hidle ⊢
    exact h.fresh k hidle

/-- The current launch goes on to `l`. -/
theorem goes_on {i : ℕ} {l : Launch} (h : s.Lives (some i))
    (hl : s'.launches = update s.launches i l) (hstage : Stage i l s'.shutdownTx s'.isRunning) :
    s'.Lives (some i) where
  current := by
    rintro _ ⟨⟩
    rwa [hl, Function.update_self]
  vacant := nofun
  rests := by
    intro k hk
    have hki : k ≠ i := fun heq => hk (congrArg some heq.symm)
    rw [hl, Function.update_of_ne hki]
    exact h.rests k hk
  fresh := h.fresh_of_update hl hstage.call_ne_idle

/-- A launch that is not the current one goes to rest, or stays there. -/
theorem rest {i : ℕ} {l : Launch} (h : s.Lives cur) (hcur : cur ≠ some i)
    (hl : s'.launches = update s.launches i l) (hrests : Rests l) (hcall : l.call ≠ .idle)
    (htx : s'.shutdownTx = s.shutdownTx) (hrunning : s'.isRunning = s.isRunning) :
    s'.Lives cur where
  current := by
    intro k hk
    have hki : k ≠ i := fun heq => hcur (heq ▸ hk)
    rw [hl, Function.update_of_ne hki, htx, hrunning]
    exact h.current k hk
  vacant := by
    rw [htx, hrunning]
    exact h.vacant
  rests _ hk := h.rests_of_update hl hrests fun _ => hk
  fresh := h.fresh_of_update hl hcall

/-- The current launch is over. -/
theorem ends {i : ℕ} {l : Launch} (h : s.Lives (some i))
    (hl : s'.launches = update s.launches i l) (hrests : Rests l) (hcall : l.call ≠ .idle)
    (htx : s'.shutdownTx = none) (hrunning : s'.isRunning = false) : s'.Lives none where
  current := nofun
  vacant _ := ⟨htx, hrunning⟩
  rests _ _ := h.rests_of_update hl hrests fun hki heq => hki (Option.some.inj heq).symm
  fresh := h.fresh_of_update hl hcall

end Lives

namespace StopsKept

/-- The launches change, the stops do not. -/
theorem setLaunch {i : ℕ} {l : Launch} (h : s.StopsKept)
    (hl : s'.launches = update s.launches i l)
    (hcall : (s.launches i).call = .returned .ok → l.call = .returned .ok)
    (htx : s'.shutdownTx = s.shutdownTx) (hstops : s'.stops = s.stops)
    (hunstopped : s'.unstopped = s.unstopped) : s'.StopsKept where
  unstopped := by
    rw [hunstopped, htx, hstops]
    exact h.unstopped
  pending := by
    rw [htx, hstops]
    exact h.pending
  first := by
    rw [hstops]
    exact h.first
  returned := by
    rw [hstops]
    exact h.returned
  started := by
    intro j k hk
    rw [hstops] at hk
    have hok := h.started j k hk
    by_cases hki : k = i
    · rw [hki] at hok
      rw [hl, hki, Function.update_self]
      exact hcall hok
    · rw [hl, Function.update_of_ne hki]
      exact hok

/-- Where a stop is when it has not returned says nothing new about it. -/
theorem setStop {j : ℕ} {c : StopCall} (h : s.StopsKept) (hsince : c.since = (s.stops j).since)
    (hpending : c.pending → (s.stops j).pending)
    (hreturned : ∀ since status reached, c = .returned since status reached →
      ∀ i ∈ since, status = .ok ∧ reached = some i) : (s.setStop j c).StopsKept := by
  have hsame (k : ℕ) : ((s.setStop j c).stops k).since = (s.stops k).since := by
    change (update s.stops j c k).since = _
    by_cases hkj : k = j
    · rw [hkj, Function.update_self]
      exact hsince
    · rw [Function.update_of_ne hkj]
  refine ⟨?_, ?_, ?_, ?_, ?_⟩
  · intro i hi
    refine ⟨(h.unstopped i hi).1, fun k => ?_⟩
    rw [hsame]
    exact (h.unstopped i hi).2 k
  · intro k hk
    rw [hsame]
    refine h.pending k ?_
    by_cases hkj : k = j
    · rw [hkj] at hk ⊢
      rw [show (s.setStop j c).stops j = c from Function.update_self ..] at hk
      exact hpending hk
    · rwa [show (s.setStop j c).stops k = s.stops k from Function.update_of_ne hkj ..] at hk
  · intro k k' i hk hk'
    rw [hsame] at hk hk'
    exact h.first k k' i hk hk'
  · intro k since status reached hk
    by_cases hkj : k = j
    · rw [hkj, show (s.setStop j c).stops j = c from Function.update_self ..] at hk
      exact hreturned since status reached hk
    · rw [show (s.setStop j c).stops k = s.stops k from Function.update_of_ne hkj ..] at hk
      exact h.returned k since status reached hk
  · intro k i hi
    rw [hsame] at hi
    exact h.started k i hi

/-- A stop is called: it is the first one after the starts that were waiting for one. -/
theorem callStop {j : ℕ} (h : s.StopsKept)
    (hstarted : ∀ i ∈ s.unstopped, (s.launches i).call = .returned .ok) :
    StopsKept { s.setStop j (.called s.unstopped) with unstopped := [] } := by
  -- a stop is `j`, or what it was
  have hcases (k : ℕ) : (k = j ∧ update s.stops j (.called s.unstopped) k = .called s.unstopped) ∨
      update s.stops j (.called s.unstopped) k = s.stops k := by
    by_cases hkj : k = j
    · exact .inl ⟨hkj, hkj ▸ Function.update_self ..⟩
    · exact .inr (Function.update_of_ne hkj ..)
  refine ⟨fun i hi => absurd hi List.not_mem_nil, ?_, ?_, ?_, ?_⟩
  · intro k hk i hi
    change (update s.stops j (.called s.unstopped) k).pending = true at hk
    change i ∈ (update s.stops j (.called s.unstopped) k).since at hi
    obtain ⟨-, hkc⟩ | hkc := hcases k
    · rw [hkc] at hi
      exact (h.unstopped i hi).1
    · rw [hkc] at hk hi
      exact h.pending k hk i hi
  · intro k k' i hk hk'
    change i ∈ (update s.stops j (.called s.unstopped) k).since at hk
    change i ∈ (update s.stops j (.called s.unstopped) k').since at hk'
    obtain ⟨rfl, hkc⟩ | hkc := hcases k
    · obtain ⟨rfl, -⟩ | hkc' := hcases k'
      · rfl
      · rw [hkc] at hk
        rw [hkc'] at hk'
        exact absurd hk' ((h.unstopped i hk).2 k')
    · obtain ⟨rfl, hkc'⟩ | hkc' := hcases k'
      · rw [hkc] at hk
        rw [hkc'] at hk'
        exact absurd hk ((h.unstopped i hk').2 k)
      · rw [hkc] at hk
        rw [hkc'] at hk'
        exact h.first k k' i hk hk'
  · intro k since status reached hk
    change update s.stops j (.called s.unstopped) k = .returned since status reached at hk
    obtain ⟨-, hkc⟩ | hkc := hcases k
    · rw [hkc] at hk
      cases hk
    · rw [hkc] at hk
      exact h.returned k since status reached hk
  · intro k i hi
    change i ∈ (update s.stops j (.called s.unstopped) k).since at hi
    obtain ⟨-, hkc⟩ | hkc := hcases k
    · rw [hkc] at hi
      exact hstarted i hi
    · rw [hkc] at hi
      exact h.started k i hi

/-- The start returns, and waits for a stop. -/
theorem keep {i : ℕ} {l : Launch} (h : s.StopsKept) (htx : s.shutdownTx = none)
    (hi : (s.launches i).call ≠ .returned .ok) :
    StopsKept { s.setLaunch i l with shutdownTx := some i, unstopped := i :: s.unstopped } := by
  have hkept {k : ℕ} (hk : s.shutdownTx = some k) : False := by
    rw [htx] at hk
    cases hk
  refine ⟨?_, ?_, h.first, h.returned, ?_⟩
  · intro k hk
    obtain rfl | hk := List.mem_cons.mp hk
    · exact ⟨rfl, fun j hj => hi (h.started j k hj)⟩
    · exact (hkept (h.unstopped k hk).1).elim
  · exact fun j hj k hk => (hkept (h.pending j hj k hk)).elim
  · intro j k hk
    have hok := h.started j k hk
    have hki : k ≠ i := by
      rintro rfl
      exact hi hok
    change (update s.launches i l k).call = .returned .ok
    rw [Function.update_of_ne hki]
    exact hok

/-- The first stop takes the sender. -/
theorem take {i j : ℕ} {since : List ℕ} {l : Launch} (h : s.StopsKept)
    (htx : s.shutdownTx = some i) (hj : s.stops j = .loaded since) (hi : i ∈ since)
    (hl : l.call = .returned .ok) :
    StopsKept { (s.setLaunch i l).setStop j (.returned since .ok (some i)) with
      shutdownTx := none } := by
  have hsince : (s.stops j).since = since := by rw [hj]; rfl
  have hself {k : ℕ} (hk : s.shutdownTx = some k) : k = i :=
    (Option.some.inj (htx.symm.trans hk)).symm
  have hcases (k : ℕ) : (k = j ∧ update s.stops j (.returned since .ok (some i)) k =
      .returned since .ok (some i)) ∨
      k ≠ j ∧ update s.stops j (.returned since .ok (some i)) k = s.stops k := by
    by_cases hkj : k = j
    · exact .inl ⟨hkj, hkj ▸ Function.update_self ..⟩
    · exact .inr ⟨hkj, Function.update_of_ne hkj ..⟩
  have hsame (k : ℕ) : (update s.stops j (.returned since .ok (some i)) k).since =
      (s.stops k).since := by
    obtain ⟨rfl, hkc⟩ | ⟨-, hkc⟩ := hcases k
    · rw [hkc, hsince]
      rfl
    · rw [hkc]
  refine ⟨?_, ?_, ?_, ?_, ?_⟩
  · intro k hk
    obtain ⟨hkept, hnone⟩ := h.unstopped k hk
    obtain rfl := hself hkept
    exact absurd (hsince ▸ hi) (hnone j)
  · intro k hk m hm
    change (update s.stops j (.returned since .ok (some i)) k).pending = true at hk
    change m ∈ (update s.stops j (.returned since .ok (some i)) k).since at hm
    rw [hsame] at hm
    obtain ⟨-, hkc⟩ | ⟨hkj, hkc⟩ := hcases k
    · rw [hkc] at hk
      cases hk
    · -- another stop that waits for this sender would be the first one, too
      rw [hkc] at hk
      obtain rfl := hself (h.pending k hk m hm)
      exact absurd (h.first k j m hm (hsince ▸ hi)) hkj
  · intro k k' m hk hk'
    change m ∈ (update s.stops j (.returned since .ok (some i)) k).since at hk
    change m ∈ (update s.stops j (.returned since .ok (some i)) k').since at hk'
    rw [hsame] at hk hk'
    exact h.first k k' m hk hk'
  · intro k since' status reached hk m hm
    change update s.stops j (.returned since .ok (some i)) k = .returned since' status reached at hk
    obtain ⟨-, hkc⟩ | ⟨-, hkc⟩ := hcases k
    · rw [hkc] at hk
      cases hk
      have hpending : (s.stops j).pending := by rw [hj]; rfl
      exact ⟨rfl, congrArg some (hself (h.pending j hpending m (hsince ▸ hm))).symm⟩
    · rw [hkc] at hk
      exact h.returned k since' status reached hk m hm
  · intro k m hm
    change m ∈ (update s.stops j (.returned since .ok (some i)) k).since at hm
    rw [hsame] at hm
    have hok := h.started k m hm
    change (update s.launches i l m).call = .returned .ok
    by_cases hmi : m = i
    · rw [hmi, Function.update_self]
      exact hl
    · rw [Function.update_of_ne hmi]
      exact hok

end StopsKept

/-! ### One step -/

/-- The current launch goes on, and nothing else changes. -/
theorem Lives.alone {i : ℕ} {l : Launch} (h : s.Lives cur) (hs : s.StopsKept) (hcur : cur = some i)
    (hl : s'.launches = update s.launches i l) (hstage : Stage i l s'.shutdownTx s'.isRunning)
    (hcall : (s.launches i).call = .returned .ok → l.call = .returned .ok)
    (htx : s'.shutdownTx = s.shutdownTx) (hstops : s'.stops = s.stops)
    (hunstopped : s'.unstopped = s.unstopped) : s'.Alone := by
  subst hcur
  exact ⟨some i, h.goes_on hl hstage, hs.setLaunch hl hcall htx hstops hunstopped⟩

/-- The current launch is over, and the stops stay as they are. -/
theorem Lives.alone_of_ends {i : ℕ} {l : Launch} (h : s.Lives cur) (hs : s.StopsKept)
    (hcur : cur = some i) (hl : s'.launches = update s.launches i l) (hrests : Rests l)
    (hidle : l.call ≠ .idle)
    (hcall : (s.launches i).call = .returned .ok → l.call = .returned .ok)
    (htx : s.shutdownTx = none) (htx' : s'.shutdownTx = none) (hrunning : s'.isRunning = false)
    (hstops : s'.stops = s.stops) (hunstopped : s'.unstopped = s.unstopped) : s'.Alone := by
  subst hcur
  exact ⟨none, h.ends hl hrests hidle htx' hrunning,
    hs.setLaunch hl hcall (htx'.trans htx.symm) hstops hunstopped⟩

/-- A start begins. -/
theorem Lives.check {i : ℕ} (h : s.Lives cur) (hs : s.StopsKept)
    (hi : (s.launches i).call = .idle)
    (hok : s.isRunning = false → ∀ k, (s.launches k).call.pending = false) :
    (s.setCall i (if s.isRunning then .returned .errAlreadyRunning else .checked)).Alone := by
  have hnot : (s.launches i).call ≠ .returned .ok := by
    rw [hi]
    exact nofun
  have hkeep {l : Launch} : (s.setLaunch i l).StopsKept :=
    hs.setLaunch rfl (fun hcall => absurd hcall hnot) rfl rfl rfl
  cases hrunning : s.isRunning with
  | true =>
    have hcur : cur ≠ some i := fun heq => (h.current i heq).call_ne_idle hi
    have hthread := (h.rests i hcur).2
    exact ⟨cur, h.rest hcur rfl ⟨rfl, hthread⟩ nofun rfl rfl, hkeep⟩
  | false =>
    cases cur with
    | none =>
      -- nothing is under way, and the launch is a new one
      obtain ⟨htx, -⟩ := h.vacant rfl
      have hfresh := h.fresh i hi
      refine ⟨some i, ?_, hkeep⟩
      refine ⟨?_, nofun, ?_, ?_⟩
      · rintro _ ⟨⟩
        change Stage i (update s.launches i _ i) s.shutdownTx s.isRunning
        rw [Function.update_self, hfresh, htx, hrunning]
        exact .checked
      · intro k hk
        have hki : k ≠ i := fun heq => hk (congrArg some heq.symm)
        change Rests (update s.launches i _ k)
        rw [Function.update_of_ne hki]
        exact h.rests k nofun
      · intro k
        change (update s.launches i _ k).call = .idle → update s.launches i _ k = _
        by_cases hki : k = i
        · rw [hki, Function.update_self]
          exact nofun
        · rw [Function.update_of_ne hki]
          exact h.fresh k
    | some k =>
      have hcall := (h.current k rfl).running_of_call (hok hrunning k)
      rw [hrunning] at hcall
      cases hcall

/-- One orderly step. -/
theorem Alone.step {e : FfiEvent} (h : s.Alone) (hok : s.Orderly e) (hstep : s.step e = some s') :
    s'.Alone := by
  obtain ⟨cur, hl, hs⟩ := h
  cases e with
  | check i =>
    simp only [MediaflowServer.step] at hstep
    split at hstep
    · next hi =>
      cases hstep
      exact hl.check hs hi hok
    · cases hstep
  | spawn i =>
    simp only [MediaflowServer.step] at hstep
    split at hstep
    · next hi =>
      cases hstep
      have hcur := hl.current_of_call hi rfl
      refine hl.alone hs hcur rfl ((hl.current i hcur).spawn hi) (fun hcall => ?_) rfl rfl rfl
      rw [hi] at hcall
      cases hcall
    · cases hstep
  | recv i =>
    simp only [MediaflowServer.step] at hstep
    split at hstep
    · next hi =>
      have hcur := hl.current_of_call hi rfl
      have hstage := hl.current i hcur
      have hcall {c : StartCall} (h : (s.launches i).call = .returned .ok) : c = .returned .ok := by
        rw [hi] at h
        cases h
      unfold receive at hstep
      split at hstep
      · cases hstep
      · next p hready =>
        cases hstep
        exact hl.alone hs hcur rfl (hstage.receive hi hready hok) hcall rfl rfl rfl
      · next hready =>
        cases hstep
        obtain ⟨hexited, htx, hrunning⟩ := hstage.receive_error hi (.inl hready)
        exact hl.alone_of_ends hs hcur rfl ⟨rfl, .inr hexited⟩ nofun hcall htx htx hrunning rfl rfl
      · next hready =>
        cases hstep
        obtain ⟨hexited, htx, hrunning⟩ := hstage.receive_error hi (.inr hready)
        exact hl.alone_of_ends hs hcur rfl ⟨rfl, .inr hexited⟩ nofun hcall htx htx hrunning rfl rfl
    · cases hstep
  | publish i =>
    simp only [MediaflowServer.step] at hstep
    split at hstep
    · next p hi =>
      cases hstep
      have hcur := hl.current_of_call hi rfl
      refine hl.alone hs hcur rfl ((hl.current i hcur).publish hi) (fun hcall => ?_) rfl rfl rfl
      rw [hi] at hcall
      cases hcall
    · cases hstep
  | keep i =>
    simp only [MediaflowServer.step] at hstep
    split at hstep
    · next hi =>
      have hcur := hl.current_of_call hi rfl
      have hstage := hl.current i hcur
      have htx := hstage.tx_of_pending (by rw [hi]; rfl)
      have hcall : (s.launches i).call ≠ .returned .ok := by
        rw [hi]
        exact nofun
      -- there is no sender that could be dropped
      rw [htx] at hstep
      cases hstep
      subst hcur
      exact ⟨some i, hl.goes_on rfl (hstage.keep hi), hs.keep htx hcall⟩
    · cases hstep
  | fail i | die i =>
    simp only [MediaflowServer.step] at hstep
    split at hstep
    · next hi =>
      cases hstep
      have hcur := hl.current_of_thread hi nofun nofun
      exact hl.alone hs hcur rfl ((hl.current i hcur).fail hi nofun) id rfl rfl rfl
    · cases hstep
  | bind i p =>
    simp only [MediaflowServer.step] at hstep
    split at hstep
    · next hi =>
      cases hstep
      have hcur := hl.current_of_thread hi.1 nofun nofun
      exact hl.alone hs hcur rfl ((hl.current i hcur).bind hi.1 p) id rfl rfl rfl
    · cases hstep
  | signal i =>
    simp only [MediaflowServer.step] at hstep
    split at hstep
    · next p hi =>
      cases hstep
      have hcur := hl.current_of_thread hi nofun nofun
      exact hl.alone hs hcur rfl ((hl.current i hcur).signal hi) id rfl rfl rfl
    · cases hstep
  | raise i =>
    simp only [MediaflowServer.step] at hstep
    split at hstep
    · next p hi =>
      cases hstep
      have hcur := hl.current_of_thread hi nofun nofun
      exact hl.alone hs hcur rfl ((hl.current i hcur).raise hi) id rfl rfl rfl
    · cases hstep
  | serve i =>
    simp only [MediaflowServer.step] at hstep
    split at hstep
    · next p hi =>
      cases hstep
      have hcur := hl.current_of_thread hi nofun nofun
      exact hl.alone hs hcur rfl ((hl.current i hcur).serve hi) id rfl rfl rfl
    · cases hstep
  | finish i =>
    simp only [MediaflowServer.step] at hstep
    split at hstep
    · next p hi =>
      cases hstep
      have hcur := hl.current_of_thread hi nofun nofun
      have hflies : (s.launches i).thread.flies := by rw [hi]; rfl
      exact hl.alone hs hcur rfl ((hl.current i hcur).leave hflies hok rfl) id rfl rfl rfl
    · cases hstep
  | shutdown i =>
    simp only [MediaflowServer.step] at hstep
    split at hstep
    · next p hi =>
      split at hstep
      · next hresolved =>
        cases hstep
        have hcur := hl.current_of_thread hi nofun nofun
        have hflies : (s.launches i).thread.flies := by rw [hi]; rfl
        exact hl.alone hs hcur rfl ((hl.current i hcur).leave hflies hresolved rfl) id rfl rfl rfl
      · cases hstep
    · cases hstep
  | close i =>
    simp only [MediaflowServer.step] at hstep
    split at hstep
    · next p hi =>
      cases hstep
      have hcur := hl.current_of_thread hi nofun nofun
      have hstage := hl.current i hcur
      have hflies : (s.launches i).thread.flies := by rw [hi]; rfl
      have hresolved := hstage.resolved_of_stopping hflies (by rw [hi]; rfl)
      exact hl.alone hs hcur rfl (hstage.leave hflies hresolved rfl) id rfl rfl rfl
    · cases hstep
  | lower i =>
    simp only [MediaflowServer.step] at hstep
    split at hstep
    · next hi =>
      cases hstep
      have hcur := hl.current_of_thread hi nofun nofun
      obtain ⟨hcall, htx⟩ := (hl.current i hcur).lower hi
      exact hl.alone_of_ends hs hcur rfl ⟨hcall, .inr rfl⟩ (hl.current i hcur).call_ne_idle id htx htx
        rfl rfl rfl
    · cases hstep
  | callStop j =>
    simp only [MediaflowServer.step] at hstep
    split at hstep
    · next hj =>
      cases hstep
      refine ⟨cur, ⟨hl.current, hl.vacant, hl.rests, hl.fresh⟩, hs.callStop fun i hi => ?_⟩
      exact (hl.current_of_kept (hs.unstopped i hi).1).2.2.1
    · cases hstep
  | load j =>
    simp only [MediaflowServer.step] at hstep
    split at hstep
    · next since hj =>
      cases hstep
      refine ⟨cur, ⟨hl.current, hl.vacant, hl.rests, hl.fresh⟩, ?_⟩
      have hpending : (s.stops j).pending := by rw [hj]; rfl
      have hsince : (s.stops j).since = since := by rw [hj]; rfl
      cases hrunning : s.isRunning with
      | true =>
        exact hs.setStop hsince.symm (fun _ => hpending) nofun
      | false =>
        refine hs.setStop hsince.symm (fun _ => hpending) ?_
        rintro _ _ _ ⟨⟩ i hi
        -- a stop that a start waits for finds the flag
        have hrunning' := (hl.current_of_kept (hs.pending j hpending i (hsince ▸ hi))).2.1
        rw [hrunning] at hrunning'
        cases hrunning'
    · cases hstep
  | take j =>
    simp only [MediaflowServer.step] at hstep
    split at hstep
    · next since hj =>
      cases hstep
      have hpending : (s.stops j).pending := by rw [hj]; rfl
      have hsince : (s.stops j).since = since := by rw [hj]; rfl
      unfold takeSender
      cases htx : s.shutdownTx with
      | none =>
        refine ⟨cur, ⟨hl.current, hl.vacant, hl.rests, hl.fresh⟩, ?_⟩
        refine hs.setStop hsince.symm (fun _ => hpending) ?_
        rintro _ _ _ ⟨⟩ i hi
        have hkept := hs.pending j hpending i (hsince ▸ hi)
        rw [htx] at hkept
        cases hkept
      | some i =>
        obtain ⟨rfl, hrunning, hcall, hserves, hstage⟩ := hl.current_of_kept htx
        dsimp only
        rw [if_pos (ServerThread.hasReceiver_of_serves hserves)]
        refine ⟨some i, hl.goes_on rfl ?_, hs.take htx hj (hok since hj i htx) hcall⟩
        exact hrunning ▸ hstage
    · cases hstep

/-- What is bound is the current launch. -/
theorem Alone.lifecycleHolds (h : s.Alone) : s.LifecycleHolds := by
  obtain ⟨cur, hl, hs⟩ := h
  have hbound {i : ℕ} (hi : (s.launches i).thread.isBound) : cur = some i := by
    refine hl.current_of_thread rfl ?_ ?_ <;> intro ht <;> rw [ht] at hi <;> cases hi
  refine ⟨fun i k hi hk => ?_, fun i hi => ?_, hs.returned⟩
  · exact Option.some.inj ((hbound hi).symm.trans (hbound hk))
  · exact (hl.current_of_kept (hs.unstopped i hi).1).2.1

end MediaflowServer

/-- **One server at a time**, and the first stop reaches it, in an orderly run. -/
theorem oneServer (port : ℕ) : OneServer port MediaflowServer.Orderly := by
  intro s hs
  have h : s.Alone := hs.invariant (MediaflowServer.alone_create port)
    fun _ _ _ ih hok hstep => ih.step hok hstep
  exact h.lifecycleHolds

/-- A start that returns before its thread has stored the flag. -/
def earlyReturn : List FfiEvent :=
  [.check 0, .spawn 0, .bind 0 8080, .signal 0, .recv 0, .publish 0, .keep 0]

theorem earlyReturn_not_running :
    ((serverMachine 8080).run earlyReturn).map (fun s => (s.unstopped, s.isRunning)) =
      some ([0], false) := by
  decide +kernel

theorem oneServer_fails : ¬ OneServer 8080 Machine.Anyhow := by
  intro h
  have hrun := earlyReturn_not_running
  cases hs : (serverMachine 8080).run earlyReturn with
  | none =>
    rw [hs] at hrun
    cases hrun
  | some s =>
    rw [hs] at hrun
    obtain ⟨hunstopped, hflag⟩ := Prod.mk.inj (Option.some.inj hrun)
    have hrunning := (h s (Machine.reaches_run hs)).running 0 (hunstopped ▸ List.mem_cons_self)
    rw [hflag] at hrunning
    cases hrunning

/-- Two starts that both find the flag false, and let the OS choose their ports. -/
def twoStarts : List FfiEvent :=
  [.check 0, .check 1, .spawn 0, .spawn 1, .bind 0 50000, .bind 1 50001]

end MediaFlow
