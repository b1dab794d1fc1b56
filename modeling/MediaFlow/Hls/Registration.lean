import MediaFlow.Hls.Prebuffer

/-!
# Registered playlists and their workers

A call of `register_playlist` that returns should leave its URLs with a worker that is still there.
The worker decides to exit and removes the entry in two steps, and a call that comes between them
writes into a prefetcher that is about to be forgotten (`losesNoPlaylist_fails`). Runs in which
no worker decides while a call is inside the entry, and no call finds a worker that has decided or
is not spawned, lose nothing (`losesNoPlaylist`).
-/

open Text

namespace MediaFlow

namespace Prebuffer

variable (s : Prebuffer)

/-- The prefetcher `p` has a worker that takes from its queue; or the worker left after a time of
`timeout` without activity, all of it after `t`. -/
def Served (timeout p t : ℕ) : Prop :=
  (s.workers p).serving ∨
    ∃ since atTime, (s.workers p).decision = some (since, atTime) ∧ t ≤ since ∧
      since + timeout ≤ atTime ∧ atTime ≤ s.now

/-- What is to hold in every state. -/
structure KeepsRegistrations (timeout : ℕ) : Prop where
  returned : ∀ i p t, s.calls i = some (.returned p t) → s.Served timeout p t
  /-- A call that is about to write has a prefetcher whose worker has not decided to exit. -/
  found : ∀ i p urls headers, s.calls i = some (.found p urls headers) →
    (s.workers p).decision = none

/-- **The condition on steps.** A call finds an entry only while its worker is there and has not
decided to exit, and a worker decides to exit only when no call is inside the entry and there was no
activity since `is_idle` read the time. -/
def Orderly (config : PrebufferConfig) : PrebufferEvent → Prop
  | .enter _ _ _ => ∀ p, s.entry = some p → (s.workers p).serving
  | .judge p => ∀ last, s.workers p = .read last → isIdle last s.now config.inactivityTimeout →
      last = (s.prefetchers p).lastActive ∧ s.writer = none
  | _ => True

end Prebuffer

/-- In every run whose steps all meet `ok`, every state keeps the registrations. -/
def LosesNoPlaylist (config : PrebufferConfig) (ok : Prebuffer → PrebufferEvent → Prop) : Prop :=
  ∀ s, (prebufferMachine config).Reaches ok s → s.KeepsRegistrations config.inactivityTimeout

namespace Registration

/-- The call holds the lock of the entry. -/
def holding : Registration → Bool
  | found .. | stored _ | stamped .. | made => true
  | inserted | returned .. => false

/-- The prefetcher that the call found and has not left. -/
def inside : Registration → Option ℕ
  | found p _ _ | stored p | stamped p _ => some p
  | made | inserted | returned .. => none

/-- The prefetcher, and the time that the call has set. -/
def stamp : Registration → Option (ℕ × ℕ)
  | stamped p t | returned p t => some (p, t)
  | _ => none

theorem holding_of_inside {c : Registration} {p : ℕ} (h : c.inside = some p) : c.holding := by
  cases c <;> first | rfl | cases h

end Registration

namespace PrefetchWorker

theorem decision_of_serving {w : PrefetchWorker} (h : w.serving) : w.decision = none := by
  cases w <;> first | rfl | cases h

theorem ne_unspawned_of_serving {w : PrefetchWorker} (h : w.serving) : w ≠ .unspawned := by
  rintro rfl
  cases h

end PrefetchWorker

namespace Prebuffer

open Function (update)

variable {s s' : Prebuffer} {timeout : ℕ}

/-- The invariant of orderly runs. -/
structure Registered (timeout : ℕ) (s : Prebuffer) : Prop where
  holding : ∀ i c, s.calls i = some c → c.holding → s.writer = some i
  inside : ∀ i c p, s.calls i = some c → c.inside = some p →
    s.entry = some p ∧ (s.workers p).serving
  made : ∀ i, s.calls i = some .made → s.entry = none
  inserted : ∀ i, s.calls i = some .inserted → s.entry = some i
  /-- A worker is spawned by the call that made its prefetcher, as the last thing it does. -/
  spawned : ∀ i, s.workers i ≠ .unspawned → ∃ p t, s.calls i = some (.returned p t)
  owning : ∀ p, (s.workers p).owning → s.entry = some p
  past : ∀ p, (s.prefetchers p).lastActive ≤ s.now
  stamped : ∀ i c p t, s.calls i = some c → c.stamp = some (p, t) →
    t ≤ (s.prefetchers p).lastActive
  returned : ∀ i p t, s.calls i = some (.returned p t) → s.Served timeout p t

theorem registered_new : Registered timeout .new where
  holding _ _ h := nomatch h
  inside _ _ _ h := nomatch h
  made _ h := nomatch h
  inserted _ h := nomatch h
  spawned _ h := absurd rfl h
  owning _ h := nomatch h
  past _ := le_refl _
  stamped _ _ _ _ h := nomatch h
  returned _ _ _ h := nomatch h

theorem Registered.keepsRegistrations (h : s.Registered timeout) : s.KeepsRegistrations timeout where
  returned := h.returned
  found i p _ _ hi :=
    PrefetchWorker.decision_of_serving (h.inside i _ p hi rfl).2

/-! ### What each change keeps -/

theorem Served.elapse {p t : ℕ} (h : s.Served timeout p t) (d : ℕ) :
    Served { s with now := s.now + d } timeout p t := by
  obtain h | ⟨since, atTime, hw, ht, hidle, hnow⟩ := h
  · exact .inl h
  · exact .inr ⟨since, atTime, hw, ht, hidle, hnow.trans (Nat.le_add_right _ _)⟩

theorem Registered.elapse (h : s.Registered timeout) (d : ℕ) :
    Registered timeout { s with now := s.now + d } :=
  { h with
    past := fun p => (h.past p).trans (Nat.le_add_right _ _)
    returned := fun i p t hi => (h.returned i p t hi).elapse d }

/-- Segment requests and the number of readers are nobody's concern here. -/
theorem Registered.requests (h : s.Registered timeout) (requests : ℕ → Option SegmentRequest)
    (readers : ℕ) : Registered timeout { s with requests, readers } :=
  { h with }

/-- A prefetcher changes, and the time of its last activity goes on. -/
theorem Registered.setPrefetcher (h : s.Registered timeout) {p : ℕ} {q : PlaylistPrefetcher}
    (hle : (s.prefetchers p).lastActive ≤ q.lastActive) (hnow : q.lastActive ≤ s.now) :
    (s.setPrefetcher p q).Registered timeout :=
  { h with
    past := by
      intro p'
      change (update s.prefetchers p q p').lastActive ≤ s.now
      by_cases hp : p' = p
      · rw [hp, Function.update_self]
        exact hnow
      · rw [Function.update_of_ne hp]
        exact h.past p'
    stamped := by
      intro i c p' t hi hc
      have ht := h.stamped i c p' t hi hc
      change t ≤ (update s.prefetchers p q p').lastActive
      by_cases hp : p' = p
      · rw [hp, Function.update_self]
        rw [hp] at ht
        exact ht.trans hle
      · rw [Function.update_of_ne hp]
        exact ht }

theorem Registered.touch (h : s.Registered timeout) (p : ℕ) :
    (s.setPrefetcher p ((s.prefetchers p).touch s.now)).Registered timeout :=
  h.setPrefetcher (h.past p) le_rfl

/-- A call is either the one that goes on, or it is what it was. -/
theorem cases_of_update_calls {i j : ℕ} {c d : Registration}
    (hj : update s.calls i (some c) j = some d) :
    (j = i ∧ d = c) ∨ (j ≠ i ∧ s.calls j = some d) := by
  by_cases hji : j = i
  · rw [hji, Function.update_self] at hj
    exact .inl ⟨hji, (Option.some.inj hj).symm⟩
  · rw [Function.update_of_ne hji] at hj
    exact .inr ⟨hji, hj⟩

/-- What a worker does next spawns no other. -/
theorem Registered.spawned_of_update (h : s.Registered timeout) {p : ℕ} {w : PrefetchWorker}
    (hp : s.workers p ≠ .unspawned) {i : ℕ} (hi : update s.workers p w i ≠ .unspawned) :
    ∃ q t, s.calls i = some (.returned q t) := by
  refine h.spawned i ?_
  by_cases hip : i = p
  · rw [hip]
    exact hp
  · rwa [Function.update_of_ne hip] at hi

/-- Nor does it give the entry to another. -/
theorem Registered.owning_of_update (h : s.Registered timeout) {p : ℕ} {w : PrefetchWorker}
    (hp : (s.workers p).owning) {q : ℕ} (hq : (update s.workers p w q).owning) :
    s.entry = some q := by
  refine h.owning q ?_
  by_cases hqp : q = p
  · rw [hqp]
    exact hp
  · rwa [Function.update_of_ne hqp] at hq

/-- A worker that serves goes on. -/
theorem Registered.setWorker (h : s.Registered timeout) {p : ℕ} {w : PrefetchWorker}
    (hp : (s.workers p).serving) (hw : w.serving) : (s.setWorker p w).Registered timeout := by
  have hserving {p' : ℕ} (h' : (s.workers p').serving) : (update s.workers p w p').serving := by
    by_cases hpp : p' = p
    · rw [hpp, Function.update_self]
      exact hw
    · rw [Function.update_of_ne hpp]
      exact h'
  refine { h with inside := ?_, spawned := ?_, owning := ?_, returned := ?_ }
  · intro i c p' hi hc
    obtain ⟨he, hs⟩ := h.inside i c p' hi hc
    exact ⟨he, hserving hs⟩
  · exact fun i => h.spawned_of_update (PrefetchWorker.ne_unspawned_of_serving hp)
  · exact fun q => h.owning_of_update (PrefetchWorker.owning_of_serving hp)
  · intro i p' t hi
    obtain hs | ⟨since, atTime, hd, hrest⟩ := h.returned i p' t hi
    · exact .inl (hserving hs)
    · have hpp : p' ≠ p := by
        rintro rfl
        rw [PrefetchWorker.decision_of_serving hp] at hd
        cases hd
      refine .inr ⟨since, atTime, ?_, hrest⟩
      rw [show (s.setWorker p w).workers p' = s.workers p' from Function.update_of_ne hpp _ _]
      exact hd

/-- Who does not hold the lock is not inside an entry. -/
theorem Registered.not_holding (h : s.Registered timeout) {i j : ℕ} {c : Registration}
    (hw : s.writer = none ∨ s.writer = some i) (hji : j ≠ i) (hj : s.calls j = some c) :
    c.holding = false := by
  by_contra hc
  have := h.holding j c hj (Bool.eq_true_of_not_eq_false hc)
  rcases hw with hw | hw
  · rw [hw] at this
    cases this
  · rw [hw] at this
    exact hji (Option.some.inj this).symm

/-- The call `i`, which has the lock to itself, goes on to `c` and leaves the lock in the state
`writer`. -/
theorem Registered.setCall (h : s.Registered timeout) {i : ℕ} {c : Registration}
    (hw : s.writer = none ∨ s.writer = some i) (writer : Option ℕ)
    (hholding : c.holding → writer = some i)
    (hinside : ∀ p, c.inside = some p → s.entry = some p ∧ (s.workers p).serving)
    (hmade : c = .made → s.entry = none) (hinserted : c ≠ .inserted)
    (hspawned : s.workers i ≠ .unspawned → ∃ p t, c = .returned p t)
    (hstamp : ∀ p t, c.stamp = some (p, t) → t ≤ (s.prefetchers p).lastActive)
    (hreturned : ∀ p t, c = .returned p t → s.Served timeout p t) :
    ({ s with writer := writer }.setCall i c).Registered timeout := by
  -- a call that is what it was does not hold the lock
  have hcases {j : ℕ} {d : Registration} (hj : update s.calls i (some c) j = some d) :
      (j = i ∧ d = c) ∨ (s.calls j = some d ∧ d.holding = false) :=
    (cases_of_update_calls hj).imp_right fun ⟨hji, hj⟩ => ⟨hj, h.not_holding hw hji hj⟩
  refine ⟨?_, ?_, ?_, ?_, ?_, h.owning, h.past, ?_, ?_⟩
  · intro j d hj hd
    obtain ⟨rfl, rfl⟩ | ⟨-, hn⟩ := hcases hj
    · exact hholding hd
    · exact absurd hd (Bool.eq_false_iff.mp hn)
  · intro j d p hj hd
    obtain ⟨rfl, rfl⟩ | ⟨hj, -⟩ := hcases hj
    · exact hinside p hd
    · exact h.inside j d p hj hd
  · intro j hj
    obtain ⟨rfl, hd⟩ | ⟨hj, -⟩ := hcases hj
    · exact hmade hd.symm
    · exact h.made j hj
  · intro j hj
    obtain ⟨rfl, hd⟩ | ⟨hj, -⟩ := hcases hj
    · exact absurd hd.symm hinserted
    · exact h.inserted j hj
  · intro j hj
    by_cases hji : j = i
    · rw [hji] at hj
      obtain ⟨p, t, rfl⟩ := hspawned hj
      rw [hji]
      exact ⟨p, t, Function.update_self ..⟩
    · obtain ⟨p, t, hc⟩ := h.spawned j hj
      refine ⟨p, t, ?_⟩
      rw [← hc]
      exact Function.update_of_ne hji _ _
  · intro j d p t hj hd
    obtain ⟨rfl, rfl⟩ | ⟨hj, -⟩ := hcases hj
    · exact hstamp p t hd
    · exact h.stamped j d p t hj hd
  · intro j p t hj
    obtain ⟨rfl, hd⟩ | ⟨hj, -⟩ := hcases hj
    · exact hreturned p t hd.symm
    · exact h.returned j p t hj

/-- A call that is inside an entry goes on. -/
theorem Registered.goes_on (h : s.Registered timeout) {i p : ℕ} {c d : Registration}
    (hi : s.calls i = some c) (hc : c.inside = some p) (writer : Option ℕ)
    (hd : d.inside = some p ∧ writer = some i ∨ ∃ t, d = .returned p t ∧ writer = none)
    (hstamp : ∀ t, d.stamp = some (p, t) → t ≤ (s.prefetchers p).lastActive) :
    ({ s with writer := writer }.setCall i d).Registered timeout := by
  have hin := h.inside i c p hi hc
  have hunspawned : s.workers i = .unspawned := by
    by_contra hne
    obtain ⟨p', t, hi'⟩ := h.spawned i hne
    rw [hi] at hi'
    cases hi'
    cases hc
  refine h.setCall (.inr (h.holding i c hi (Registration.holding_of_inside hc))) writer ?_ ?_ ?_ ?_
    (absurd hunspawned) ?_ ?_
  · intro hhold
    obtain ⟨-, hw⟩ | ⟨t, rfl, -⟩ := hd
    · exact hw
    · cases hhold
  · intro p' hp'
    obtain ⟨hd, -⟩ | ⟨t, rfl, -⟩ := hd
    · rw [hd] at hp'
      cases hp'
      exact hin
    · cases hp'
  · rintro rfl
    obtain ⟨hd, -⟩ | ⟨t, hd, -⟩ := hd <;> cases hd
  · rintro rfl
    obtain ⟨hd, -⟩ | ⟨t, hd, -⟩ := hd <;> cases hd
  · intro p' t ht
    have hp : p' = p := by
      obtain ⟨hd, -⟩ | ⟨t', rfl, -⟩ := hd
      · cases d with
        | stamped => cases ht; cases hd; rfl
        | returned => cases hd
        | _ => cases ht
      · cases ht
        rfl
    rw [hp] at ht ⊢
    exact hstamp t ht
  · rintro p' t rfl
    obtain ⟨hd, -⟩ | ⟨t', hd, -⟩ := hd
    · cases hd
    · cases hd
      exact .inl hin.2

/-! ### What each step keeps -/

theorem Registered.enter (h : s.Registered timeout) {i : ℕ} (hi : s.calls i = none)
    (hw : s.writer = none) {c : Registration} (hc : c.holding)
    (hinside : ∀ p, c.inside = some p → s.entry = some p ∧ (s.workers p).serving)
    (hmade : c = .made → s.entry = none) (hstamp : c.stamp = none) :
    ({ s with writer := some i }.setCall i c).Registered timeout := by
  refine h.setCall (.inl hw) (some i) (fun _ => rfl) hinside hmade ?_ ?_ ?_ ?_
  · rintro rfl
    cases hc
  · intro hne
    obtain ⟨p, t, hi'⟩ := h.spawned i hne
    rw [hi] at hi'
    cases hi'
  · intro p t ht
    rw [hstamp] at ht
    cases ht
  · rintro p t rfl
    cases hc

/-- The entry is vacant, so no worker has one to lose. -/
theorem Registered.insert (h : s.Registered timeout) {i : ℕ} (hi : s.calls i = some .made) :
    ({ s with entry := some i, writer := none }.setCall i .inserted).Registered timeout := by
  have hentry := h.made i hi
  have hw := h.holding i _ hi rfl
  have hcases {j : ℕ} {d : Registration}
      (hj : update s.calls i (some Registration.inserted) j = some d) :
      (j = i ∧ d = .inserted) ∨ (s.calls j = some d ∧ d.holding = false) :=
    (cases_of_update_calls hj).imp_right fun ⟨hji, hj⟩ => ⟨hj, h.not_holding (.inr hw) hji hj⟩
  refine ⟨?_, ?_, ?_, ?_, ?_, ?_, h.past, ?_, ?_⟩
  · intro j d hj hd
    obtain ⟨-, rfl⟩ | ⟨-, hn⟩ := hcases hj
    · cases hd
    · exact absurd hd (Bool.eq_false_iff.mp hn)
  · intro j d p hj hd
    obtain ⟨-, rfl⟩ | ⟨-, hn⟩ := hcases hj
    · cases hd
    · exact absurd (Registration.holding_of_inside hd) (Bool.eq_false_iff.mp hn)
  · intro j hj
    obtain ⟨-, hd⟩ | ⟨-, hn⟩ := hcases hj
    · cases hd
    · cases hn
  · intro j hj
    obtain ⟨rfl, -⟩ | ⟨hj, -⟩ := hcases hj
    · rfl
    · rw [h.inserted j hj] at hentry
      cases hentry
  · intro j hj
    obtain ⟨p, t, hc⟩ := h.spawned j hj
    have hji : j ≠ i := by
      rintro rfl
      rw [hi] at hc
      cases hc
    refine ⟨p, t, ?_⟩
    rw [← hc]
    exact Function.update_of_ne hji _ _
  · intro p hp
    have := h.owning p hp
    rw [hentry] at this
    cases this
  · intro j d p t hj hd
    obtain ⟨-, rfl⟩ | ⟨hj, -⟩ := hcases hj
    · cases hd
    · exact h.stamped j d p t hj hd
  · intro j p t hj
    obtain ⟨-, hd⟩ | ⟨hj, -⟩ := hcases hj
    · cases hd
    · exact h.returned j p t hj

theorem Registered.spawn (h : s.Registered timeout) {i : ℕ} (hi : s.calls i = some .inserted) :
    ((s.setWorker i .looping).setCall i
      (.returned i (s.prefetchers i).lastActive)).Registered timeout := by
  have hentry := h.inserted i hi
  have hunspawned : s.workers i = .unspawned := by
    by_contra hne
    obtain ⟨p, t, hi'⟩ := h.spawned i hne
    rw [hi] at hi'
    cases hi'
  have hold {p : ℕ} (hp : s.workers p ≠ .unspawned) :
      update s.workers i PrefetchWorker.looping p = s.workers p := by
    refine Function.update_of_ne ?_ _ _
    rintro rfl
    exact hp hunspawned
  have hself : (update s.workers i PrefetchWorker.looping i).serving := by
    rw [Function.update_self]
    rfl
  refine ⟨?_, ?_, ?_, ?_, ?_, ?_, h.past, ?_, ?_⟩
  · intro j d hj hd
    obtain ⟨-, rfl⟩ | ⟨-, hj⟩ := cases_of_update_calls hj
    · cases hd
    · exact h.holding j d hj hd
  · intro j d p hj hd
    obtain ⟨-, rfl⟩ | ⟨-, hj⟩ := cases_of_update_calls hj
    · cases hd
    · obtain ⟨he, hs⟩ := h.inside j d p hj hd
      refine ⟨he, ?_⟩
      rw [← hold (PrefetchWorker.ne_unspawned_of_serving hs)] at hs
      exact hs
  · intro j hj
    obtain ⟨-, hd⟩ | ⟨-, hj⟩ := cases_of_update_calls hj
    · cases hd
    · exact h.made j hj
  · intro j hj
    obtain ⟨-, hd⟩ | ⟨-, hj⟩ := cases_of_update_calls hj
    · cases hd
    · exact h.inserted j hj
  · intro j hj
    by_cases hji : j = i
    · rw [hji]
      exact ⟨_, _, Function.update_self ..⟩
    · rw [show ((s.setWorker i .looping).setCall i
          (.returned i (s.prefetchers i).lastActive)).workers j = s.workers j from
        Function.update_of_ne hji _ _] at hj
      obtain ⟨p, t, hc⟩ := h.spawned j hj
      refine ⟨p, t, ?_⟩
      rw [← hc]
      exact Function.update_of_ne hji _ _
  · intro p hp
    by_cases hpi : p = i
    · rw [hpi]
      exact hentry
    · rw [show ((s.setWorker i .looping).setCall i
          (.returned i (s.prefetchers i).lastActive)).workers p = s.workers p from
        Function.update_of_ne hpi _ _] at hp
      exact h.owning p hp
  · intro j d p t hj hd
    obtain ⟨-, rfl⟩ | ⟨-, hj⟩ := cases_of_update_calls hj
    · cases hd
      exact le_rfl
    · exact h.stamped j d p t hj hd
  · intro j p t hj
    obtain ⟨-, hd⟩ | ⟨-, hj⟩ := cases_of_update_calls hj
    · cases hd
      exact .inl hself
    · obtain hs | ⟨since, atTime, hd, hrest⟩ := h.returned j p t hj
      · refine .inl ?_
        rw [← hold (PrefetchWorker.ne_unspawned_of_serving hs)] at hs
        exact hs
      · refine .inr ⟨since, atTime, ?_, hrest⟩
        rw [← hd]
        refine congrArg _ (hold ?_)
        intro hu
        rw [hu] at hd
        cases hd

/-- A worker decides to exit. No call is inside the entry, and since the time that it compared there
was no activity. -/
theorem Registered.leaves (h : s.Registered timeout) {p last : ℕ} (hp : s.workers p = .read last)
    (hlast : last = (s.prefetchers p).lastActive) (hw : s.writer = none)
    (hidle : isIdle last s.now timeout) :
    (s.setWorker p (.leaving (s.prefetchers p).lastActive s.now)).Registered timeout := by
  have hother {p' : ℕ} (hpp : p' ≠ p) :
      (s.setWorker p (.leaving (s.prefetchers p).lastActive s.now)).workers p' = s.workers p' :=
    Function.update_of_ne hpp _ _
  have hself : (s.setWorker p (.leaving (s.prefetchers p).lastActive s.now)).workers p =
      .leaving (s.prefetchers p).lastActive s.now := Function.update_self ..
  refine { h with inside := ?_, spawned := ?_, owning := ?_, returned := ?_ }
  · intro i c p' hi hc
    have := h.holding i c hi (Registration.holding_of_inside hc)
    rw [hw] at this
    cases this
  · exact fun i => h.spawned_of_update (by rw [hp]; exact PrefetchWorker.noConfusion)
  · exact fun q => h.owning_of_update (by rw [hp]; rfl)
  · intro i p' t hi
    by_cases hpp : p' = p
    · rw [hpp] at hi ⊢
      have hpast := h.past p
      have ht := h.stamped i _ p t hi rfl
      have hle : timeout ≤ s.now - last := of_decide_eq_true hidle
      refine .inr ⟨_, _, congrArg _ hself, ht, ?_, le_rfl⟩
      omega
    · unfold Served
      rw [hother hpp]
      exact h.returned i p' t hi

theorem Registered.remove (h : s.Registered timeout) {p since t : ℕ}
    (hp : s.workers p = .leaving since t) (hw : s.writer = none) :
    ({ s with entry := none }.setWorker p (.exited since t)).Registered timeout := by
  have hentry : s.entry = some p := by
    refine h.owning p ?_
    rw [hp]
    rfl
  have hother {p' : ℕ} (hpp : p' ≠ p) :
      ({ s with entry := none }.setWorker p (.exited since t)).workers p' = s.workers p' :=
    Function.update_of_ne hpp _ _
  have hself : ({ s with entry := none }.setWorker p (.exited since t)).workers p =
      .exited since t := Function.update_self ..
  refine { h with
    inside := ?_, made := fun _ _ => rfl, inserted := ?_, spawned := ?_, owning := ?_,
    returned := ?_ }
  · intro i c p' hi hc
    have := h.holding i c hi (Registration.holding_of_inside hc)
    rw [hw] at this
    cases this
  · -- the worker of a prefetcher that was just inserted is not spawned, and cannot leave
    intro i hi
    have hi' := h.inserted i hi
    rw [hentry] at hi'
    cases hi'
    obtain ⟨p', t', hc⟩ := h.spawned p (by rw [hp]; exact PrefetchWorker.noConfusion)
    rw [show s.calls p = some .inserted from hi] at hc
    cases hc
  · exact fun i => h.spawned_of_update (by rw [hp]; exact PrefetchWorker.noConfusion)
  · intro p' ho
    by_cases hpp : p' = p
    · rw [hpp, hself] at ho
      cases ho
    · rw [hother hpp] at ho
      have := h.owning p' ho
      rw [hentry] at this
      exact absurd (Option.some.inj this).symm hpp
  · intro i p' t' hi
    by_cases hpp : p' = p
    · rw [hpp] at hi ⊢
      obtain hs | ⟨since', atTime, hd, hrest⟩ := h.returned i p t' hi
      · rw [hp] at hs
        cases hs
      · refine .inr ⟨since', atTime, ?_, hrest⟩
        rw [hself]
        rw [hp] at hd
        exact hd
    · unfold Served
      rw [hother hpp]
      exact h.returned i p' t' hi

/-- One orderly step. -/
theorem Registered.step {config : PrebufferConfig} {e : PrebufferEvent}
    (h : s.Registered config.inactivityTimeout) (hok : s.Orderly config e)
    (hstep : s.step config e = some s') : s'.Registered config.inactivityTimeout := by
  cases e with
  | elapse d =>
    cases hstep
    exact h.elapse d
  | enter i urls headers =>
    simp only [Prebuffer.step] at hstep
    split at hstep
    · next hfree =>
      obtain ⟨hi, hw, -⟩ := hfree
      split at hstep
      · next p he =>
        cases hstep
        refine h.enter hi hw rfl ?_ (fun hc => nomatch hc) rfl
        intro p' hp'
        cases hp'
        exact ⟨he, hok p he⟩
      · next he =>
        cases hstep
        -- the new prefetcher takes a name that no returned call has
        have hnew := h.setPrefetcher (q := .new urls headers s.now) (h.past i) le_rfl
        exact hnew.enter hi hw rfl (fun p hp => nomatch hp) (fun _ => he) rfl
    · cases hstep
  | store i =>
    simp only [Prebuffer.step] at hstep
    split at hstep
    · next p urls headers hi =>
      cases hstep
      have hq := h.setPrefetcher (p := p) (q := (s.prefetchers p).update urls headers) le_rfl
        (h.past p)
      have hw := h.holding i _ hi rfl
      exact hq.goes_on hi rfl s.writer (.inl ⟨rfl, hw⟩) fun t ht => nomatch ht
    · cases hstep
  | stamp i =>
    simp only [Prebuffer.step] at hstep
    split at hstep
    · next p hi =>
      cases hstep
      have hw := h.holding i _ hi rfl
      refine (h.touch p).goes_on hi rfl s.writer (.inl ⟨rfl, hw⟩) fun t ht => ?_
      cases ht
      rw [show (s.setPrefetcher p ((s.prefetchers p).touch s.now)).prefetchers p =
        (s.prefetchers p).touch s.now from Function.update_self ..]
      exact le_rfl
    · cases hstep
  | leave i =>
    simp only [Prebuffer.step] at hstep
    split at hstep
    · next p t hi =>
      cases hstep
      refine h.goes_on hi rfl none (.inr ⟨t, rfl, rfl⟩) fun t' ht => ?_
      cases ht
      exact h.stamped i _ p t hi rfl
    · cases hstep
  | insert i =>
    simp only [Prebuffer.step] at hstep
    split at hstep
    · next hi =>
      cases hstep
      exact h.insert hi
    · cases hstep
  | spawn i =>
    simp only [Prebuffer.step] at hstep
    split at hstep
    · next hi =>
      cases hstep
      exact h.spawn hi
    · cases hstep
  | request j url =>
    simp only [Prebuffer.step] at hstep
    split at hstep
    · split at hstep <;> cases hstep
      · exact h.requests _ _
      · exact h.requests _ _
    · cases hstep
  | promote j =>
    simp only [Prebuffer.step] at hstep
    split at hstep
    · next p url _ =>
      cases hstep
      have hq := h.setPrefetcher (q := (s.prefetchers p).prioritize url) le_rfl (h.past p)
      exact hq.requests _ _
    · cases hstep
  | touch j =>
    simp only [Prebuffer.step] at hstep
    split at hstep
    · next p _ =>
      cases hstep
      exact (h.touch p).requests _ _
    · cases hstep
  | release j =>
    simp only [Prebuffer.step] at hstep
    split at hstep
    · cases hstep
      exact h.requests _ _
    · cases hstep
  | check p =>
    simp only [Prebuffer.step] at hstep
    split at hstep
    · next hp =>
      cases hstep
      refine h.setWorker ?_ rfl
      rw [hp]
      rfl
    · cases hstep
  | judge p =>
    simp only [Prebuffer.step] at hstep
    split at hstep
    · next last hp =>
      split at hstep
      · next hidle =>
        cases hstep
        obtain ⟨hlast, hw⟩ := hok last hp hidle
        exact h.leaves hp hlast hw hidle
      · cases hstep
        refine h.setWorker ?_ rfl
        rw [hp]
        rfl
    · cases hstep
  | take p =>
    simp only [Prebuffer.step] at hstep
    split at hstep
    · next hp =>
      cases hstep
      have hq := h.setPrefetcher (p := p)
        (q := ((s.prefetchers p).popBatchWithHeaders config.segmentsAhead).2)
        (PlaylistPrefetcher.popBatchWithHeaders_lastActive ..).ge
        ((PlaylistPrefetcher.popBatchWithHeaders_lastActive ..).trans_le (h.past p))
      refine hq.setWorker ?_ rfl
      change (s.workers p).serving
      rw [hp]
      rfl
    · cases hstep
  | again p =>
    simp only [Prebuffer.step] at hstep
    split at hstep
    · next hp =>
      cases hstep
      refine h.setWorker ?_ rfl
      rw [hp]
      rfl
    · cases hstep
  | remove p =>
    simp only [Prebuffer.step] at hstep
    split at hstep
    · next hp =>
      split at hstep
      · next hfree =>
        cases hstep
        exact h.remove hp hfree.1
      · cases hstep
    · cases hstep

end Prebuffer

/-- **No playlist is lost** in an orderly run. -/
theorem losesNoPlaylist (config : PrebufferConfig) :
    LosesNoPlaylist config fun s e => s.Orderly config e := by
  intro s hs
  have h : s.Registered config.inactivityTimeout :=
    hs.invariant Prebuffer.registered_new fun _ _ _ ih hok hstep =>
      Prebuffer.Registered.step ih hok hstep
  exact h.keepsRegistrations

/-- A playlist is registered; after a minute its worker finds it idle, and before the entry is
removed the playlist is registered again. -/
def lateRegistration : List PrebufferEvent :=
  [.enter 0 ["a.ts".toList] [], .insert 0, .spawn 0, .check 0, .elapse 60000000000, .judge 0,
    .enter 1 ["b.ts".toList] [], .store 1, .stamp 1, .leave 1, .remove 0]

/-- The second call returns, and the worker that was to fetch for it is gone. -/
theorem lateRegistration_lost :
    ((prebufferMachine .default).run lateRegistration).map (fun s => (s.calls 1, s.workers 0)) =
      some (some (.returned 0 60000000000), .exited 0 60000000000) := by
  decide +kernel

theorem losesNoPlaylist_fails : ¬ LosesNoPlaylist .default Machine.Anyhow := by
  intro h
  have hrun := lateRegistration_lost
  cases hs : (prebufferMachine .default).run lateRegistration with
  | none =>
    rw [hs] at hrun
    cases hrun
  | some s =>
    rw [hs] at hrun
    obtain ⟨hcall, hworker⟩ := Prod.mk.inj (Option.some.inj hrun)
    -- the worker decided at sixty seconds, after a minute in which the second call does not lie
    obtain hserving | ⟨since, t, hd, hle, -⟩ :=
      (h s (Machine.reaches_run hs)).returned 1 0 60000000000 hcall
    · rw [hworker] at hserving
      cases hserving
    · rw [hworker] at hd
      cases hd
      exact absurd hle (by decide)

end MediaFlow
