import MediaFlow.Hls.Prebuffer

/-!
# Where the URLs of a batch come from

The prefetchers of one playlist URL fetch nothing of their own accord: what a worker takes out of its
queue was registered or asked for, and the headers that go with it were registered
(`Prebuffer.Sourced.fetching`).
-/

open Text

namespace MediaFlow

namespace Prebuffer

open Function (update)

/-- The URLs come from `urls`, and headers that go with any come from `headers`. -/
def BatchFrom (urls : Set Str) (headers : Set (List (Str × Str))) (batch : List Str)
    (h : List (Str × Str)) : Prop :=
  (∀ url ∈ batch, url ∈ urls) ∧ (batch = [] ∨ h ∈ headers)

variable {urls urls' : Set Str} {headers headers' : Set (List (Str × Str))}

theorem BatchFrom.mono (hu : urls ⊆ urls') (hh : headers ⊆ headers') {batch : List Str}
    {h : List (Str × Str)} (hb : BatchFrom urls headers batch h) : BatchFrom urls' headers' batch h :=
  ⟨fun url hurl => hu (hb.1 url hurl), hb.2.imp_right fun h => hh h⟩

/-- The invariant, for the URLs and headers that came in so far. -/
structure Sourced (urls : Set Str) (headers : Set (List (Str × Str))) (s : Prebuffer) : Prop where
  entry : ∀ p, s.entry = some p → (s.prefetchers p).state.headers ∈ headers
  made : ∀ i, s.calls i = some .made → (s.prefetchers i).state.headers ∈ headers
  found : ∀ i p us hs, s.calls i = some (.found p us hs) → (∀ url ∈ us, url ∈ urls) ∧ hs ∈ headers
  requested : ∀ j p url, s.requests j = some (.found p url) →
    url ∈ urls ∧ (s.prefetchers p).state.headers ∈ headers
  queue : ∀ p, BatchFrom urls headers (s.prefetchers p).state.queue (s.prefetchers p).state.headers
  fetching : ∀ p us hs, s.workers p = .fetching us hs → BatchFrom urls headers us hs

theorem sourced_new : Sourced urls headers .new where
  entry _ h := nomatch h
  made _ h := nomatch h
  found _ _ _ _ h := nomatch h
  requested _ _ _ h := nomatch h
  queue _ := ⟨List.forall_mem_nil _, .inl rfl⟩
  fetching _ _ _ h := nomatch h

variable {s s' : Prebuffer}

theorem Sourced.mono (h : s.Sourced urls headers) (hu : urls ⊆ urls') (hh : headers ⊆ headers') :
    s.Sourced urls' headers' where
  entry p hp := hh (h.entry p hp)
  made i hi := hh (h.made i hi)
  found i p us hs hi := ⟨fun url hurl => hu ((h.found i p us hs hi).1 url hurl),
    hh (h.found i p us hs hi).2⟩
  requested j p url hj := ⟨hu (h.requested j p url hj).1, hh (h.requested j p url hj).2⟩
  queue p := (h.queue p).mono hu hh
  fetching p us hs hp := (h.fetching p us hs hp).mono hu hh

/-! ### What each change keeps -/

theorem Sourced.elapse (h : s.Sourced urls headers) (d : ℕ) :
    Sourced urls headers { s with now := s.now + d } :=
  { h with }

/-- The locks are nobody's concern here. -/
theorem Sourced.locks (h : s.Sourced urls headers) (writer : Option ℕ) (readers : ℕ) :
    Sourced urls headers { s with writer, readers } :=
  { h with }

/-- The prefetcher `p` changes, but keeps registered headers. -/
theorem Sourced.setPrefetcher (h : s.Sourced urls headers) {p : ℕ} {q : PlaylistPrefetcher}
    (hq : BatchFrom urls headers q.state.queue q.state.headers)
    (hkeep : (s.prefetchers p).state.headers ∈ headers → q.state.headers ∈ headers) :
    (s.setPrefetcher p q).Sourced urls headers := by
  have hheaders {p' : ℕ} (hp' : (s.prefetchers p').state.headers ∈ headers) :
      (update s.prefetchers p q p').state.headers ∈ headers := by
    by_cases hpp : p' = p
    · subst hpp
      rw [Function.update_self]
      exact hkeep hp'
    · rwa [Function.update_of_ne hpp]
  exact { h with
    entry := fun p' hp' => hheaders (h.entry p' hp')
    made := fun i hi => hheaders (h.made i hi)
    requested := fun j p' url hj => (h.requested j p' url hj).imp_right hheaders
    queue := by
      intro p'
      change BatchFrom _ _ (update s.prefetchers p q p').state.queue
        (update s.prefetchers p q p').state.headers
      by_cases hpp : p' = p
      · rw [hpp, Function.update_self]
        exact hq
      · rw [Function.update_of_ne hpp]
        exact h.queue p' }

/-- A call goes on. -/
theorem Sourced.setCall (h : s.Sourced urls headers) {i : ℕ} {c : Registration}
    (hmade : c = .made → (s.prefetchers i).state.headers ∈ headers)
    (hfound : ∀ p us hs, c = .found p us hs → (∀ url ∈ us, url ∈ urls) ∧ hs ∈ headers) :
    (s.setCall i c).Sourced urls headers := by
  have hcases {j : ℕ} {d : Registration} (hj : update s.calls i (some c) j = some d) :
      (j = i ∧ c = d) ∨ s.calls j = some d := by
    by_cases hji : j = i
    · subst hji
      rw [Function.update_self] at hj
      exact .inl ⟨rfl, Option.some.inj hj⟩
    · rw [Function.update_of_ne hji] at hj
      exact .inr hj
  exact { h with
    made := fun j hj => (hcases hj).elim (fun ⟨hji, hd⟩ => hji ▸ hmade hd) (h.made j)
    found := fun j p us hs hj => (hcases hj).elim (fun hd => hfound p us hs hd.2) (h.found j p us hs) }

theorem Sourced.setRequest (h : s.Sourced urls headers) {j : ℕ} {r : SegmentRequest}
    (hr : ∀ p url, r = .found p url → url ∈ urls ∧ (s.prefetchers p).state.headers ∈ headers) :
    (s.setRequest j r).Sourced urls headers :=
  { h with
    requested := by
      intro k p url hk
      change update s.requests j (some r) k = _ at hk
      by_cases hkj : k = j
      · rw [hkj, Function.update_self] at hk
        exact hr p url (Option.some.inj hk)
      · rw [Function.update_of_ne hkj] at hk
        exact h.requested k p url hk }

theorem Sourced.setWorker (h : s.Sourced urls headers) {p : ℕ} {w : PrefetchWorker}
    (hw : ∀ us hs, w = .fetching us hs → BatchFrom urls headers us hs) :
    (s.setWorker p w).Sourced urls headers :=
  { h with
    fetching := by
      intro p' us hs hp'
      change update s.workers p w p' = _ at hp'
      by_cases hpp : p' = p
      · rw [hpp, Function.update_self] at hp'
        exact hw us hs hp'
      · rw [Function.update_of_ne hpp] at hp'
        exact h.fetching p' us hs hp' }

/-! ### The queue -/

/-- What is prioritised comes from outside or from the queue. -/
theorem BatchFrom.prioritize {p : PlaylistPrefetcher} {url : Str}
    (h : BatchFrom urls headers p.state.queue p.state.headers) (hurl : url ∈ urls)
    (hh : p.state.headers ∈ headers) :
    BatchFrom urls headers (p.prioritize url).state.queue (p.prioritize url).state.headers := by
  refine ⟨fun u hu => ?_, .inr hh⟩
  rcases List.mem_cons.mp hu with rfl | hu
  · exact hurl
  · exact h.1 u (List.mem_of_mem_erase hu)

/-- A batch, and what stays queued, come from the queue. -/
theorem BatchFrom.popBatchWithHeaders {p : PlaylistPrefetcher}
    (h : BatchFrom urls headers p.state.queue p.state.headers) (n : ℕ) :
    BatchFrom urls headers (p.popBatchWithHeaders n).1.1 (p.popBatchWithHeaders n).1.2 ∧
      BatchFrom urls headers (p.popBatchWithHeaders n).2.state.queue
        (p.popBatchWithHeaders n).2.state.headers ∧
      (p.popBatchWithHeaders n).2.state.headers = p.state.headers := by
  unfold PlaylistPrefetcher.popBatchWithHeaders
  split
  · exact ⟨⟨nofun, .inl rfl⟩, h, rfl⟩
  · refine ⟨⟨fun u hu => h.1 u (List.mem_of_mem_take hu), h.2.imp_left fun hq => ?_⟩,
      ⟨fun u hu => h.1 u (List.mem_of_mem_drop hu), h.2.imp_left fun hq => ?_⟩, rfl⟩
    · rw [hq, List.take_nil]
    · rw [hq]
      exact List.drop_nil

/-! ### Steps -/

/-- What an event brings in is among the given. -/
def Brings (urls : Set Str) (headers : Set (List (Str × Str))) : PrebufferEvent → Prop
  | .enter _ us hs => (∀ url ∈ us, url ∈ urls) ∧ hs ∈ headers
  | .request _ url => url ∈ urls
  | _ => True

/-- A call that has left the states in which it holds something. -/
theorem Sourced.setCall_plain (h : s.Sourced urls headers) {i : ℕ} {c : Registration}
    (hmade : c ≠ .made) (hfound : ∀ p us hs, c ≠ .found p us hs) :
    (s.setCall i c).Sourced urls headers :=
  h.setCall (fun hc => absurd hc hmade) fun p us hs hc => absurd hc (hfound p us hs)

theorem Sourced.step (config : PrebufferConfig) {e : PrebufferEvent} (h : s.Sourced urls headers)
    (he : Brings urls headers e) (hstep : s.step config e = some s') :
    s'.Sourced urls headers := by
  cases e with
  | elapse d =>
    cases hstep
    exact h.elapse d
  | enter i us hs =>
    simp only [Prebuffer.step] at hstep
    split at hstep
    · split at hstep <;> cases hstep
      · refine (h.locks _ _).setCall nofun fun p us' hs' hc => ?_
        cases hc
        exact he
      · refine ((h.locks _ _).setPrefetcher ⟨he.1, .inr he.2⟩ fun _ => he.2).setCall (fun _ => ?_) nofun
        change (update s.prefetchers i _ i).state.headers ∈ headers
        rw [Function.update_self]
        exact he.2
    · cases hstep
  | store i =>
    simp only [Prebuffer.step] at hstep
    split at hstep
    · next p us hs hi =>
      cases hstep
      obtain ⟨hus, hhs⟩ := h.found i p us hs hi
      exact (h.setPrefetcher ⟨hus, .inr hhs⟩ fun _ => hhs).setCall_plain nofun nofun
    · cases hstep
  | stamp i =>
    simp only [Prebuffer.step] at hstep
    split at hstep
    · next p hi =>
      cases hstep
      exact (h.setPrefetcher (q := (s.prefetchers p).touch s.now) (h.queue p) id).setCall_plain
        nofun nofun
    · cases hstep
  | leave i =>
    simp only [Prebuffer.step] at hstep
    split at hstep
    · cases hstep
      exact (h.locks _ _).setCall_plain nofun nofun
    · cases hstep
  | insert i =>
    simp only [Prebuffer.step] at hstep
    split at hstep
    · next hi =>
      cases hstep
      have hentry : Sourced urls headers { s with entry := some i, writer := none } :=
        { h with entry := fun p hp => Option.some.inj hp ▸ h.made i hi }
      exact hentry.setCall_plain nofun nofun
    · cases hstep
  | spawn i =>
    simp only [Prebuffer.step] at hstep
    split at hstep
    · cases hstep
      exact (h.setWorker (w := .looping) nofun).setCall_plain nofun nofun
    · cases hstep
  | request j url =>
    simp only [Prebuffer.step] at hstep
    split at hstep
    · split at hstep <;> cases hstep
      · next p hp =>
        refine (h.locks _ _).setRequest fun p' url' hr => ?_
        cases hr
        exact ⟨he, h.entry p hp⟩
      · exact h.setRequest nofun
    · cases hstep
  | promote j =>
    simp only [Prebuffer.step] at hstep
    split at hstep
    · next p url hj =>
      cases hstep
      obtain ⟨hurl, hheaders⟩ := h.requested j p url hj
      exact (h.setPrefetcher ((h.queue p).prioritize hurl hheaders) id).setRequest nofun
    · cases hstep
  | touch j =>
    simp only [Prebuffer.step] at hstep
    split at hstep
    · next p hj =>
      cases hstep
      exact (h.setPrefetcher (q := (s.prefetchers p).touch s.now) (h.queue p) id).setRequest nofun
    · cases hstep
  | release j =>
    simp only [Prebuffer.step] at hstep
    split at hstep
    · cases hstep
      exact (h.locks _ _).setRequest nofun
    · cases hstep
  | check p =>
    simp only [Prebuffer.step] at hstep
    split at hstep
    · cases hstep
      exact h.setWorker nofun
    · cases hstep
  | judge p =>
    simp only [Prebuffer.step] at hstep
    split at hstep
    · split at hstep <;> cases hstep <;> exact h.setWorker nofun
    · cases hstep
  | take p =>
    simp only [Prebuffer.step] at hstep
    split at hstep
    · cases hstep
      obtain ⟨hbatch, hrest, heq⟩ := (h.queue p).popBatchWithHeaders config.segmentsAhead
      refine (h.setPrefetcher hrest fun hp => heq ▸ hp).setWorker fun us hs hw => ?_
      cases hw
      exact hbatch
    · cases hstep
  | again p =>
    simp only [Prebuffer.step] at hstep
    split at hstep
    · cases hstep
      exact h.setWorker nofun
    · cases hstep
  | remove p =>
    simp only [Prebuffer.step] at hstep
    split at hstep
    · split at hstep
      · cases hstep
        have hentry : Sourced urls headers { s with entry := none } :=
          { h with entry := nofun }
        exact hentry.setWorker nofun
      · cases hstep
    · cases hstep

end Prebuffer

end MediaFlow
