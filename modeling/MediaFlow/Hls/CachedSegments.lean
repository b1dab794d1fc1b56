import MediaFlow.Hls.QueueSources
import MediaFlow.Hls.SegmentCache

/-!
# What players get from the segment cache

A segment that is served from the cache is the body of a successful response to a request for that
very URL with those very headers, no older than it may be (`cachedSegments`). All workers and all
players of all playlists share the cache; what keeps them apart is the key. The machine refines a
store that is filled from elsewhere (`refines_filledStore`), and nothing is fetched that was not
registered with its headers, or asked for by a player of that playlist (`Fed`).
-/

open ByteString Text

namespace MediaFlow

/-- A URL with the headers of its request. -/
abbrev SegmentRequestData := Str × List (Str × Str)

def segmentKey (r : SegmentRequestData) : Str := segmentCacheKey r.1 r.2

/-- A successful answer, as one to keep. -/
def SegmentAnswer.load (a : SegmentAnswer) : Option (Load SegmentRequestData Bytes) :=
  a.response.successBody.map fun bytes => ⟨(a.url, a.headers), bytes, a.atTime⟩

/-- The store that the pool is to follow. -/
abbrev SegmentStore := FilledStore SegmentRequestData Str Bytes

namespace BatchStage

/-- The URLs that are or will be fetched. -/
def urls : BatchStage → List Str
  | looking urls fetches => urls ++ fetches.map (·.url)
  | joining fetches => fetches.map (·.url)
  | storing _ => []

def fetches : BatchStage → List SegmentFetch
  | looking _ fetches | joining fetches => fetches
  | storing _ => []

def found : BatchStage → List (Str × Bytes)
  | looking .. | joining _ => []
  | storing found => found

end BatchStage

/-- Each result is an answer to a request with its key. -/
structure Batch.Answered (loads : List (Load SegmentRequestData Bytes)) (b : Batch) : Prop where
  keys : ∀ f ∈ b.stage.fetches, f.cacheKey = segmentCacheKey f.url b.headers
  results : ∀ f ∈ b.stage.fetches, ∀ x, f.result = some (some x) →
    ∃ l ∈ loads, segmentKey l.request = x.1 ∧ l.value = x.2
  found : ∀ x ∈ b.stage.found, ∃ l ∈ loads, segmentKey l.request = x.1 ∧ l.value = x.2

theorem Batch.Answered.mono {loads loads' : List (Load SegmentRequestData Bytes)} {b : Batch}
    (h : b.Answered loads) (hl : ∀ l ∈ loads, l ∈ loads') : b.Answered loads' where
  keys := h.keys
  results f hf x hx := (h.results f hf x hx).imp fun _ hl' => hl'.imp_left (hl _)
  found x hx := (h.found x hx).imp fun _ hl' => hl'.imp_left (hl _)

/-- The fetch `f` has its answer. -/
theorem Batch.Answered.answer {loads : List (Load SegmentRequestData Bytes)}
    {headers : List (Str × Str)} {fetches : List SegmentFetch} {n : ℕ} {f : SegmentFetch}
    (h : Batch.Answered loads ⟨headers, .joining fetches⟩) (hf : fetches[n]? = some f)
    (a : UpstreamAnswer) (now : ℕ) :
    Batch.Answered (loads ++ ((SegmentAnswer.mk f.url headers a now).load).toList)
      ⟨headers, .joining (fetches.set n { f with result := some (fetchSegment f.cacheKey a) })⟩ := by
  have hmem := List.mem_of_getElem? hf
  refine ⟨List.forall_mem_set h.keys (h.keys f hmem), List.forall_mem_set ?_ ?_, nofun⟩
  · intro g hg x hx
    exact (h.results g hg x hx).imp fun _ hl => hl.imp_left (List.mem_append_left _)
  · intro x hx
    obtain ⟨bytes, hbytes, rfl⟩ := Option.map_eq_some_iff.mp (Option.some.inj hx)
    refine ⟨⟨(f.url, headers), bytes, now⟩, List.mem_append_right _ ?_, (h.keys f hmem).symm, rfl⟩
    exact Option.mem_toList.mpr (congrArg (Option.map _) hbytes)

namespace SegmentPool

open Function (update)

variable {s s' : SegmentPool}

theorem mem_batches_of_update {u : Str} {p : ℕ} {b : Option Batch} {place : Str × ℕ} {b' : Batch}
    (h : update s.batches (u, p) b place = some b') :
    (place = (u, p) ∧ b = some b') ∨ s.batches place = some b' := by
  by_cases hp : place = (u, p)
  · rw [hp, Function.update_self] at h
    exact .inl ⟨hp, h⟩
  · rw [Function.update_of_ne hp] at h
    exact .inr h

/-! ### The store -/

/-- The pool in the state `s` does what the store in the state `t` does. -/
structure Follows (config : PrebufferConfig) (s : SegmentPool) (t : SegmentStore) : Prop where
  now : t.now = s.now
  loads : t.loads = s.answers.filterMap (·.load)
  timeToLive : s.cache.timeToLive = config.segmentCacheTtl
  entries : ∀ k, t.entries k = (s.cache.entries k).map fun e => (e.value, e.inserted)
  cached : ∀ c ∈ s.calls, ∀ served e, c.phase = .cached served e →
    c.hasRange = false ∧ ⟨(c.destination, c.passHeaders), e.value, e.inserted, served⟩ ∈ t.hits
  batches : ∀ place b, s.batches place = some b → b.Answered t.loads

variable {config : PrebufferConfig} {t : SegmentStore}

/-- One batch changes. -/
theorem Follows.setBatch (h : s.Follows config t) {u : Str} {p : ℕ} {b : Option Batch}
    (hb : ∀ b' ∈ b, b'.Answered t.loads) : (s.setBatch u p b).Follows config t :=
  { h with
    batches := fun place b' hplace =>
      (mem_batches_of_update hplace).elim (fun hb' => hb b' hb'.2) (h.batches place b') }

/-- One call goes on, and not with a segment from the cache. -/
theorem Follows.setPhase (h : s.Follows config t) {k : ℕ} {c : SegmentCall} {phase : SegmentPhase}
    (hphase : ∀ served e, phase ≠ .cached served e) : (s.setPhase k c phase).Follows config t :=
  { h with
    cached := List.forall_mem_set h.cached fun served e he => absurd he (hphase served e) }

/-- Playlists do not matter. -/
theorem Follows.setPlaylist (h : s.Follows config t) (u : Str) (b : Prebuffer) :
    (s.setPlaylist u b).Follows config t :=
  { h with }

theorem Follows.elapse (h : s.Follows config t) (d : ℕ) (playlists : Str → Prebuffer) :
    Follows config { s with now := s.now + d, playlists } { t with now := t.now + d } :=
  { h with now := congrArg (· + d) h.now }

/-- A look at the cache that finds something is a hit of the store. -/
theorem Follows.look (h : s.Follows config t) {k : ℕ} {c : SegmentCall} {e : CacheEntry}
    (hrange : c.hasRange = false)
    (hentry : s.cachedSegment c.destination c.passHeaders = some e) :
    ∃ t', (filledStore segmentKey (some config.segmentCacheTtl)).step t
        (.hit (c.destination, c.passHeaders)) = some t' ∧
      (s.setPhase k c (.cached s.now e)).Follows config t' := by
  obtain ⟨hkey, hlive⟩ := LocalCache.live_eq_some_iff.mp hentry
  have hstored : t.entries (segmentKey (c.destination, c.passHeaders)) = some (e.value, e.inserted) := by
    rw [h.entries]
    exact congrArg (Option.map _) hkey
  have hfresh : Live (some config.segmentCacheTtl) e.inserted t.now := by
    rintro d ⟨⟩
    rw [h.now, ← h.timeToLive]
    exact hlive
  refine ⟨_, filledStore_hit hstored hfresh, { h with cached := ?_ }⟩
  refine List.forall_mem_set (fun d hd served e' he' => ?_) ?_
  · exact (h.cached d hd served e' he').imp_right (List.mem_append_left _)
  · rintro served e' ⟨⟩
    exact ⟨hrange, List.mem_append_right _ (List.mem_singleton.mpr (by rw [h.now]))⟩

/-- Something is stored: the pool keeps an answer that the store has noted. -/
theorem Follows.keep (h : s.Follows config t) {u : Str} {p : ℕ} {headers : List (Str × Str)}
    {key : Str} {bytes : Bytes} {found : List (Str × Bytes)}
    (hb : s.batches (u, p) = some ⟨headers, .storing ((key, bytes) :: found)⟩) :
    ∃ n t', (filledStore segmentKey (some config.segmentCacheTtl)).step t (.keep n) = some t' ∧
      Follows config ({ s with cache := s.cache.set s.now key bytes }.setBatch u p
        (some ⟨headers, .storing found⟩)) t' := by
  have hanswered := h.batches _ _ hb
  obtain ⟨l, hl, hkey, hvalue⟩ := hanswered.found _ List.mem_cons_self
  obtain ⟨n, hn⟩ := List.mem_iff_getElem?.mp hl
  have hkeep : Follows config { s with cache := s.cache.set s.now key bytes }
      { t with entries := update t.entries (segmentKey l.request) (some (l.value, t.now)) } :=
    { h with
      entries := by
        intro k
        change update t.entries (segmentKey l.request) (some (l.value, t.now)) k =
          (update s.cache.entries key (some ⟨bytes, s.now⟩) k).map _
        rw [hkey, hvalue, h.now]
        by_cases hk : k = key
        · rw [hk, Function.update_self, Function.update_self]
          rfl
        · rw [Function.update_of_ne hk, Function.update_of_ne hk]
          exact h.entries k }
  refine ⟨n, _, filledStore_keep hn, hkeep.setBatch ?_⟩
  rintro b ⟨⟩
  exact ⟨nofun, nofun, fun x hx => hanswered.found x (List.mem_cons_of_mem _ hx)⟩

/-- An answer comes in. The store notes it if it is a successful one. -/
theorem Follows.answer (h : s.Follows config t) {u : Str} {p n : ℕ} {headers : List (Str × Str)}
    {fetches : List SegmentFetch} {f : SegmentFetch}
    (hb : s.batches (u, p) = some ⟨headers, .joining fetches⟩) (hf : fetches[n]? = some f)
    (a : UpstreamAnswer) :
    ∃ ds t', (filledStore segmentKey (some config.segmentCacheTtl)).steps t ds = some t' ∧
      Follows config ((s.addAnswer ⟨f.url, headers, a, s.now⟩).setBatch u p
        (some ⟨headers, .joining (fetches.set n
          { f with result := some (fetchSegment f.cacheKey a) })⟩)) t' := by
  -- the store after the answer
  have hstep : ∃ ds, (filledStore segmentKey (some config.segmentCacheTtl)).steps t ds = some
      { t with loads := t.loads ++ ((SegmentAnswer.mk f.url headers a s.now).load).toList } := by
    cases hload : (SegmentAnswer.mk f.url headers a s.now).load with
    | none => exact ⟨[], by rw [Option.toList_none, List.append_nil]; rfl⟩
    | some l =>
      obtain ⟨bytes, -, rfl⟩ := Option.map_eq_some_iff.mp hload
      refine ⟨[.load (f.url, headers) bytes], ?_⟩
      rw [Machine.steps_singleton, ← h.now]
      rfl
  have hadd : Follows config (s.addAnswer ⟨f.url, headers, a, s.now⟩)
      { t with loads := t.loads ++ ((SegmentAnswer.mk f.url headers a s.now).load).toList } :=
    { h with
      loads := by
        change t.loads ++ _ = (s.answers ++ [_]).filterMap _
        rw [h.loads, List.filterMap_append]
        congr 1
      batches := fun place b hplace => (h.batches place b hplace).mono fun l =>
        List.mem_append_left _ }
  obtain ⟨ds, hds⟩ := hstep
  refine ⟨ds, _, hds, hadd.setBatch ?_⟩
  rintro b ⟨⟩
  exact (h.batches _ _ hb).answer hf a s.now

/-- **One step of the pool** is matched by steps of the store. -/
theorem Follows.step (h : s.Follows config t) {e : SegmentEvent}
    (hstep : s.step config e = some s') :
    ∃ ds t', (filledStore segmentKey (some config.segmentCacheTtl)).steps t ds = some t' ∧
      s'.Follows config t' := by
  -- most steps are none of the store's business
  have hsame {s' : SegmentPool} (h' : s'.Follows config t) :
      ∃ ds t', (filledStore segmentKey (some config.segmentCacheTtl)).steps t ds = some t' ∧
        s'.Follows config t' := ⟨[], t, rfl, h'⟩
  cases e with
  | elapse d =>
    cases hstep
    exact ⟨[.elapse d], _, Machine.steps_singleton .., h.elapse d _⟩
  | register u i urls headers =>
    obtain ⟨b, -, rfl⟩ := Option.map_eq_some_iff.mp hstep
    exact hsame { h with }
  | visit u e =>
    simp only [SegmentPool.step] at hstep
    split at hstep
    · obtain ⟨b, -, rfl⟩ := Option.map_eq_some_iff.mp hstep
      exact hsame (h.setPlaylist u b)
    · cases hstep
  | arrive destination passHeaders hasRange playlistUrl =>
    cases hstep
    refine hsame { h with cached := fun c hc served e he => ?_ }
    rcases List.mem_append.mp hc with hc | hc
    · exact h.cached c hc served e he
    · obtain rfl := List.mem_singleton.mp hc
      cases he
  | notify k =>
    simp only [SegmentPool.step] at hstep
    split at hstep
    · split at hstep
      · split at hstep
        · obtain ⟨b, -, rfl⟩ := Option.map_eq_some_iff.mp hstep
          exact hsame ((h.setPlaylist _ b).setPhase nofun)
        · cases hstep
          exact hsame (h.setPhase nofun)
      · cases hstep
    · cases hstep
  | proceed k =>
    simp only [SegmentPool.step] at hstep
    split at hstep
    · split at hstep
      · cases hstep
        exact hsame (h.setPhase nofun)
      · cases hstep
    · cases hstep
  | look k =>
    simp only [SegmentPool.step] at hstep
    split at hstep
    · next c hc =>
      split at hstep
      · split at hstep
        · cases hstep
          exact hsame (h.setPhase nofun)
        · next hrange =>
          split at hstep <;> cases hstep
          · next e he =>
            obtain ⟨t', ht', hfollows⟩ := h.look (k := k) (Bool.eq_false_iff.mpr hrange) he
            exact ⟨[_], t', (Machine.steps_singleton ..).trans ht', hfollows⟩
          · exact hsame (h.setPhase nofun)
      · cases hstep
    · cases hstep
  | take u p =>
    obtain ⟨b, -, rfl⟩ := Option.map_eq_some_iff.mp hstep
    refine hsame ((h.setPlaylist u b).setBatch fun b' hb' => ?_)
    split at hb' <;> cases hb'
    exact ⟨nofun, nofun, nofun⟩
  | examine u p =>
    simp only [SegmentPool.step] at hstep
    split at hstep
    · next headers urls fetches hb =>
      cases hstep
      have hanswered := h.batches _ _ hb
      refine hsame (h.setBatch ?_)
      rintro _ ⟨⟩
      unfold examined
      split
      · exact ⟨hanswered.keys, hanswered.results, nofun⟩
      · next url rest =>
        dsimp only
        split
        · exact ⟨hanswered.keys, hanswered.results, nofun⟩
        · refine ⟨fun f hf => ?_, fun f hf => ?_, nofun⟩
          · rcases List.mem_append.mp hf with hf | hf
            · exact hanswered.keys f hf
            · obtain rfl := List.mem_singleton.mp hf
              rfl
          · rcases List.mem_append.mp hf with hf | hf
            · exact hanswered.results f hf
            · obtain rfl := List.mem_singleton.mp hf
              exact nofun
    · cases hstep
  | answer u p n a =>
    simp only [SegmentPool.step] at hstep
    split at hstep
    · next headers fetches hb =>
      split at hstep
      · next f hf =>
        split at hstep
        · cases hstep
          exact h.answer hb hf a
        · cases hstep
      · cases hstep
    · cases hstep
  | collect u p =>
    simp only [SegmentPool.step] at hstep
    split at hstep
    · next headers fetches hb =>
      split at hstep
      · cases hstep
        refine hsame (h.setBatch ?_)
        rintro _ ⟨⟩
        refine ⟨nofun, nofun, fun x hx => ?_⟩
        obtain ⟨f, hf, hresult⟩ := List.mem_filterMap.mp hx
        exact (h.batches _ _ hb).results f hf x (Option.join_eq_some_iff.mp hresult)
      · cases hstep
    · cases hstep
  | keep u p =>
    simp only [SegmentPool.step] at hstep
    split at hstep
    · next hb =>
      cases hstep
      obtain ⟨n, t', ht', hfollows⟩ := h.keep hb
      exact ⟨[.keep n], t', (Machine.steps_singleton ..).trans ht', hfollows⟩
    · cases hstep
  | again u p =>
    simp only [SegmentPool.step] at hstep
    split at hstep
    · obtain ⟨b, -, rfl⟩ := Option.map_eq_some_iff.mp hstep
      exact hsame ((h.setPlaylist u b).setBatch nofun)
    · cases hstep
  | drop key =>
    cases hstep
    refine ⟨[.drop key], _, Machine.steps_singleton .., { h with entries := fun k => ?_ }⟩
    change update t.entries key none k = (update s.cache.entries key none k).map _
    by_cases hk : k = key
    · rw [hk, Function.update_self, Function.update_self]
      rfl
    · rw [Function.update_of_ne hk, Function.update_of_ne hk]
      exact h.entries k

/-! ### What is fetched -/

/-- The URLs that were registered for a playlist, or asked for by its players. -/
def urls (s : SegmentPool) (u : Str) : Set Str :=
  { url | (∃ r ∈ s.registered, r.1 = u ∧ url ∈ r.2.1) ∨
    ∃ c ∈ s.calls, c.playlistUrl = some u ∧ c.destination = url }

/-- The headers that were registered for a playlist. -/
def headers (s : SegmentPool) (u : Str) : Set (List (Str × Str)) :=
  { hs | ∃ r ∈ s.registered, r.1 = u ∧ r.2.2 = hs }

/-- Nothing is fetched of the pool's own accord. -/
structure Fed (s : SegmentPool) : Prop where
  playlists : ∀ u, (s.playlists u).Sourced (s.urls u) (s.headers u)
  batches : ∀ u p b, s.batches (u, p) = some b →
    Prebuffer.BatchFrom (s.urls u) (s.headers u) b.stage.urls b.headers
  answers : ∀ a ∈ s.answers, ∃ u, a.url ∈ s.urls u ∧ a.headers ∈ s.headers u

theorem fed_new (config : PrebufferConfig) : (segmentMachine config).init.Fed where
  playlists _ := Prebuffer.sourced_new
  batches _ _ _ h := nomatch h
  answers _ h := nomatch h

/-- What came in once stays. -/
structure Keeps (s s' : SegmentPool) : Prop where
  registered : ∀ r ∈ s.registered, r ∈ s'.registered
  calls : ∀ c ∈ s.calls, ∃ c' ∈ s'.calls, c'.playlistUrl = c.playlistUrl ∧
    c'.destination = c.destination

theorem Keeps.urls (h : s.Keeps s') (u : Str) : s.urls u ⊆ s'.urls u := by
  rintro url (⟨r, hr, hrest⟩ | ⟨c, hc, hu, hdest⟩)
  · exact .inl ⟨r, h.registered r hr, hrest⟩
  · obtain ⟨c', hc', hu', hdest'⟩ := h.calls c hc
    exact .inr ⟨c', hc', hu'.trans hu, hdest'.trans hdest⟩

theorem Keeps.headers (h : s.Keeps s') (u : Str) : s.headers u ⊆ s'.headers u := by
  rintro hs ⟨r, hr, hrest⟩
  exact ⟨r, h.registered r hr, hrest⟩

/-- All that was fed stays so, when more comes in. -/
theorem Fed.mono (h : s.Fed) (hk : s.Keeps s') (hp : s'.playlists = s.playlists)
    (hb : s'.batches = s.batches) (ha : s'.answers = s.answers) : s'.Fed where
  playlists u := hp ▸ (h.playlists u).mono (hk.urls u) (hk.headers u)
  batches u p b hub := (h.batches u p b (hb ▸ hub)).mono (hk.urls u) (hk.headers u)
  answers a hmem := by
    obtain ⟨u, hurl, hheaders⟩ := h.answers a (ha ▸ hmem)
    exact ⟨u, hk.urls u hurl, hk.headers u hheaders⟩

theorem keeps_setPhase {k : ℕ} {c : SegmentCall} (hk : s.calls[k]? = some c)
    (phase : SegmentPhase) : s.Keeps (s.setPhase k c phase) := by
  refine ⟨fun _ => id, fun d hd => ?_⟩
  obtain ⟨j, hj⟩ := List.mem_iff_getElem?.mp hd
  by_cases hjk : j = k
  · -- the call goes on, and is still for the same segment
    subst hjk
    cases hk.symm.trans hj
    refine ⟨{ c with phase }, List.mem_of_getElem? (i := j) ?_, rfl, rfl⟩
    exact List.getElem?_set_self (List.getElem?_eq_some_iff.mp hj).1
  · refine ⟨d, List.mem_of_getElem? (i := j) ?_, rfl, rfl⟩
    exact (List.getElem?_set_ne (Ne.symm hjk)).trans hj

theorem Fed.setPhase (h : s.Fed) {k : ℕ} {c : SegmentCall} (hk : s.calls[k]? = some c)
    (phase : SegmentPhase) : (s.setPhase k c phase).Fed :=
  h.mono (keeps_setPhase hk phase) rfl rfl rfl

theorem Fed.setPlaylist (h : s.Fed) {u : Str} {b : Prebuffer}
    (hb : b.Sourced (s.urls u) (s.headers u)) : (s.setPlaylist u b).Fed :=
  { h with
    playlists := by
      intro u'
      change (update s.playlists u b u').Sourced _ _
      by_cases hu : u' = u
      · subst hu
        rw [Function.update_self]
        exact hb
      · rw [Function.update_of_ne hu]
        exact h.playlists u' }

theorem Fed.setBatch (h : s.Fed) {u : Str} {p : ℕ} {b : Option Batch}
    (hb : ∀ b' ∈ b, Prebuffer.BatchFrom (s.urls u) (s.headers u) b'.stage.urls b'.headers) :
    (s.setBatch u p b).Fed :=
  { h with
    batches := by
      intro u' p' b' hub
      obtain ⟨hplace, hb'⟩ | hub := mem_batches_of_update hub
      · cases hplace
        exact hb b' hb'
      · exact h.batches u' p' b' hub }

/-- One step. -/
theorem Fed.step (h : s.Fed) {e : SegmentEvent} (hstep : s.step config e = some s') : s'.Fed := by
  cases e with
  | elapse d =>
    cases hstep
    exact { h with playlists := fun u => (h.playlists u).elapse d }
  | register u i urls headers =>
    obtain ⟨b, hb, rfl⟩ := Option.map_eq_some_iff.mp hstep
    -- the call is noted first
    let s₁ : SegmentPool := { s with registered := s.registered ++ [(u, urls, headers)] }
    have hnew : (u, urls, headers) ∈ s₁.registered := List.mem_append_right _ List.mem_cons_self
    have hfed : s₁.Fed := h.mono
      ⟨fun _ => List.mem_append_left _, fun c hc => ⟨c, hc, rfl, rfl⟩⟩ rfl rfl rfl
    have hbrings : Prebuffer.Brings (s₁.urls u) (s₁.headers u) (.enter i urls headers) :=
      ⟨fun url hurl => .inl ⟨_, hnew, rfl, hurl⟩, _, hnew, rfl, rfl⟩
    exact hfed.setPlaylist ((hfed.playlists u).step config hbrings hb)
  | visit u e =>
    simp only [SegmentPool.step] at hstep
    split at hstep
    · next he =>
      obtain ⟨b, hb, rfl⟩ := Option.map_eq_some_iff.mp hstep
      refine h.setPlaylist ((h.playlists u).step config ?_ hb)
      cases e <;> first | exact trivial | cases he
    · cases hstep
  | arrive destination passHeaders hasRange playlistUrl =>
    cases hstep
    exact h.mono ⟨fun _ => id, fun c hc => ⟨c, List.mem_append_left _ hc, rfl, rfl⟩⟩ rfl rfl rfl
  | notify k =>
    simp only [SegmentPool.step] at hstep
    split at hstep
    · next c hc =>
      split at hstep
      · split at hstep
        · next u hu =>
          obtain ⟨b, hb, rfl⟩ := Option.map_eq_some_iff.mp hstep
          have hurl : c.destination ∈ s.urls u := .inr ⟨c, List.mem_of_getElem? hc, hu, rfl⟩
          exact (h.setPlaylist ((h.playlists u).step config (e := .request k _) hurl hb)).setPhase hc _
        · cases hstep
          exact h.setPhase hc _
      · cases hstep
    · cases hstep
  | proceed k =>
    simp only [SegmentPool.step] at hstep
    split at hstep
    · next c hc =>
      split at hstep
      · cases hstep
        exact h.setPhase hc _
      · cases hstep
    · cases hstep
  | look k =>
    simp only [SegmentPool.step] at hstep
    split at hstep
    · next c hc =>
      split at hstep
      · split at hstep
        · cases hstep
          exact h.setPhase hc _
        · split at hstep <;> cases hstep <;> exact h.setPhase hc _
      · cases hstep
    · cases hstep
  | take u p =>
    obtain ⟨b, hb, rfl⟩ := Option.map_eq_some_iff.mp hstep
    have hsourced := (h.playlists u).step config (e := .take p) trivial hb
    refine (h.setPlaylist hsourced).setBatch fun b' hb' => ?_
    split at hb' <;> cases hb'
    next urls headers hw =>
      change Prebuffer.BatchFrom (s.urls u) (s.headers u) (urls ++ []) headers
      rw [List.append_nil]
      exact hsourced.fetching p urls headers hw
  | examine u p =>
    simp only [SegmentPool.step] at hstep
    split at hstep
    · next headers urls fetches hb =>
      cases hstep
      have hfrom := h.batches u p _ hb
      refine h.setBatch ?_
      rintro _ ⟨⟩
      unfold examined
      split
      · exact hfrom
      · next url rest =>
        -- the batch is not empty
        have hheaders : headers ∈ s.headers u := hfrom.2.resolve_left nofun
        dsimp only
        split
        · exact ⟨fun url' hurl => hfrom.1 url' (List.mem_cons_of_mem _ hurl), .inr hheaders⟩
        · refine ⟨fun url' hurl => hfrom.1 url' ?_, .inr hheaders⟩
          -- the URL goes from one end of the list to the other
          have hmem : url' ∈ (rest ++ fetches.map (·.url)) ++ [url] := by
            rw [List.append_assoc]
            simpa [BatchStage.urls] using hurl
          rcases List.mem_append.mp hmem with hmem | hmem
          · exact List.mem_cons_of_mem _ hmem
          · rw [List.mem_singleton.mp hmem]
            exact List.mem_cons_self
    · cases hstep
  | answer u p n a =>
    simp only [SegmentPool.step] at hstep
    split at hstep
    · next headers fetches hb =>
      split at hstep
      · next f hf =>
        split at hstep
        · cases hstep
          have hfrom := h.batches u p _ hb
          have hmem : f.url ∈ fetches.map (·.url) := List.mem_map_of_mem (List.mem_of_getElem? hf)
          have hheaders : headers ∈ s.headers u :=
            hfrom.2.resolve_left fun hnil => absurd hmem (by
              rw [show fetches.map (·.url) = [] from hnil]
              exact List.not_mem_nil)
          have hadd : (s.addAnswer ⟨f.url, headers, a, s.now⟩).Fed :=
            { h with
              answers := by
                intro a' ha'
                rcases List.mem_append.mp ha' with ha' | ha'
                · exact h.answers a' ha'
                · obtain rfl := List.mem_singleton.mp ha'
                  exact ⟨u, hfrom.1 _ hmem, hheaders⟩ }
          refine hadd.setBatch ?_
          rintro _ ⟨⟩
          refine ⟨fun url hurl => hfrom.1 url ?_, .inr hheaders⟩
          obtain ⟨g, hg, rfl⟩ := List.mem_map.mp hurl
          rcases List.mem_or_eq_of_mem_set hg with hg | rfl
          · exact List.mem_map_of_mem hg
          · exact hmem
        · cases hstep
      · cases hstep
    · cases hstep
  | collect u p =>
    simp only [SegmentPool.step] at hstep
    split at hstep
    · split at hstep
      · cases hstep
        refine h.setBatch ?_
        rintro _ ⟨⟩
        exact ⟨nofun, .inl rfl⟩
      · cases hstep
    · cases hstep
  | keep u p =>
    simp only [SegmentPool.step] at hstep
    split at hstep
    · cases hstep
      have hcache : ∀ cache, Fed { s with cache } := fun _ => { h with }
      refine (hcache _).setBatch ?_
      rintro _ ⟨⟩
      exact ⟨nofun, .inl rfl⟩
    · cases hstep
  | again u p =>
    simp only [SegmentPool.step] at hstep
    split at hstep
    · obtain ⟨b, hb, rfl⟩ := Option.map_eq_some_iff.mp hstep
      exact (h.setPlaylist ((h.playlists u).step config (e := .again p) trivial hb)).setBatch nofun
    · cases hstep
  | drop key =>
    cases hstep
    exact { h with }

end SegmentPool

/-! ### Runs -/

/-- The pool **refines** the store. -/
theorem refines_filledStore (config : PrebufferConfig) :
    (segmentMachine config).Refines (filledStore segmentKey (some config.segmentCacheTtl))
      (SegmentPool.Follows config) where
  init := {
    now := rfl
    loads := rfl
    timeToLive := rfl
    entries := fun _ => rfl
    cached := fun _ h => nomatch h
    batches := fun _ _ h => nomatch h }
  step _ _ _ _ h hstep := h.step hstep

namespace SegmentPool

/-- The response came for a URL and headers that the pool was given for one playlist. -/
def Wanted (s : SegmentPool) (a : SegmentAnswer) : Prop :=
  ∃ u, (∃ r ∈ s.registered, r.1 = u ∧ r.2.2 = a.headers) ∧
    ((∃ r ∈ s.registered, r.1 = u ∧ a.url ∈ r.2.1) ∨
      ∃ c ∈ s.calls, c.playlistUrl = some u ∧ c.destination = a.url)

/-- The entry holds the body of a successful response to this very request. -/
structure Genuine (config : PrebufferConfig) (s : SegmentPool) (c : SegmentCall) (served : ℕ)
    (e : CacheEntry) (a : SegmentAnswer) : Prop where
  success : ∃ status, a.response = .response status (some e.value) ∧ 200 ≤ status ∧ status < 300
  key : segmentCacheKey a.url a.headers = segmentCacheKey c.destination c.passHeaders
  /-- Where no URL has a line break, the keys say all. -/
  same : '\n' ∉ a.url → '\n' ∉ c.destination →
    a.url = c.destination ∧ SameHeaders a.headers c.passHeaders
  fetched : a.atTime ≤ e.inserted
  stored : e.inserted ≤ served
  fresh : served < e.inserted + config.segmentCacheTtl
  wanted : s.Wanted a

end SegmentPool

/-- **What is served from the cache**, in every run: never to a request for a range, and always a
genuine segment. -/
theorem cachedSegments (config : PrebufferConfig) {s : SegmentPool}
    (hs : (segmentMachine config).Reaches Machine.Anyhow s) {c : SegmentCall} (hc : c ∈ s.calls)
    {served : ℕ} {e : CacheEntry} (hp : c.phase = .cached served e) :
    c.hasRange = false ∧ ∃ a ∈ s.answers, s.Genuine config c served e a := by
  have hfed : s.Fed := hs.invariant (SegmentPool.fed_new config)
    fun _ _ _ ih _ hstep => SegmentPool.Fed.step ih hstep
  obtain ⟨t, ht, hfollows⟩ := (refines_filledStore config).exists_reaches hs
  obtain ⟨hrange, hhit⟩ := hfollows.cached c hc served e hp
  -- what the store says of its hit
  obtain ⟨⟨l, hl, hkey, hvalue, hfetched⟩, hstored, hlive⟩ := filledStore_hits ht _ hhit
  rw [hfollows.loads] at hl
  obtain ⟨a, ha, hload⟩ := List.mem_filterMap.mp hl
  obtain ⟨bytes, hbytes, rfl⟩ := Option.map_eq_some_iff.mp hload
  obtain ⟨u, hurl, hheaders⟩ := hfed.answers a ha
  cases hvalue
  exact ⟨hrange, a, ha, {
    success := UpstreamAnswer.successBody_eq_some_iff.mp hbytes
    key := hkey
    same := fun h₁ h₂ => (segmentCacheKey_eq_iff_of_noBreak h₁ h₂).mp hkey
    fetched := hfetched
    stored := hstored
    fresh := hlive _ rfl
    wanted := ⟨u, hheaders, hurl⟩ }⟩

/-- A playlist is registered with a header, its worker fetches the segment, and a player gets it. -/
def prefetchedRun : List SegmentEvent :=
  [.register "p".toList 0 ["http://h/1.ts".toList] [("k".toList, "v".toList)],
    .visit "p".toList (.insert 0), .visit "p".toList (.spawn 0), .visit "p".toList (.check 0),
    .visit "p".toList (.judge 0), .take "p".toList 0, .examine "p".toList 0,
    .examine "p".toList 0, .answer "p".toList 0 0 (.response 200 (some [0x47])),
    .collect "p".toList 0, .keep "p".toList 0, .again "p".toList 0, .elapse (fromSecs 10),
    .arrive "http://h/1.ts".toList [("K".toList, "v".toList)] false none, .notify 0, .look 0]

theorem cachedSegments_prefetchedRun :
    ∃ s c, (segmentMachine .default).Reaches Machine.Anyhow s ∧ c ∈ s.calls ∧
      c.phase = .cached (fromSecs 10) ⟨[0x47], 0⟩ ∧ c.hasRange = false ∧
      ∃ a ∈ s.answers, s.Genuine .default c (fromSecs 10) ⟨[0x47], 0⟩ a := by
  have hrun : ((segmentMachine .default).run prefetchedRun).map
      (fun s => s.calls[0]?.map fun c => c.phase) =
      some (some (.cached (fromSecs 10) ⟨[0x47], 0⟩)) := by decide +kernel
  obtain ⟨s, hs, hcall⟩ := Option.map_eq_some_iff.mp hrun
  obtain ⟨c, hc, hphase⟩ := Option.map_eq_some_iff.mp hcall
  have hreaches := Machine.reaches_run hs
  exact ⟨s, c, hreaches, List.mem_of_getElem? hc, hphase,
    cachedSegments .default hreaches (List.mem_of_getElem? hc) hphase⟩

end MediaFlow
