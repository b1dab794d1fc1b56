import MediaFlow.Epg.Handler

/-!
# The age of cached guides

A guide that is served from the cache should be younger than the TTL of the request, and requests
with the TTL 0 should leave the cache alone. The cache has one time to live for all entries, that of
the configuration. A request whose own TTL is shorter is served older guides
(`servesFresh_fails`); `servesFresh`: without such requests all guides are as young as they should
be.
-/

open ByteString Text

namespace MediaFlow

/-- Where a request is. -/
inductive EpgPhase
  | arrived
  | fetching
  /-- Served from the cache at `served`; the guide was stored when it was fetched. -/
  | hit (served : ℕ) (entry : CacheEntry)
  /-- Served with what was fetched at that time. -/
  | miss (entry : CacheEntry)
  | failed
deriving DecidableEq

structure EpgCall where
  request : EpgRequest
  phase : EpgPhase

/-- What the client gets. -/
def EpgCall.response (c : EpgCall) : Option EpgResponse :=
  match c.phase with
  | .hit _ e => some (buildResponse e.value "HIT".toList c.request.effectiveTtl)
  | .miss e => some (buildResponse e.value "MISS".toList c.request.effectiveTtl)
  | _ => none

/-- The responses that say they are from the cache are. -/
theorem EpgCall.response_hit_iff {c : EpgCall} :
    (∃ r, c.response = some r ∧ ("X-EPG-Cache".toList, "HIT".toList) ∈ r.headers) ↔
      ∃ served e, c.phase = .hit served e := by
  constructor
  · rintro ⟨r, hr, hmem⟩
    unfold EpgCall.response at hr
    split at hr
    · next served e hp => exact ⟨served, e, hp⟩
    · cases hr
      -- no other header has that name
      rcases List.mem_cons.mp hmem with h | hmem
      · exact absurd h (by decide)
      · rcases List.mem_cons.mp hmem with h | hmem
        · exact absurd h (by decide)
        · exact absurd (Prod.mk.inj (List.mem_singleton.mp hmem)).1 (by decide)
    · cases hr
  · rintro ⟨served, e, hp⟩
    refine ⟨_, by unfold EpgCall.response; rw [hp], ?_⟩
    exact List.mem_cons_of_mem _ List.mem_cons_self

structure EpgServer where
  now : ℕ
  cache : LocalCache
  calls : List EpgCall

inductive EpgEvent
  | elapse (d : ℕ)
  | arrive (query : List (Str × Str))
  /-- The request `i` looks into the cache. -/
  | read (i : ℕ)
  /-- The fetch for the request `i` ends, with a guide. It is stored at once. -/
  | fetched (i : ℕ) (body : Bytes)
  | fail (i : ℕ)
  /-- The cache drops an entry to keep its size. -/
  | evict (key : Str)

namespace EpgServer

variable (s : EpgServer)

def setPhase (i : ℕ) (c : EpgCall) (phase : EpgPhase) : EpgServer :=
  { s with calls := s.calls.set i { c with phase } }

/-- What an event does, `none` where it cannot happen now. -/
def step (crates : EpgCrates) (cacheTtl : ℕ) : EpgEvent → Option EpgServer
  | .elapse d => some { s with now := s.now + d }
  | .arrive query =>
    match EpgRequest.ofQuery crates cacheTtl query with
    | .ok r => some { s with calls := s.calls ++ [⟨r, .arrived⟩] }
    | .error _ => some s
  | .read i =>
    match s.calls[i]? with
    | some c =>
      if c.phase = .arrived then
        match c.request.lookUp crates s.cache s.now with
        | some e => some (s.setPhase i c (.hit s.now e))
        | none => some (s.setPhase i c .fetching)
      else none
    | none => none
  | .fetched i body =>
    match s.calls[i]? with
    | some c =>
      if c.phase = .fetching then
        some ({ s with cache := c.request.store crates s.cache s.now body }.setPhase i c
          (.miss ⟨body, s.now⟩))
      else none
    | none => none
  | .fail i =>
    match s.calls[i]? with
    | some c => if c.phase = .fetching then some (s.setPhase i c .failed) else none
    | none => none
  | .evict key => some { s with cache := s.cache.remove key }

/-- A guide from the cache is younger than the TTL of its request, and some request for the same
guide has fetched it. -/
def Fresh (crates : EpgCrates) (c : EpgCall) : Prop :=
  ∀ served e, c.phase = .hit served e →
    served < e.inserted + fromSecs c.request.effectiveTtl ∧
      ∃ d ∈ s.calls, d.phase = .miss e ∧ d.request.cacheKey crates = c.request.cacheKey crates

/-- The event is a step of a request with the TTL 0. -/
def Uncached (e : EpgEvent) : Prop :=
  ∃ i c, (e = .read i ∨ ∃ body, e = .fetched i body) ∧ s.calls[i]? = some c ∧
    c.request.effectiveTtl = 0

/-- **The condition on steps.** A request has the TTL 0, or at least that of the cache. -/
def Orderly (crates : EpgCrates) (cacheTtl : ℕ) : EpgEvent → Prop
  | .arrive query => ∀ r, EpgRequest.ofQuery crates cacheTtl query = .ok r →
      r.effectiveTtl = 0 ∨ max cacheTtl 1 ≤ r.effectiveTtl
  | _ => True

end EpgServer

/-- The handler, from the start of the server on. -/
def epgMachine (crates : EpgCrates) (cacheTtl : ℕ) : Machine EpgServer EpgEvent :=
  ⟨⟨0, epgCache cacheTtl, []⟩, fun s e => s.step crates cacheTtl e⟩

/-- In every run whose steps all meet `ok`: guides from the cache are fresh, and the steps of
requests with the TTL 0 neither read nor fill the cache. -/
structure ServesFresh (crates : EpgCrates) (cacheTtl : ℕ) (ok : EpgServer → EpgEvent → Prop) :
    Prop where
  fresh : ∀ s, (epgMachine crates cacheTtl).Reaches ok s → ∀ c ∈ s.calls, s.Fresh crates c
  unread : ∀ s, (epgMachine crates cacheTtl).Reaches ok s → ∀ c ∈ s.calls,
    c.request.effectiveTtl = 0 → ∀ served e, c.phase ≠ .hit served e
  unfilled : ∀ s e s', (epgMachine crates cacheTtl).Reaches ok s → s.Uncached e →
    s.step crates cacheTtl e = some s' → s'.cache = s.cache

namespace EpgServer

variable {crates : EpgCrates} {cacheTtl : ℕ} {s s' : EpgServer}

/-- The invariant. -/
structure Aged (crates : EpgCrates) (cacheTtl : ℕ) (s : EpgServer) : Prop where
  timeToLive : s.cache.timeToLive = fromSecs (max cacheTtl 1)
  ttl : ∀ c ∈ s.calls, c.request.effectiveTtl = 0 ∨ max cacheTtl 1 ≤ c.request.effectiveTtl
  stored : ∀ key e, s.cache.entries key = some e →
    ∃ d ∈ s.calls, d.phase = .miss e ∧ d.request.cacheKey crates = key
  fresh : ∀ c ∈ s.calls, s.Fresh crates c
  unread : ∀ c ∈ s.calls, c.request.effectiveTtl = 0 → ∀ served e, c.phase ≠ .hit served e

theorem aged_new : Aged crates cacheTtl ⟨0, epgCache cacheTtl, []⟩ where
  timeToLive := rfl
  ttl _ h := nomatch h
  stored _ _ h := nomatch h
  fresh _ h := nomatch h
  unread _ h := nomatch h

/-- A request goes on, from a phase in which it was not yet answered. What others have fetched stays
fetched. -/
theorem mem_setPhase {i : ℕ} {c d : EpgCall} {phase : EpgPhase} {e : CacheEntry}
    (hi : s.calls[i]? = some c) (hc : c.phase = .arrived ∨ c.phase = .fetching)
    (hd : d ∈ s.calls) (hmiss : d.phase = .miss e) : d ∈ (s.setPhase i c phase).calls := by
  obtain ⟨j, hj⟩ := List.mem_iff_getElem?.mp hd
  have hji : j ≠ i := by
    rintro rfl
    rw [hi] at hj
    cases hj
    rw [hmiss] at hc
    exact hc.elim nofun nofun
  refine List.mem_of_getElem? (i := j) ?_
  show (s.calls.set i _)[j]? = some d
  rw [List.getElem?_set_ne (Ne.symm hji), hj]

/-- The request `i` goes on to `phase`. -/
theorem Aged.setPhase (h : s.Aged crates cacheTtl) {i : ℕ} {c : EpgCall} {phase : EpgPhase}
    {cache : LocalCache} (hi : s.calls[i]? = some c)
    (hc : c.phase = .arrived ∨ c.phase = .fetching)
    (hlive : cache.timeToLive = s.cache.timeToLive)
    (hstored : ∀ key e, cache.entries key = some e → s.cache.entries key = some e ∨
      phase = .miss e ∧ c.request.cacheKey crates = key)
    (hhit : ∀ served e, phase = .hit served e → c.request.effectiveTtl ≠ 0 ∧
      s.cache.entries (c.request.cacheKey crates) = some e ∧
      served < e.inserted + s.cache.timeToLive) :
    ({ s with cache }.setPhase i c phase).Aged crates cacheTtl := by
  have hmem := List.mem_of_getElem? hi
  have hself : { c with phase } ∈ (s.setPhase i c phase).calls :=
    List.mem_of_getElem? (List.getElem?_set_self (List.getElem?_eq_some_iff.mp hi).1)
  -- a guide that is fresh stays so, and who fetched it stays there
  have hkeeps {d : EpgCall} (hd : s.Fresh crates d) :
      ({ s with cache }.setPhase i c phase).Fresh crates d := by
    intro served e hp
    obtain ⟨hage, f, hf, hmiss, hkey⟩ := hd served e hp
    exact ⟨hage, f, mem_setPhase hi hc hf hmiss, hmiss, hkey⟩
  refine ⟨hlive.trans h.timeToLive, List.forall_mem_set h.ttl (h.ttl c hmem), ?_,
    List.forall_mem_set (fun d hd => hkeeps (h.fresh d hd)) ?_, List.forall_mem_set h.unread ?_⟩
  · intro key e hentry
    obtain hold | ⟨rfl, hkey⟩ := hstored key e hentry
    · obtain ⟨d, hd, hmiss, hkey⟩ := h.stored key e hold
      exact ⟨d, mem_setPhase hi hc hd hmiss, hmiss, hkey⟩
    · exact ⟨_, hself, rfl, hkey⟩
  · intro served e hp
    obtain ⟨hpos, hentry, hage⟩ := hhit served e hp
    obtain ⟨d, hd, hmiss, hkey⟩ := h.stored _ e hentry
    refine ⟨hage.trans_le ?_, d, mem_setPhase hi hc hd hmiss, hmiss, hkey⟩
    -- the cache keeps nothing longer than the request allows
    have hle := (h.ttl c hmem).resolve_left hpos
    rw [h.timeToLive]
    exact Nat.add_le_add_left (Nat.mul_le_mul_right _ hle) _
  · intro hzero served e hp
    exact (hhit served e hp).1 hzero

theorem Aged.arrive (h : s.Aged crates cacheTtl) {r : EpgRequest}
    (hr : r.effectiveTtl = 0 ∨ max cacheTtl 1 ≤ r.effectiveTtl) :
    Aged crates cacheTtl { s with calls := s.calls ++ [⟨r, .arrived⟩] } := by
  have hmem {c : EpgCall} (hc : c ∈ s.calls ++ [⟨r, .arrived⟩]) :
      c ∈ s.calls ∨ c = ⟨r, .arrived⟩ := by
    rcases List.mem_append.mp hc with hc | hc
    · exact .inl hc
    · exact .inr (List.mem_singleton.mp hc)
  refine ⟨h.timeToLive, ?_, ?_, ?_, ?_⟩
  · intro c hc
    obtain hc | rfl := hmem hc
    · exact h.ttl c hc
    · exact hr
  · intro key e hentry
    obtain ⟨d, hd, hmiss⟩ := h.stored key e hentry
    exact ⟨d, List.mem_append_left _ hd, hmiss⟩
  · intro c hc served e hp
    obtain hc | rfl := hmem hc
    · obtain ⟨hage, d, hd, hmiss⟩ := h.fresh c hc served e hp
      exact ⟨hage, d, List.mem_append_left _ hd, hmiss⟩
    · cases hp
  · intro c hc hzero
    obtain hc | rfl := hmem hc
    · exact h.unread c hc hzero
    · exact nofun

/-- One orderly step. -/
theorem Aged.step {e : EpgEvent} (h : s.Aged crates cacheTtl) (hok : Orderly crates cacheTtl e)
    (hstep : s.step crates cacheTtl e = some s') : s'.Aged crates cacheTtl := by
  cases e with
  | elapse d =>
    cases hstep
    exact { h with }
  | arrive query =>
    simp only [EpgServer.step] at hstep
    split at hstep <;> cases hstep
    · next r hr => exact h.arrive (hok r hr)
    · exact h
  | read i =>
    simp only [EpgServer.step] at hstep
    split at hstep
    · next c hi =>
      split at hstep
      · next hc =>
        split at hstep <;> cases hstep
        · next e he =>
          obtain ⟨hpos, hlive⟩ := EpgRequest.lookUp_eq_some_iff.mp he
          refine h.setPhase hi (.inl hc) rfl (fun _ _ => .inl) fun served e' hp => ?_
          cases hp
          exact ⟨hpos.ne', LocalCache.live_eq_some_iff.mp hlive⟩
        · exact h.setPhase hi (.inl hc) rfl (fun _ _ => .inl) nofun
      · cases hstep
    · cases hstep
  | fetched i body =>
    simp only [EpgServer.step] at hstep
    split at hstep
    · next c hi =>
      split at hstep
      · next hc =>
        cases hstep
        refine h.setPhase hi (.inr hc) (EpgRequest.store_timeToLive ..) (fun key e hentry => ?_) nofun
        unfold EpgRequest.store at hentry
        split at hentry
        · obtain ⟨hkey, rfl⟩ | hold := LocalCache.entries_set_eq_some hentry
          · exact .inr ⟨rfl, hkey.symm⟩
          · exact .inl hold
        · exact .inl hentry
      · cases hstep
    · cases hstep
  | fail i =>
    simp only [EpgServer.step] at hstep
    split at hstep
    · next c hi =>
      split at hstep
      · next hc =>
        cases hstep
        exact h.setPhase hi (.inr hc) rfl (fun _ _ => .inl) nofun
      · cases hstep
    · cases hstep
  | evict key =>
    cases hstep
    exact { h with stored := fun key' e hentry => h.stored key' e (LocalCache.entries_remove_eq_some hentry) }

/-- A request with the TTL 0 leaves the cache as it is, in every run. -/
theorem step_cache_of_uncached {e : EpgEvent} (h : s.Uncached e)
    (hstep : s.step crates cacheTtl e = some s') : s'.cache = s.cache := by
  obtain ⟨i, c, rfl | ⟨body, rfl⟩, hi, hzero⟩ := h
  · simp only [EpgServer.step, hi] at hstep
    split at hstep
    · split at hstep <;> cases hstep <;> rfl
    · cases hstep
  · simp only [EpgServer.step, hi] at hstep
    split at hstep
    · cases hstep
      exact EpgRequest.store_of_zero hzero ..
    · cases hstep

end EpgServer

/-- **Guides are fresh** in runs in which no request has a TTL between 0 and that of the cache. -/
theorem servesFresh (crates : EpgCrates) (cacheTtl : ℕ) :
    ServesFresh crates cacheTtl fun _ e => EpgServer.Orderly crates cacheTtl e := by
  have haged {s : EpgServer} (hs : (epgMachine crates cacheTtl).Reaches
      (fun _ e => EpgServer.Orderly crates cacheTtl e) s) : s.Aged crates cacheTtl :=
    hs.invariant (P := EpgServer.Aged crates cacheTtl) EpgServer.aged_new
      fun _ _ _ ih hok hstep => EpgServer.Aged.step ih hok hstep
  exact ⟨fun s hs => (haged hs).fresh, fun s hs => (haged hs).unread,
    fun s e s' _ he hstep => EpgServer.step_cache_of_uncached he hstep⟩

/-! ### A guide older than it may be -/

/-- Crates for requests without headers. No URL is in base64. -/
def noHeaders : EpgCrates where
  toTokenCrates := ⟨fun _ => .error [], fun _ _ _ => none, fun _ => none, fun _ => .error []⟩
  standardDecode _ := none
  urlSafeEncode _ := []
  encryptPadded _ _ _ := []
  writeProxyData _ := []
  parseUrl _ := none
  headerName _ := none
  headerValue _ := none
  toStr _ := none

/-- A guide is fetched for a request without a TTL of its own. After 100 seconds it is asked for with
a TTL of ten. -/
def shortTtl : List EpgEvent :=
  [.arrive [("d".toList, "http://h/e.xml".toList)], .read 0, .fetched 0 [0x3c],
    .elapse (fromSecs 100),
    .arrive [("d".toList, "http://h/e.xml".toList), ("cache_ttl".toList, "10".toList)], .read 1]

theorem servesFresh_fails : ¬ ServesFresh noHeaders 3600 Machine.Anyhow := by
  intro h
  have hrun : ((epgMachine noHeaders 3600).run shortTtl).map
      (fun s => s.calls[1]?.map fun c => (c.request.effectiveTtl, c.phase)) =
      some (some (10, .hit (fromSecs 100) ⟨[0x3c], 0⟩)) := by decide +kernel
  cases hs : (epgMachine noHeaders 3600).run shortTtl with
  | none =>
    rw [hs] at hrun
    cases hrun
  | some s =>
    rw [hs] at hrun
    obtain ⟨c, hc, hphase⟩ := Option.map_eq_some_iff.mp (Option.some.inj hrun)
    obtain ⟨httl, hhit⟩ := Prod.mk.inj hphase
    have hage := (h.fresh s (Machine.reaches_run hs) c (List.mem_of_getElem? hc) _ _ hhit).1
    rw [httl] at hage
    exact absurd hage (by decide)

end MediaFlow
