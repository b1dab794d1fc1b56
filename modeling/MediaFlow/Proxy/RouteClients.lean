import MediaFlow.Config.ProxyRouter
import MediaFlow.Error
import MediaFlow.Lib.FilledStore

/-!
# Clients of upstream requests

How `make_request_raw` and `forward_request` of `proxy/stream.rs` come by the HTTP client of a
request: the client of the route that is for the URL, made when it is first needed and kept for all
later requests under a text of the route's settings; or the default client. Looking for a client,
making one and keeping it are three steps, so that requests may make the same client several times.

A client is what it was made with. `upstreamClients`: whatever other requests do meanwhile, a request
is sent with the client that it would make for itself, or fails as it would then. Only a route with
an empty proxy URL may find the client of a route without one.
-/

open Text

namespace MediaFlow

inductive RedirectPolicy
  | follow
  | stop
  /-- The default of `reqwest`. -/
  | upToTen
deriving DecidableEq

/-- Settings of a client, with a proxy of type `π` for all requests. -/
structure ClientSettings (π : Type) where
  proxy : Option π
  acceptInvalidCerts : Bool
  redirect : RedirectPolicy
deriving DecidableEq

/-- The crate `reqwest`. -/
structure ClientCrates (π : Type) where
  /-- `Proxy::all`. -/
  proxyAll : Str → Except Str π
  /-- The error of `ClientBuilder::build`. -/
  buildError : ClientSettings π → Option Str

/-- `bool` as text. -/
def boolText (b : Bool) : Str := if b then "true".toList else "false".toList

/-- The key of a route's client. -/
def ProxyRouteConfig.cacheKey (route : ProxyRouteConfig) : Str :=
  boolText route.proxy ++ '|' :: (route.proxyUrl.getD [] ++ '|' :: boolText route.verifySsl)

theorem boolText_injective : Function.Injective boolText := by decide

/-- Texts of two values end differently. -/
theorem append_boolText_inj {s t : Str} {a b : Bool}
    (h : s ++ '|' :: boolText a = t ++ '|' :: boolText b) : s = t ∧ a = b := by
  have hlast {s t : Str} : s ++ '|' :: boolText true ≠ t ++ '|' :: boolText false := by
    intro h
    have := congrArg (fun l : Str => l.reverse[1]?) h
    simp [boolText] at this
  cases a <;> cases b
  · exact ⟨List.append_cancel_right h, rfl⟩
  · exact absurd h.symm hlast
  · exact absurd h hlast
  · exact ⟨List.append_cancel_right h, rfl⟩

/-- **What a key says.** -/
theorem ProxyRouteConfig.cacheKey_eq_iff {r r' : ProxyRouteConfig} :
    r.cacheKey = r'.cacheKey ↔
      r.proxy = r'.proxy ∧ r.proxyUrl.getD [] = r'.proxyUrl.getD [] ∧ r.verifySsl = r'.verifySsl := by
  constructor
  · intro h
    unfold cacheKey at h
    have hproxy : r.proxy = r'.proxy := by
      have := congrArg List.head? h
      cases hr : r.proxy <;> cases hr' : r'.proxy <;> simp [hr, hr', boolText] at this ⊢
    rw [hproxy] at h
    have hrest := append_boolText_inj (List.cons.inj (List.append_cancel_left h)).2
    exact ⟨hproxy, hrest⟩
  · rintro ⟨hproxy, hurl, hverify⟩
    unfold cacheKey
    rw [hproxy, hurl, hverify]

section Clients

variable {π : Type} (crates : ClientCrates π)

/-- A default proxy that is not understood is left out. -/
def createDefaultClient (followRedirects : Bool) (defaultProxy : Option Str) : ClientSettings π where
  proxy := defaultProxy.bind fun url => (crates.proxyAll url).toOption
  acceptInvalidCerts := false
  redirect := if followRedirects then .follow else .stop

/-- The proxy of a route. -/
def routeProxy (route : ProxyRouteConfig) : Except AppError (Option π) :=
  match route.proxy, route.proxyUrl with
  | true, some proxyUrl =>
    match crates.proxyAll proxyUrl with
    | .ok proxy => .ok (some proxy)
    | .error e => .error (.internal ("Failed to create route proxy client: ".toList ++ e))
  | _, _ => .ok none

def buildRouteClient (route : ProxyRouteConfig) : Except AppError (ClientSettings π) := do
  let proxy ← routeProxy crates route
  let settings : ClientSettings π := ⟨proxy, !route.verifySsl, .upToTen⟩
  match crates.buildError settings with
  | some e => throw (.internal ("Failed to build route client: ".toList ++ e))
  | none => return settings

/-- The settings, and nothing but them, come from the route. -/
theorem buildRouteClient_eq_ok_iff {route : ProxyRouteConfig} {c : ClientSettings π} :
    buildRouteClient crates route = .ok c ↔
      routeProxy crates route = .ok c.proxy ∧ crates.buildError c = none ∧
        c.acceptInvalidCerts = !route.verifySsl ∧ c.redirect = .upToTen := by
  unfold buildRouteClient
  cases routeProxy crates route with
  | error e => exact iff_of_false nofun fun h => nomatch h.1
  | ok proxy =>
    change (match crates.buildError ⟨proxy, !route.verifySsl, .upToTen⟩ with
      | some e => _
      | none => _) = _ ↔ _
    constructor
    · intro h
      split at h
      · cases h
      · next hbuild =>
        cases h
        exact ⟨rfl, hbuild, rfl, rfl⟩
    · obtain ⟨proxy', accept, redirect⟩ := c
      rintro ⟨hproxy, hbuild, haccept, hredirect⟩
      cases hproxy
      cases haccept
      cases hredirect
      split
      · next e he => exact absurd (hbuild.symm.trans he) nofun
      · rfl

/-- Where a request is. -/
inductive ClientPhase (π : Type)
  | arrived
  /-- There is no client for its route. -/
  | missed (route : ProxyRouteConfig)
  | built (route : ProxyRouteConfig) (client : ClientSettings π)
  | sending (client : ClientSettings π)
  | failed (e : AppError)
deriving DecidableEq

structure ClientCall (π : Type) where
  url : Str
  phase : ClientPhase π

/-- The calls, and `route_clients`. -/
structure RouteClients (π : Type) where
  clients : Str → Option (ClientSettings π)
  calls : List (ClientCall π)

inductive ClientEvent
  | arrive (url : Str)
  | look (i : ℕ)
  | build (i : ℕ)
  | insert (i : ℕ)

namespace RouteClients

variable (s : RouteClients π)

def setPhase (i : ℕ) (c : ClientCall π) (phase : ClientPhase π) : RouteClients π :=
  { s with calls := s.calls.set i { c with phase } }

/-- What an event does, `none` where it cannot happen now. `route` is `get_proxy_config`. -/
def step (route : Str → Option ProxyRouteConfig) (default : ClientSettings π) :
    ClientEvent → Option (RouteClients π)
  | .arrive url => some { s with calls := s.calls ++ [⟨url, .arrived⟩] }
  | .look i =>
    match s.calls[i]? with
    | some c =>
      match c.phase with
      | .arrived =>
        match route c.url with
        | none => some (s.setPhase i c (.sending default))
        | some r =>
          match s.clients r.cacheKey with
          | some client => some (s.setPhase i c (.sending client))
          | none => some (s.setPhase i c (.missed r))
      | _ => none
    | none => none
  | .build i =>
    match s.calls[i]? with
    | some c =>
      match c.phase with
      | .missed r =>
        match buildRouteClient crates r with
        | .ok client => some (s.setPhase i c (.built r client))
        | .error e => some (s.setPhase i c (.failed e))
      | _ => none
    | none => none
  | .insert i =>
    match s.calls[i]? with
    | some c =>
      match c.phase with
      | .built r client =>
        some ({ s with clients := Function.update s.clients r.cacheKey (some client) }.setPhase i c
          (.sending client))
      | _ => none
    | none => none

end RouteClients

end Clients

/-- Requests of one `StreamManager`, with the crates, the router and the setting `follow_redirects`. -/
def clientMachine {π : Type} (crates : ClientCrates π) (routeCrates : RouteCrates)
    (router : ProxyRouter) (followRedirects : Bool) : Machine (RouteClients π) ClientEvent :=
  ⟨⟨fun _ => none, []⟩, fun s e => s.step crates (router.getProxyConfig routeCrates)
    (createDefaultClient crates followRedirects router.defaultProxy) e⟩

/-! ### The store of clients -/

namespace RouteClients

open Function (update)

variable {π : Type} {crates : ClientCrates π} {route : Str → Option ProxyRouteConfig}
  {default : ClientSettings π} {s s' : RouteClients π}
  {t : FilledStore ProxyRouteConfig Str (ClientSettings π)}

/-- The client is the default one, or was found for the route, or made for it. -/
def FromStore (default : ClientSettings π)
    (t : FilledStore ProxyRouteConfig Str (ClientSettings π)) (client : ClientSettings π) :
    Option ProxyRouteConfig → Prop
  | none => client = default
  | some r => ⟨r, client, 0, 0⟩ ∈ t.hits ∨ ⟨r, client, 0⟩ ∈ t.loads

/-- The clients in the state `s` are what the store has in the state `t`. -/
structure Follows (crates : ClientCrates π) (route : Str → Option ProxyRouteConfig)
    (default : ClientSettings π) (s : RouteClients π)
    (t : FilledStore ProxyRouteConfig Str (ClientSettings π)) : Prop where
  now : t.now = 0
  entries : ∀ k, t.entries k = (s.clients k).map fun client => (client, 0)
  loads : ∀ l ∈ t.loads, buildRouteClient crates l.request = .ok l.value
  missed : ∀ c ∈ s.calls, ∀ r, c.phase = .missed r → route c.url = some r
  built : ∀ c ∈ s.calls, ∀ r client, c.phase = .built r client →
    route c.url = some r ∧ ⟨r, client, 0⟩ ∈ t.loads
  sending : ∀ c ∈ s.calls, ∀ client, c.phase = .sending client →
    FromStore default t client (route c.url)
  failed : ∀ c ∈ s.calls, ∀ e, c.phase = .failed e →
    ∃ r, route c.url = some r ∧ buildRouteClient crates r = .error e

theorem FromStore.mono {t' : FilledStore ProxyRouteConfig Str (ClientSettings π)}
    (hh : ∀ x ∈ t.hits, x ∈ t'.hits) (hl : ∀ x ∈ t.loads, x ∈ t'.loads) {client : ClientSettings π}
    {r : Option ProxyRouteConfig} (h : FromStore default t client r) :
    FromStore default t' client r := by
  cases r with
  | none => exact h
  | some r => exact h.imp (hh _) (hl _)

/-- What a request may turn into. -/
def PhaseFrom (crates : ClientCrates π) (route : Str → Option ProxyRouteConfig)
    (default : ClientSettings π) (t : FilledStore ProxyRouteConfig Str (ClientSettings π))
    (url : Str) : ClientPhase π → Prop
  | .arrived => True
  | .missed r => route url = some r
  | .built r client => route url = some r ∧ ⟨r, client, 0⟩ ∈ t.loads
  | .sending client => FromStore default t client (route url)
  | .failed e => ∃ r, route url = some r ∧ buildRouteClient crates r = .error e

/-- The request `i` goes on. -/
theorem Follows.setPhase (h : s.Follows crates route default t) {i : ℕ} {c : ClientCall π}
    {phase : ClientPhase π} (hp : PhaseFrom crates route default t c.url phase) :
    (s.setPhase i c phase).Follows crates route default t :=
  { h with
    missed := List.forall_mem_set h.missed (by rintro r rfl; exact hp)
    built := List.forall_mem_set h.built (by rintro r client rfl; exact hp)
    sending := List.forall_mem_set h.sending (by rintro client rfl; exact hp)
    failed := List.forall_mem_set h.failed (by rintro e rfl; exact hp) }

/-- The store has one more hit. -/
theorem Follows.addHit (h : s.Follows crates route default t)
    (x : Hit ProxyRouteConfig (ClientSettings π)) :
    s.Follows crates route default { t with hits := t.hits ++ [x] } :=
  { h with
    sending := by
      intro c hc client hp
      refine (h.sending c hc client hp).mono ?_ ?_
      · exact fun _ => List.mem_append_left _
      · exact fun _ => id }

/-- The store notes a client that was made. -/
theorem Follows.addLoad (h : s.Follows crates route default t) {r : ProxyRouteConfig}
    {client : ClientSettings π} {now : ℕ} (hclient : buildRouteClient crates r = .ok client) :
    s.Follows crates route default { t with loads := t.loads ++ [⟨r, client, now⟩] } :=
  { h with
    loads := by
      intro l hl
      rcases List.mem_append.mp hl with hl | hl
      · exact h.loads l hl
      · obtain rfl := List.mem_singleton.mp hl
        exact hclient
    built := fun c hc r client hp => (h.built c hc r client hp).imp_right (List.mem_append_left _)
    sending := by
      intro c hc client hp
      refine (h.sending c hc client hp).mono ?_ ?_
      · exact fun _ => id
      · exact fun _ => List.mem_append_left _ }

theorem Follows.arrive (h : s.Follows crates route default t) (url : Str) :
    Follows crates route default { s with calls := s.calls ++ [⟨url, .arrived⟩] } t := by
  have hmem {c : ClientCall π} (hc : c ∈ s.calls ++ [⟨url, .arrived⟩]) :
      c ∈ s.calls ∨ c.phase = .arrived := by
    rcases List.mem_append.mp hc with hc | hc
    · exact .inl hc
    · exact .inr (List.mem_singleton.mp hc ▸ rfl)
  refine { h with missed := ?_, built := ?_, sending := ?_, failed := ?_ }
  · exact fun c hc r hr => (hmem hc).elim (h.missed c · r hr) fun hp => nomatch hp.symm.trans hr
  · exact fun c hc r client hr =>
      (hmem hc).elim (h.built c · r client hr) fun hp => nomatch hp.symm.trans hr
  · exact fun c hc client hr =>
      (hmem hc).elim (h.sending c · client hr) fun hp => nomatch hp.symm.trans hr
  · exact fun c hc e hr => (hmem hc).elim (h.failed c · e hr) fun hp => nomatch hp.symm.trans hr

/-- **One step** is matched by steps of the store. -/
theorem Follows.step (h : s.Follows crates route default t) {e : ClientEvent}
    (hstep : s.step crates route default e = some s') :
    ∃ ds t', (filledStore ProxyRouteConfig.cacheKey none).steps t ds = some t' ∧
      s'.Follows crates route default t' := by
  have hsame {s' : RouteClients π} (h' : s'.Follows crates route default t) :
      ∃ ds t', (filledStore ProxyRouteConfig.cacheKey none).steps t ds = some t' ∧
        s'.Follows crates route default t' := ⟨[], t, rfl, h'⟩
  cases e with
  | arrive url =>
    cases hstep
    exact hsame (h.arrive url)
  | look i =>
    simp only [RouteClients.step] at hstep
    split at hstep
    · next c hc =>
      split at hstep
      · split at hstep
        · next hr =>
          cases hstep
          exact hsame (h.setPhase (by rw [PhaseFrom, hr]; rfl))
        · next r hr =>
          split at hstep <;> cases hstep
          · next client hclient =>
            -- a hit
            have hentry : t.entries r.cacheKey = some (client, 0) := by
              rw [h.entries, hclient]
              rfl
            refine ⟨[.hit r], _, (Machine.steps_singleton ..).trans
              (filledStore_hit hentry (live_none _ _)), (h.addHit _).setPhase ?_⟩
            rw [PhaseFrom, hr]
            exact .inl (List.mem_append_right _ (List.mem_singleton.mpr (by rw [h.now])))
          · exact hsame (h.setPhase hr)
      · cases hstep
    · cases hstep
  | build i =>
    simp only [RouteClients.step] at hstep
    split at hstep
    · next c hc =>
      split at hstep
      · next r hphase =>
        have hr := h.missed c (List.mem_of_getElem? hc) r hphase
        split at hstep <;> cases hstep
        · next client hclient =>
          have hnew : (⟨r, client, 0⟩ : Load _ _) ∈ t.loads ++ [⟨r, client, t.now⟩] :=
            List.mem_append_right _ (List.mem_singleton.mpr (by rw [h.now]))
          exact ⟨[.load r client], _, Machine.steps_singleton ..,
            (h.addLoad hclient).setPhase ⟨hr, hnew⟩⟩
        · next e he => exact hsame (h.setPhase ⟨r, hr, he⟩)
      · cases hstep
    · cases hstep
  | insert i =>
    simp only [RouteClients.step] at hstep
    split at hstep
    · next c hc =>
      split at hstep
      · next r client hphase =>
        cases hstep
        obtain ⟨hr, hload⟩ := h.built c (List.mem_of_getElem? hc) r client hphase
        obtain ⟨n, hn⟩ := List.mem_iff_getElem?.mp hload
        have hfollows : Follows crates route default
            { s with clients := update s.clients r.cacheKey (some client) }
            { t with entries := update t.entries r.cacheKey (some (client, t.now)) } :=
          { h with
            entries := by
              intro k
              change update t.entries _ _ k = (update s.clients _ _ k).map _
              by_cases hk : k = r.cacheKey
              · rw [hk, Function.update_self, Function.update_self, h.now]
                rfl
              · rw [Function.update_of_ne hk, Function.update_of_ne hk]
                exact h.entries k }
        refine ⟨[.keep n], _, (Machine.steps_singleton ..).trans (filledStore_keep hn),
          hfollows.setPhase ?_⟩
        rw [PhaseFrom, hr]
        exact .inr hload
      · cases hstep
    · cases hstep

end RouteClients

/-! ### Runs -/

section Runs

variable {π : Type} (crates : ClientCrates π) (routeCrates : RouteCrates) (router : ProxyRouter)
  (followRedirects : Bool)

/-- The clients **refine** a store that is filled with what the routes ask for. -/
theorem refines_clientStore :
    (clientMachine crates routeCrates router followRedirects).Refines
      (filledStore ProxyRouteConfig.cacheKey none)
      (RouteClients.Follows crates (router.getProxyConfig routeCrates)
        (createDefaultClient crates followRedirects router.defaultProxy)) where
  init := {
    now := rfl
    entries := fun _ => rfl
    loads := fun _ h => nomatch h
    missed := fun _ h => nomatch h
    built := fun _ h => nomatch h
    sending := fun _ h => nomatch h
    failed := fun _ h => nomatch h }
  step _ _ _ _ h hstep := h.step hstep

/-- The client that a request for the URL would make for itself. -/
def plainClient (url : Str) : Except AppError (ClientSettings π) :=
  match router.getProxyConfig routeCrates url with
  | some route => buildRouteClient crates route
  | none => .ok (createDefaultClient crates followRedirects router.defaultProxy)

/-- The route of the URL has an empty proxy URL, and the client is that of the route without one. -/
def WithoutEmptyProxy (url : Str) (client : ClientSettings π) : Prop :=
  ∃ proxy verifySsl, router.getProxyConfig routeCrates url = some ⟨proxy, some [], verifySsl⟩ ∧
    buildRouteClient crates ⟨proxy, none, verifySsl⟩ = .ok client

variable {crates}

/-- Routes with one key make the same client. -/
theorem buildRouteClient_of_cacheKey_eq (hempty : (crates.proxyAll []).toOption = none)
    {r r' : ProxyRouteConfig} {client : ClientSettings π} (hkey : r'.cacheKey = r.cacheKey)
    (hclient : buildRouteClient crates r' = .ok client) :
    buildRouteClient crates r = .ok client ∨
      r.proxyUrl = some [] ∧ buildRouteClient crates ⟨r.proxy, none, r.verifySsl⟩ = .ok client := by
  obtain ⟨proxy, url, verify⟩ := r
  obtain ⟨proxy', url', verify'⟩ := r'
  obtain ⟨hproxy, hurl, hverify⟩ := ProxyRouteConfig.cacheKey_eq_iff.mp hkey
  change proxy' = proxy at hproxy
  change verify' = verify at hverify
  subst hproxy
  subst hverify
  by_cases heq : url' = url
  · exact .inl (heq ▸ hclient)
  · -- one of the two is empty, and the other one is not there
    cases url with
    | some url =>
      cases url' with
      | some url' => exact absurd (congrArg some hurl) heq
      | none => exact .inr ⟨congrArg some hurl.symm, hclient⟩
    | none =>
      cases url' with
      | none => exact absurd rfl heq
      | some url' =>
        -- a proxy with an empty URL is never made
        obtain rfl : url' = [] := hurl
        refine .inl ?_
        rw [buildRouteClient_eq_ok_iff] at hclient ⊢
        obtain ⟨hrouteProxy, hrest⟩ := hclient
        refine ⟨?_, hrest⟩
        cases proxy' with
        | false => exact hrouteProxy
        | true =>
          cases hall : crates.proxyAll [] with
          | ok p =>
            rw [hall] at hempty
            cases hempty
          | error e =>
            simp only [routeProxy, hall] at hrouteProxy
            cases hrouteProxy

/-- **The clients of all requests**, in every run. `Proxy::all` takes no empty URL. -/
theorem upstreamClients (hempty : (crates.proxyAll []).toOption = none) {s : RouteClients π}
    (hs : (clientMachine crates routeCrates router followRedirects).Reaches Machine.Anyhow s)
    {c : ClientCall π} (hc : c ∈ s.calls) :
    (∀ client, c.phase = .sending client →
      plainClient crates routeCrates router followRedirects c.url = .ok client ∨
        WithoutEmptyProxy crates routeCrates router c.url client) ∧
    ∀ e, c.phase = .failed e →
      plainClient crates routeCrates router followRedirects c.url = .error e := by
  obtain ⟨t, ht, h⟩ := (refines_clientStore crates routeCrates router followRedirects).exists_reaches hs
  refine ⟨fun client hp => ?_, fun e hp => ?_⟩
  · have hfrom := h.sending c hc client hp
    unfold plainClient WithoutEmptyProxy
    cases hroute : router.getProxyConfig routeCrates c.url with
    | none =>
      rw [hroute] at hfrom
      exact .inl (congrArg Except.ok (show client = _ from hfrom).symm)
    | some r =>
      rw [hroute] at hfrom
      have hloaded : ∃ l ∈ t.loads, l.request.cacheKey = r.cacheKey ∧ l.value = client := by
        rcases hfrom with hhit | hload
        · obtain ⟨⟨l, hl, hkey, hvalue, -⟩, -⟩ := filledStore_hits ht _ hhit
          exact ⟨l, hl, hkey, hvalue⟩
        · exact ⟨_, hload, rfl, rfl⟩
      obtain ⟨l, hl, hkey, rfl⟩ := hloaded
      refine (buildRouteClient_of_cacheKey_eq hempty hkey (h.loads l hl)).imp_right ?_
      rintro ⟨hurl, hnone⟩
      obtain ⟨proxy, url, verify⟩ := r
      cases hurl
      exact ⟨proxy, verify, rfl, hnone⟩
  · obtain ⟨r, hroute, herror⟩ := h.failed c hc e hp
    unfold plainClient
    rw [hroute]
    exact herror

end Runs

/-! ### A client that is shared -/

/-- All URLs are of the host `h`, which no pattern is for. -/
def oneHost : RouteCrates where
  compiles _ := false
  isMatch _ _ := false
  parse _ := some (httpUrl ⟨none, ['h'], none⟩ (by decide))

/-- Proxies by their URLs. -/
def proxyTexts : ClientCrates Str where
  proxyAll url := if url = [] then .error "empty host".toList else .ok url
  buildError _ := none

/-- All requests go through the default proxy. -/
def throughProxy : ProxyRouter := ⟨some "http://p:1".toList, true, []⟩

/-- The second request finds the client of the first one. -/
theorem upstreamClients_shared :
    ∃ s c client, (clientMachine proxyTexts oneHost throughProxy true).Reaches Machine.Anyhow s ∧
      c ∈ s.calls ∧ c.phase = .sending client ∧
      (plainClient proxyTexts oneHost throughProxy true c.url = .ok client ∨
        WithoutEmptyProxy proxyTexts oneHost throughProxy c.url client) := by
  have hrun : ((clientMachine proxyTexts oneHost throughProxy true).run
      [.arrive ['a'], .look 0, .build 0, .insert 0, .arrive ['b'], .look 1]).map
      (fun s => s.calls[1]?.map fun c => c.phase) =
      some (some (.sending ⟨some "http://p:1".toList, false, .upToTen⟩)) := by decide +kernel
  obtain ⟨s, hs, hcall⟩ := Option.map_eq_some_iff.mp hrun
  obtain ⟨c, hc, hphase⟩ := Option.map_eq_some_iff.mp hcall
  have hreaches := Machine.reaches_run hs
  have hclient := upstreamClients oneHost throughProxy true (by decide : (proxyTexts.proxyAll []).toOption = none)
    hreaches (List.mem_of_getElem? hc)
  exact ⟨s, c, _, hreaches, List.mem_of_getElem? hc, hphase, hclient.1 _ hphase⟩

end MediaFlow
