import MediaFlow.Config.ProxyRouter

/-!
# The most specific route

Of the routes that match a URL the one with the fewest wildcards should win, whatever the order in
which the map gives its entries. The sort puts the routes with the most wildcards first, so it is one
of these that wins: `mostSpecificWins_iff` says for which maps and URLs this makes no difference.
-/

open Text

namespace MediaFlow

section Priority

variable (crates : RouteCrates) (routesConfig : List (Str × ProxyRouteConfig)) (url : Str)

/-- The pattern of the route is valid, and matches the URL. -/
def Matches (r : Str × ProxyRouteConfig) : Prop :=
  crates.compiles (regexText r.1) ∧
    ∃ u, crates.parse url = some u ∧ crates.isMatch (regexText r.1) u.asStr

/-- No other route that matches has fewer wildcards. -/
def MostSpecific (r : Str × ProxyRouteConfig) : Prop :=
  r ∈ routesConfig ∧ Matches crates url r ∧
    ∀ r' ∈ routesConfig, Matches crates url r' → r.1.count '*' ≤ r'.1.count '*'

/-- No other route that matches has more. -/
def LeastSpecific (r : Str × ProxyRouteConfig) : Prop :=
  r ∈ routesConfig ∧ Matches crates url r ∧
    ∀ r' ∈ routesConfig, Matches crates url r' → r'.1.count '*' ≤ r.1.count '*'

/-- What is returned when the map gives its entries in this order. -/
def proxyConfigFor (defaultProxy : Option Str) (allProxy : Bool)
    (order : List (Str × ProxyRouteConfig)) : Option ProxyRouteConfig :=
  (ProxyRouter.new crates defaultProxy allProxy order).getProxyConfig crates url

/-- A most specific route wins, the default is for URLs without a route, and the order does not
matter. -/
structure MostSpecificWins (defaultProxy : Option Str) (allProxy : Bool) : Prop where
  wins : (∃ r ∈ routesConfig, Matches crates url r) → ∀ order, order.Perm routesConfig →
    ∃ r, MostSpecific crates routesConfig url r ∧
      proxyConfigFor crates url defaultProxy allProxy order = some r.2
  otherwise : (∀ r ∈ routesConfig, ¬ Matches crates url r) → ∀ order, order.Perm routesConfig →
    proxyConfigFor crates url defaultProxy allProxy order =
      (crates.parse url).bind fun _ => if allProxy then some ⟨true, defaultProxy, true⟩ else none
  sameForAll : ∀ order order', order.Perm routesConfig → order'.Perm routesConfig →
    proxyConfigFor crates url defaultProxy allProxy order =
      proxyConfigFor crates url defaultProxy allProxy order'

/-- **The condition**: if any route matches, those with the most wildcards all have the setting of one
with the fewest. -/
def ExtremesAgree : Prop :=
  (∃ r ∈ routesConfig, Matches crates url r) →
    ∃ r, MostSpecific crates routesConfig url r ∧
      ∀ r', LeastSpecific crates routesConfig url r' → r'.2 = r.2

variable {crates routesConfig url} {defaultProxy : Option Str} {allProxy : Bool}
  {order : List (Str × ProxyRouteConfig)}

/-! ### The route that is found -/

theorem mem_filterMap_compileRoute {route : ProxyRoute} :
    route ∈ order.filterMap (compileRoute crates) ↔
      ∃ r ∈ order, crates.compiles (regexText r.1) ∧ route = ⟨regexText r.1, r.2⟩ := by
  rw [List.mem_filterMap]
  refine exists_congr fun r => and_congr_right fun _ => ?_
  unfold compileRoute
  dsimp only
  split
  · next hcompiles => exact ⟨fun h => ⟨hcompiles, (Option.some.inj h).symm⟩, fun h => h.2 ▸ rfl⟩
  · next hcompiles => exact ⟨nofun, fun h => absurd h.1 hcompiles⟩

/-- The route that wins is one of those with the most wildcards. -/
theorem proxyConfigFor_of_matches (h : ∃ r ∈ order, Matches crates url r) :
    ∃ r, LeastSpecific crates order url r ∧
      proxyConfigFor crates url defaultProxy allProxy order = some r.2 := by
  obtain ⟨r₀, hr₀, hcompiles₀, u, hparse, hmatch₀⟩ := h
  unfold proxyConfigFor ProxyRouter.getProxyConfig
  rw [hparse]
  dsimp only [ProxyRouter.new]
  cases hfind : ((order.filterMap (compileRoute crates)).insertionSort ProxyRoute.Before).find?
      fun r => crates.isMatch r.pattern u.asStr with
  | none =>
    have hnone := FirstMatch.find?_insertionSort_eq_none_iff.mp hfind ⟨regexText r₀.1, r₀.2⟩
      (mem_filterMap_compileRoute.mpr ⟨r₀, hr₀, hcompiles₀, rfl⟩)
    exact absurd hmatch₀ hnone
  | some route =>
    obtain ⟨hmem, hmatch⟩ := FirstMatch.mem_of_find?_insertionSort hfind
    have hbefore := FirstMatch.find?_insertionSort_rel hfind
    obtain ⟨r, hr, hcompiles, rfl⟩ := mem_filterMap_compileRoute.mp hmem
    refine ⟨r, ⟨hr, ⟨hcompiles, u, hparse, hmatch⟩, ?_⟩, rfl⟩
    rintro r' hr' ⟨hcompiles', u', hparse', hmatch'⟩
    rw [hparse] at hparse'
    cases hparse'
    have hle := hbefore ⟨regexText r'.1, r'.2⟩
      (mem_filterMap_compileRoute.mpr ⟨r', hr', hcompiles', rfl⟩) hmatch'
    unfold ProxyRoute.Before at hle
    rwa [wildcards_regexText, wildcards_regexText] at hle

/-- Without a route, it is the default. -/
theorem proxyConfigFor_of_not_matches (h : ∀ r ∈ order, ¬ Matches crates url r) :
    proxyConfigFor crates url defaultProxy allProxy order =
      (crates.parse url).bind fun _ => if allProxy then some ⟨true, defaultProxy, true⟩ else none := by
  unfold proxyConfigFor ProxyRouter.getProxyConfig
  cases hparse : crates.parse url with
  | none => rfl
  | some u =>
    dsimp only [ProxyRouter.new]
    have hfind : ((order.filterMap (compileRoute crates)).insertionSort ProxyRoute.Before).find?
        (fun r => crates.isMatch r.pattern u.asStr) = none := by
      refine FirstMatch.find?_insertionSort_eq_none_iff.mpr fun route hroute hmatch => ?_
      obtain ⟨r, hr, hcompiles, rfl⟩ := mem_filterMap_compileRoute.mp hroute
      exact h r hr ⟨hcompiles, u, hparse, hmatch⟩
    rw [hfind]
    rfl

/-- Each route with the most wildcards wins for some order. -/
theorem exists_order_of_leastSpecific {r : Str × ProxyRouteConfig}
    (h : LeastSpecific crates routesConfig url r) :
    ∃ order : List (Str × ProxyRouteConfig), order.Perm routesConfig ∧
      proxyConfigFor crates url defaultProxy allProxy order = some r.2 := by
  obtain ⟨hr, ⟨hcompiles, u, hparse, hmatch⟩, hleast⟩ := h
  have hperm : (r :: routesConfig.erase r).Perm routesConfig := (List.perm_cons_erase hr).symm
  refine ⟨r :: routesConfig.erase r, hperm, ?_⟩
  have hcompile : compileRoute crates r = some ⟨regexText r.1, r.2⟩ := if_pos hcompiles
  unfold proxyConfigFor ProxyRouter.getProxyConfig
  rw [hparse]
  dsimp only [ProxyRouter.new]
  have hfind : (((⟨regexText r.1, r.2⟩ : ProxyRoute) ::
      (routesConfig.erase r).filterMap (compileRoute crates)).insertionSort ProxyRoute.Before).find?
        (fun route => crates.isMatch route.pattern u.asStr) = some ⟨regexText r.1, r.2⟩ := by
    refine FirstMatch.find?_insertionSort_cons hmatch fun route hroute hmatch' => ?_
    -- the others that match have no more wildcards
    obtain ⟨r', hr', hcompiles', rfl⟩ := mem_filterMap_compileRoute.mp hroute
    unfold ProxyRoute.Before
    rw [wildcards_regexText, wildcards_regexText]
    exact hleast r' (List.mem_of_mem_erase hr') ⟨hcompiles', u, hparse, hmatch'⟩
  rw [List.filterMap_cons_some hcompile, hfind]

theorem leastSpecific_congr (h : order.Perm routesConfig) {r : Str × ProxyRouteConfig} :
    LeastSpecific crates order url r ↔ LeastSpecific crates routesConfig url r := by
  unfold LeastSpecific
  rw [h.mem_iff]
  exact and_congr_right fun _ => and_congr_right fun _ => forall_congr' fun _ =>
    imp_congr_left h.mem_iff

theorem mostSpecificWins_iff_agree :
    MostSpecificWins crates routesConfig url defaultProxy allProxy ↔
      ExtremesAgree crates routesConfig url := by
  constructor
  · intro h hmatches
    obtain ⟨r, hr, hconfig⟩ := h.wins hmatches routesConfig (List.Perm.refl _)
    refine ⟨r, hr, fun r' hr' => ?_⟩
    -- the order in which `r'` wins
    obtain ⟨order, hperm, hconfig'⟩ := @exists_order_of_leastSpecific crates routesConfig url
      defaultProxy allProxy r' hr'
    have hsame := h.sameForAll order routesConfig hperm (List.Perm.refl _)
    rw [hconfig, hconfig'] at hsame
    exact Option.some.inj hsame
  · intro h
    have hwins (hmatches : ∃ r ∈ routesConfig, Matches crates url r) :
        ∃ r, MostSpecific crates routesConfig url r ∧ ∀ order, order.Perm routesConfig →
          proxyConfigFor crates url defaultProxy allProxy order = some r.2 := by
      obtain ⟨r, hr, hagree⟩ := h hmatches
      refine ⟨r, hr, fun order hperm => ?_⟩
      have hmatches' : ∃ r ∈ order, Matches crates url r :=
        hmatches.imp fun _ hr => ⟨hperm.mem_iff.mpr hr.1, hr.2⟩
      obtain ⟨r', hr', hconfig⟩ := @proxyConfigFor_of_matches crates url defaultProxy allProxy order
        hmatches'
      rw [hconfig, hagree r' ((leastSpecific_congr hperm).mp hr')]
    have hotherwise (hnone : ∀ r ∈ routesConfig, ¬ Matches crates url r)
        (order : List (Str × ProxyRouteConfig)) (hperm : order.Perm routesConfig) :=
      @proxyConfigFor_of_not_matches crates url defaultProxy allProxy order
        fun r hr => hnone r (hperm.mem_iff.mp hr)
    refine ⟨fun hmatches order hperm => ?_, hotherwise, fun order order' hperm hperm' => ?_⟩
    · obtain ⟨r, hr, hall⟩ := hwins hmatches
      exact ⟨r, hr, hall order hperm⟩
    · by_cases hmatches : ∃ r ∈ routesConfig, Matches crates url r
      · obtain ⟨r, -, hall⟩ := hwins hmatches
        exact (hall order hperm).trans (hall order' hperm').symm
      · have hnone : ∀ r ∈ routesConfig, ¬ Matches crates url r :=
          fun r hr hmatch => hmatches ⟨r, hr, hmatch⟩
        exact (hotherwise hnone order hperm).trans (hotherwise hnone order' hperm').symm

end Priority

/-- **The most specific route wins**, for every order of the map, exactly if the routes with the most
wildcards have the setting of one with the fewest. -/
theorem mostSpecificWins_iff (crates : RouteCrates) (routesConfig : List (Str × ProxyRouteConfig))
    (url : Str) (defaultProxy : Option Str) (allProxy : Bool) :
    MostSpecificWins crates routesConfig url defaultProxy allProxy ↔
      ExtremesAgree crates routesConfig url :=
  mostSpecificWins_iff_agree

/-- `http://a/` -/
def hostA : ParsedUrl := httpUrl ⟨none, ['a'], none⟩ (by decide)

/-- `http://a` and `http://*`, as they are matched. -/
def hostACrates : RouteCrates where
  compiles _ := true
  isMatch text s :=
    (text = "^http://a".toList ∧ "http://a".toList.isPrefixOf s) ∨
      (text = "^http://[^/]*".toList ∧ "http://".toList.isPrefixOf s)
  parse s := if s = "http://a/".toList then some hostA else none

def directConfig : ProxyRouteConfig := ⟨false, none, true⟩

def proxiedConfig : ProxyRouteConfig := ⟨true, some "http://p:1".toList, true⟩

def hostARoutes : List (Str × ProxyRouteConfig) :=
  [("http://a".toList, directConfig), ("http://*".toList, proxiedConfig)]

/-- The route with the wildcard wins over the route of the host. -/
theorem hostA_not_mostSpecificWins :
    ¬ MostSpecificWins hostACrates hostARoutes "http://a/".toList none false := by
  intro h
  have hparse : hostACrates.parse "http://a/".toList = some hostA := by
    unfold hostACrates
    dsimp only
    rw [if_pos rfl]
  have hmatches : Matches hostACrates "http://a/".toList ("http://a".toList, directConfig) :=
    ⟨rfl, hostA, hparse, by decide +kernel⟩
  obtain ⟨r, ⟨hr, -, hfewest⟩, hconfig⟩ :=
    h.wins ⟨_, List.mem_cons_self, hmatches⟩ hostARoutes (List.Perm.refl _)
  have hproxied : proxyConfigFor hostACrates "http://a/".toList none false hostARoutes =
      some proxiedConfig := by
    decide +kernel
  rw [hproxied] at hconfig
  obtain rfl | hr := List.mem_cons.mp hr
  · exact absurd hconfig (by decide)
  · obtain rfl := List.mem_singleton.mp hr
    exact absurd (hfewest _ List.mem_cons_self hmatches) (by decide)

end MediaFlow
