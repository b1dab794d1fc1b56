import MediaFlow.Lib.FirstMatch
import MediaFlow.Lib.Regex
import MediaFlow.Lib.Replace

/-!
# Routes of upstream requests

`ProxyRouter` of `config.rs`: route patterns with their settings, of which a request takes the first
that matches its URL. A pattern is turned into a regular expression by replacing text in it; the
routes are sorted by the number of wildcards that are found in the text of the expression, which is
the number of `*` in the pattern (`wildcards_regexText`).

Maps are lists, in some order of iteration.
-/

open Text

namespace MediaFlow

structure ProxyRouteConfig where
  proxy : Bool
  proxyUrl : Option Str
  verifySsl : Bool
deriving DecidableEq

/-- What is between `//` and the path. -/
structure Authority where
  /-- User name and password, as they are written before the `@`. -/
  userInfo : Option Str
  host : Str
  /-- A port that is not the scheme's default. -/
  port : Option Str
deriving DecidableEq

/-- `host`, or `host:port`. -/
def Authority.hostPort (a : Authority) : Str := a.host ++ a.port.elim [] fun p => ':' :: p

def Authority.text (a : Authority) : Str :=
  (a.userInfo.elim [] fun u => u ++ ['@']) ++ a.hostPort

/-- A URL that was parsed, with the parts of its text. -/
structure ParsedUrl where
  scheme : Str
  authority : Option Authority
  /-- The path, the query and the fragment. -/
  rest : Str
  scheme_plain : ':' ∉ scheme
  authority_plain : ∀ a, authority = some a → '/' ∉ a.text
  /-- A URL of the web has a host and a path. -/
  web : scheme = "http".toList ∨ scheme = "https".toList →
    authority.isSome ∧ ['/'] <+: rest

/-- An `http` URL with this text before its path. -/
def httpUrl (a : Authority) (h : '/' ∉ a.text) : ParsedUrl where
  scheme := "http".toList
  authority := some a
  rest := ['/']
  scheme_plain := by decide
  authority_plain := by
    rintro _ ⟨⟩
    exact h
  web _ := ⟨rfl, List.prefix_rfl⟩

/-- `Url::as_str`. -/
def ParsedUrl.asStr (u : ParsedUrl) : Str :=
  u.scheme ++ ':' :: ((u.authority.elim [] fun a => '/' :: '/' :: a.text) ++ u.rest)

/-- The crates `regex` and `url`. -/
structure RouteCrates where
  /-- Whether `Regex::new` takes the text. -/
  compiles : Str → Bool
  /-- `is_match` of the expression with this text. -/
  isMatch : Str → Str → Bool
  parse : Str → Option ParsedUrl

/-- An expression is its text, which `as_str` returns. -/
structure ProxyRoute where
  pattern : Str
  config : ProxyRouteConfig
deriving DecidableEq

structure ProxyRouter where
  defaultProxy : Option Str
  allProxy : Bool
  routes : List ProxyRoute

/-- `[^/]*` -/
def wildcard : Str := "[^/]*".toList

/-- The expression of a pattern. -/
def regexText (pattern : Str) : Str :=
  '^' :: replace "all://".toList "(http|https)://".toList
    (replace ['*'] wildcard (replace ['.'] "\\.".toList pattern))

def ProxyRoute.wildcards (r : ProxyRoute) : ℕ := countMatches wildcard r.pattern

/-- `b_wildcards.cmp(&a_wildcards)` is not `Greater`. -/
def ProxyRoute.Before (a b : ProxyRoute) : Prop := b.wildcards ≤ a.wildcards

instance : DecidableRel ProxyRoute.Before := fun a b =>
  inferInstanceAs (Decidable (b.wildcards ≤ a.wildcards))

instance : Std.Total ProxyRoute.Before := ⟨fun a b => Nat.le_total b.wildcards a.wildcards⟩

instance : IsTrans ProxyRoute ProxyRoute.Before := ⟨fun _ _ _ hab hbc => Nat.le_trans hbc hab⟩

section Router

variable (crates : RouteCrates)

/-- One route of the configuration; an invalid pattern is left out. -/
def compileRoute : Str × ProxyRouteConfig → Option ProxyRoute
  | (pattern, config) =>
    if crates.compiles (regexText pattern) then some ⟨regexText pattern, config⟩ else none

namespace ProxyRouter

def new (defaultProxy : Option Str) (allProxy : Bool)
    (routesConfig : List (Str × ProxyRouteConfig)) : ProxyRouter where
  defaultProxy := defaultProxy
  allProxy := allProxy
  routes := (routesConfig.filterMap (compileRoute crates)).insertionSort ProxyRoute.Before

variable (router : ProxyRouter)

/-- What is used for all URLs that no route is for. -/
def fallback : Option ProxyRouteConfig :=
  if router.allProxy then some ⟨true, router.defaultProxy, true⟩ else none

def getProxyConfig (url : Str) : Option ProxyRouteConfig :=
  match crates.parse url with
  | none => none
  | some parsedUrl =>
    match router.routes.find? fun r => crates.isMatch r.pattern parsedUrl.asStr with
    | some route => some route.config
    | none => router.fallback

end ProxyRouter

end Router

/-! ### The text of an expression -/

/-- What a character of a pattern is turned into; `none` is the wildcard. -/
def patternToken (c : Char) : List (Option Char) :=
  if c = '.' then [some '\\', some '.'] else if c = '*' then [none] else [some c]

/-- The first two replacements. -/
theorem replace_pattern (pattern : Str) :
    replace ['*'] wildcard (replace ['.'] "\\.".toList pattern) =
      render wildcard (pattern.flatMap patternToken) := by
  rw [replace_singleton, replace_singleton, List.flatMap_assoc, render, List.flatMap_assoc]
  refine List.flatMap_congr fun c _ => ?_
  unfold patternToken
  by_cases hdot : c = '.'
  · rw [if_pos hdot, if_pos hdot]
    rfl
  · rw [if_neg hdot, if_neg hdot]
    by_cases hstar : c = '*'
    · rw [if_pos hstar, hstar]
      rfl
    · rw [if_neg hstar]
      rw [List.flatMap_singleton, if_neg hstar]
      rfl

theorem count_patternToken (pattern : Str) :
    (pattern.flatMap patternToken).count none = pattern.count '*' := by
  induction pattern with
  | nil => rfl
  | cons c pattern ih =>
    rw [List.flatMap_cons, List.count_append, ih, List.count_cons, Nat.add_comm]
    unfold patternToken
    congr 1
    by_cases hdot : c = '.'
    · rw [if_pos hdot, hdot]
      rfl
    · rw [if_neg hdot]
      by_cases hstar : c = '*'
      · rw [if_pos hstar, hstar]
        rfl
      · rw [if_neg hstar, if_neg (by simpa using hstar)]
        rfl

theorem star_not_mem_patternToken (pattern : Str) : some '*' ∉ pattern.flatMap patternToken := by
  intro h
  obtain ⟨c, -, hc⟩ := List.mem_flatMap.mp h
  unfold patternToken at hc
  split at hc
  · simp at hc
  · split at hc
    · simp at hc
    · next hstar =>
      exact hstar (Option.some.inj (List.mem_singleton.mp hc)).symm

/-- **The wildcards** that are found in the expression are those of the pattern. -/
theorem wildcards_regexText (pattern : Str) (config : ProxyRouteConfig) :
    (ProxyRoute.mk (regexText pattern) config).wildcards = pattern.count '*' := by
  obtain ⟨ts, hreplace, hcount, hmem⟩ := @exists_replace_render '[' 'a' "^/]*".toList
    "ll://".toList "(http|https)://".toList (by decide) (by decide) (pattern.flatMap patternToken)
  have hplain : some '*' ∉ some '^' :: ts := by
    rw [List.mem_cons, not_or]
    refine ⟨nofun, fun h => ?_⟩
    obtain h | h := hmem '*' h
    · exact star_not_mem_patternToken pattern h
    · exact absurd h (by decide)
  unfold ProxyRoute.wildcards regexText
  rw [replace_pattern]
  calc countMatches wildcard ('^' :: replace "all://".toList _ _)
      = countMatches wildcard (render wildcard (some '^' :: ts)) :=
        congrArg (fun s => countMatches wildcard ('^' :: s)) hreplace
    _ = (some '^' :: ts).count none :=
        countMatches_render (by decide) (c := '*') (by decide) hplain
    _ = pattern.count '*' := by
        rw [List.count_cons_of_ne (Option.some_ne_none _), hcount, count_patternToken]

end MediaFlow
