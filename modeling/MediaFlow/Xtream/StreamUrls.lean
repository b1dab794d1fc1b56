import MediaFlow.Auth.Bypass
import MediaFlow.Lib.RoutePatterns
import MediaFlow.Xtream.Access

/-!
# Stream URLs and their routes

The URLs of streams at an upstream server (`StreamUrl`), and what becomes of a request for one of
them under the proxy: the route that takes it, and the upstream URL that the handler builds from the
placeholders (`streamUpstreamUrl`). The routes and the handlers do not agree on the placeholders.

* `returned_iff`: which of the URLs a handler builds again.
-/

open Text Routing

namespace MediaFlow

/-! ### The handlers -/

/-- `build_upstream_url`. -/
def buildUpstreamUrl (base path : Str) : Str :=
  base.rdropWhile (· = '/') ++ '/' :: path.dropWhile (· = '/')

section Handlers

variable (web : WebCrates) (base64 : Base64Crate) (apiPassword : Str)

/-- What the stream handlers do with the user name: the URL for a path that the real user name is
put into. -/
def upstreamUrlFor (username : Str) (path : Str → Str) : Except AppError Str := do
  let creds ← parseUsernameWithUpstream base64 username
  verifyXcApiPassword creds.apiPassword apiPassword
  return buildUpstreamUrl creds.upstreamBase (path creds.actualUsername)

/-- The upstream URL of a stream handler, from the values of the placeholders; there is none where
it answers with an error, as it does for fewer values than it takes. -/
def streamUpstreamUrl (h : Handler) (values : List Str) : Option Str :=
  match h, values.map web.pathValue with
  | .liveStreamHandler, username :: password :: streamId :: ext :: _ =>
    (upstreamUrlFor base64 apiPassword username fun user =>
      "live/".toList ++ (user ++ '/' :: (password ++ '/' :: (streamId ++ '.' :: ext)))).toOption
  | .movieStreamHandler, username :: password :: streamId :: ext :: _ =>
    (upstreamUrlFor base64 apiPassword username fun user =>
      "movie/".toList ++ (user ++ '/' :: (password ++ '/' :: (streamId ++ '.' :: ext)))).toOption
  | .seriesStreamHandler, username :: password :: streamId :: season :: episode :: ext :: _ =>
    (upstreamUrlFor base64 apiPassword username fun user =>
      "series/".toList ++ (user ++ '/' :: (password ++ '/' :: (streamId ++ '/' ::
        (season ++ '/' :: (episode ++ '.' :: ext)))))).toOption
  | .timeshiftHandler, username :: password :: duration :: start :: streamId :: _ =>
    (upstreamUrlFor base64 apiPassword username fun user =>
      "timeshift/".toList ++ (user ++ '/' :: (password ++ '/' :: (duration ++ '/' ::
        (start ++ '/' :: (streamId ++ ".ts".toList)))))).toOption
  | .shortStreamHandler, username :: password :: streamId :: _ =>
    (upstreamUrlFor base64 apiPassword username fun user =>
      user ++ '/' :: (password ++ '/' :: streamId)).toOption
  | _, _ => none

end Handlers

/-! ### The URLs -/

/-- A character of a path segment that is written as it is. -/
def plainSegmentChar (c : Char) : Bool := c.isAlphanum || "-._~!$&()*+,;=:@".toList.contains c

/-- A segment of a path, without escapes. -/
structure Segment where
  text : Str
  text_ne : text ≠ []
  plain : text.all plainSegmentChar = true

theorem Segment.not_mem (s : Segment) {c : Char} (h : plainSegmentChar c = false) : c ∉ s.text :=
  fun hmem => Bool.false_ne_true (h.symm.trans (List.all_eq_true.mp s.plain c hmem))

inductive StreamKind
  | live
  | movie
  | series
  | timeshift
deriving DecidableEq

def StreamKind.name : StreamKind → Str
  | live => "live".toList
  | movie => "movie".toList
  | series => "series".toList
  | timeshift => "timeshift".toList

/-- A stream of an upstream server. -/
inductive StreamUrl
  /-- `/{kind}/{user}/{password}/{first}{more}` -/
  | long (kind : StreamKind) (password first : Segment) (more : List Segment)
  /-- `/{user}/{password}/{id}` -/
  | short (password id : Segment)

/-- Segments, each behind a slash. -/
def slashed (segments : List Segment) : Str := segments.flatMap fun s => '/' :: s.text

namespace StreamUrl

/-- What comes behind the user name and its slash. -/
def rest : StreamUrl → Str
  | long _ password first more => password.text ++ '/' :: (first.text ++ slashed more)
  | short password id => password.text ++ '/' :: id.text

/-- What comes before the user name and its slash. -/
def kindText : StreamUrl → Str
  | long kind _ _ _ => '/' :: kind.name
  | short _ _ => []

/-- The path of the URL, for a user name or a token. -/
def path (u : StreamUrl) (user : Str) : Str := u.kindText ++ '/' :: (user ++ '/' :: u.rest)

end StreamUrl

/-- A name and an extension. -/
def HasExtension (s : Str) : Prop := ∃ a b, s = a ++ '.' :: b ∧ a ≠ [] ∧ b ≠ []

/-- **The URLs that come back**: a live stream or a movie has an extension, an episode has a season
and an extension, a timeshift ends in `.ts` behind two segments, and a short URL has no
extension. -/
def StreamUrl.Rebuilt : StreamUrl → Prop
  | .long .live _ first more => more = [] ∧ HasExtension first.text
  | .long .movie _ first more => more = [] ∧ HasExtension first.text
  | .long .series _ _ more => ∃ season episode, more = [season, episode] ∧ HasExtension episode.text
  | .long .timeshift _ _ more => ∃ start stream id, more = [start, stream] ∧ id ≠ [] ∧
      stream.text = id ++ ".ts".toList
  | .short _ id => ¬ HasExtension id.text

/-- A player's request for a path. -/
def streamRequest (path : Str) : Request := ⟨.get, ⟨path, []⟩, none, none⟩

/-- A request for the URL with the token is routed to an XC handler that builds the URL at the
upstream server. -/
def Returned (web : WebCrates) (base64 : Base64Crate) (features : Features)
    (apiPassword origin user token : Str) (u : StreamUrl) : Prop :=
  ∃ h values, routed web features (streamRequest (u.path token)) = (h, values) ∧ h.isXtream = true ∧
    streamUpstreamUrl web base64 apiPassword h values = some (origin ++ u.path user)

/-! ### The table around the XC routes -/

/-- A service for paths that begin otherwise. -/
def serviceClashes (known : Str) : Service Guard Handler → Bool
  | .route r => clash (literal (Routing.pieces r.pattern)) known
  | .scope p _ => clash p known

theorem recognize_of_clash {known : Str} {service : Service Guard Handler}
    (h : serviceClashes known service = true) (admits : Guard → Bool) (rest : Str) :
    service.recognize standardMatcher admits .defaultService (known ++ rest) = none := by
  cases service with
  | route r =>
    have hnone : standardMatcher.captures r.pattern (known ++ rest) = none :=
      captures_eq_none_of_clash h rest
    dsimp only [Service.recognize, Route.recognize]
    rw [hnone, Option.map_none, ite_self]
  | scope p routes =>
    have hnone : standardMatcher.below p (known ++ rest) = none := by
      have hstrip : stripPrefix p (known ++ rest) = none := by
        cases hstrip : stripPrefix p (known ++ rest) with
        | none => rfl
        | some r =>
          exact absurd ⟨r, (stripPrefix_eq_some_iff.mp hstrip).symm⟩ (not_prefix_of_clash h rest)
      show below p (known ++ rest) = none
      rw [below, hstrip]
    dsimp only [Service.recognize]
    rw [hnone, Option.map_none]

/-- The services that are registered before the XC routes. -/
def servicesBefore (features : Features) : List (Service Guard Handler) :=
  rootRoutes
    ++ whenEnabled features.hls [hlsScope]
    ++ whenEnabled features.mpd [mpdScope]
    ++ whenEnabled features.telegram [telegramScope]
    ++ whenEnabled features.transcode [transcodeScope]
    ++ whenEnabled features.acestream [acestreamScope]
    ++ whenEnabled features.extractors [extractorScope]
    ++ [proxyScope]

/-- The services that are registered after them. -/
def servicesAfter (features : Features) : List (Service Guard Handler) :=
  uiRoutes ++ whenEnabled features.webUi [.route (get "/" .indexHandler)]

theorem routeTable_eq {features : Features} (h : features.xtream = true) :
    routeTable features
      = servicesBefore features ++ (xtreamRoutes.map .route ++ servicesAfter features) := by
  unfold routeTable servicesBefore servicesAfter
  rw [h]
  simp only [whenEnabled, if_true, List.append_assoc]

/-- The beginnings that no service before the XC routes has. -/
def xtreamBeginnings : List Str :=
  ["/live/".toList, "/movie/".toList, "/series/".toList, "/timeshift/".toList, "/a".toList]

/-- The services before the XC routes, whatever the features. -/
def allServicesBefore : List (Service Guard Handler) :=
  rootRoutes ++ [hlsScope] ++ [mpdScope] ++ [telegramScope] ++ [transcodeScope] ++ [acestreamScope]
    ++ [extractorScope] ++ [proxyScope]

theorem servicesBefore_subset (features : Features) :
    servicesBefore features ⊆ allServicesBefore := by
  unfold servicesBefore allServicesBefore
  repeat' apply append_subset_append
  all_goals first
    | exact List.Subset.refl _
    | exact whenEnabled_subset _ _

theorem servicesBefore_clash {known : Str} (hknown : known ∈ xtreamBeginnings)
    (features : Features) :
    ∀ service ∈ servicesBefore features, serviceClashes known service = true := by
  have hall : (xtreamBeginnings.all fun known =>
      allServicesBefore.all (serviceClashes known)) = true := by
    decide +kernel
  intro service hservice
  exact List.all_eq_true.mp (List.all_eq_true.mp hall known hknown) service
    (servicesBefore_subset features hservice)

/-- The handlers of a service. -/
def serviceHandlers : Service Guard Handler → List Handler
  | .route r => [r.handler]
  | .scope _ routes => .defaultService :: routes.map Route.handler

theorem matchingHandlers_subset (path : Str) (service : Service Guard Handler) :
    matchingHandlers path service ⊆ serviceHandlers service := by
  cases service with
  | route r =>
    dsimp only [matchingHandlers, serviceHandlers]
    split
    · exact List.Subset.refl _
    · exact List.nil_subset _
  | scope p routes =>
    dsimp only [matchingHandlers, serviceHandlers]
    split
    · exact List.nil_subset _
    · exact List.cons_subset_cons _ (List.map_subset _ (List.filter_subset_self _))

/-- The services after the XC routes have none of their handlers. -/
theorem not_isXtream_of_after {features : Features} {service : Service Guard Handler}
    (hservice : service ∈ servicesAfter features) {admits : Guard → Bool} {path : Str}
    {result : Handler × List Str}
    (h : service.recognize standardMatcher admits .defaultService path = some result) :
    result.1.isXtream = false := by
  have hall : ((uiRoutes ++ [Service.route (get "/" .indexHandler)]).all fun service =>
      (serviceHandlers service).all fun h => !h.isXtream) = true := by
    decide
  have hmem : service ∈ uiRoutes ++ [Service.route (get "/" .indexHandler)] := by
    unfold servicesAfter at hservice
    exact List.append_subset.mpr ⟨List.subset_append_left _ _,
      List.subset_append_of_subset_right _ (whenEnabled_subset _ _)⟩ hservice
  have hhandler := matchingHandlers_subset path service (mem_matchingHandlers h)
  have hnot := List.all_eq_true.mp (List.all_eq_true.mp hall service hmem) _ hhandler
  rwa [Bool.not_eq_true'] at hnot

section Routed

variable {web : WebCrates} {features : Features} {path known rest : Str}

/-- What the XC routes make of a request. -/
def xtreamRouted (path : Str) : Option (Handler × List Str) :=
  xtreamRoutes.findSome? (Route.recognize standardMatcher (Guard.admits (streamRequest path)) path)

theorem routed_eq (hweb : web.RoutesPaths) (hxtream : features.xtream = true)
    (hpercent : '%' ∉ path) (hknown : known ∈ xtreamBeginnings) (hpath : path = known ++ rest) :
    routed web features (streamRequest path) = ((xtreamRouted path).or
      ((servicesAfter features).findSome? (Service.recognize standardMatcher
        (Guard.admits (streamRequest path)) .defaultService path))).getD (.defaultService, []) := by
  have hbefore : (servicesBefore features).findSome? (Service.recognize standardMatcher
      (Guard.admits (streamRequest path)) .defaultService path) = none := by
    rw [List.findSome?_eq_none_iff, hpath]
    exact fun service hservice =>
      recognize_of_clash (servicesBefore_clash hknown features service hservice) _ rest
  have hquote : web.requote (streamRequest path).path = path := hweb.requote hpercent
  unfold routed dispatch
  rw [hquote, hweb.matcher, routeTable_eq hxtream, List.findSome?_append, hbefore, Option.none_or,
    List.findSome?_append, List.findSome?_map]
  rfl

/-- A route that takes the request. -/
theorem routed_of_found (hweb : web.RoutesPaths) (hxtream : features.xtream = true)
    (hpercent : '%' ∉ path) (hknown : known ∈ xtreamBeginnings) (hpath : path = known ++ rest)
    {result : Handler × List Str} (h : xtreamRouted path = some result) :
    routed web features (streamRequest path) = result := by
  rw [routed_eq hweb hxtream hpercent hknown hpath, h]
  rfl

/-- An XC handler is that of an XC route. -/
theorem exists_route_of_routed (hweb : web.RoutesPaths) (hxtream : features.xtream = true)
    (hpercent : '%' ∉ path) (hknown : known ∈ xtreamBeginnings) (hpath : path = known ++ rest)
    {h : Handler} {values : List Str}
    (hrouted : routed web features (streamRequest path) = (h, values))
    (hh : h.isXtream = true) :
    ∃ r ∈ xtreamRoutes, r.handler = h ∧ Fits (Routing.pieces r.pattern) path values := by
  rw [routed_eq hweb hxtream hpercent hknown hpath] at hrouted
  cases hfound : xtreamRouted path with
  | some result =>
    rw [hfound] at hrouted
    obtain rfl : result = (h, values) := hrouted
    -- one of the XC routes has been found
    obtain ⟨r, hr, hrec⟩ := List.exists_of_findSome?_eq_some hfound
    unfold Route.recognize at hrec
    split at hrec
    · obtain ⟨vs, hvs, heq⟩ := Option.map_eq_some_iff.mp hrec
      cases heq
      exact ⟨r, hr, rfl, fits_of_captures hvs⟩
    · cases hrec
  | none =>
    rw [hfound, Option.none_or] at hrouted
    -- a service behind the XC routes has no XC handler
    cases hafter : (servicesAfter features).findSome? (Service.recognize standardMatcher
        (Guard.admits (streamRequest path)) .defaultService path) with
    | none =>
      rw [hafter] at hrouted
      cases hrouted
      cases hh
    | some result =>
      rw [hafter] at hrouted
      obtain rfl : result = (h, values) := hrouted
      obtain ⟨service, hservice, hrec⟩ := List.exists_of_findSome?_eq_some hafter
      exact absurd (not_isXtream_of_after hservice hrec) (by rw [hh]; decide)

/-- The first XC route that the path fits, if the ones before it clash with its beginning. -/
theorem xtreamRouted_of_split {pre post : List (Route Guard Handler)} {r : Route Guard Handler}
    (hsplit : xtreamRoutes = pre ++ r :: post)
    (hpre : ∀ r ∈ pre, ∀ vs, ¬ Fits (Routing.pieces r.pattern) path vs)
    (hadmits : Guard.admits (streamRequest path) r.guard = true) {vs : List Str}
    (hfits : Fits (Routing.pieces r.pattern) path vs) :
    ∃ ws, xtreamRouted path = some (r.handler, ws) ∧ Fits (Routing.pieces r.pattern) path ws := by
  obtain ⟨ws, hws⟩ := exists_captures_of_fits hfits
  have hnone : pre.findSome? (Route.recognize standardMatcher
      (Guard.admits (streamRequest path)) path) = none := by
    rw [List.findSome?_eq_none_iff]
    intro q hq
    unfold Route.recognize
    split
    · have hcaptures : standardMatcher.captures q.pattern path = none := by
        rw [← Option.not_isSome_iff_eq_none, Option.isSome_iff_exists]
        rintro ⟨us, hus⟩
        exact hpre q hq us (fits_of_captures hus)
      rw [hcaptures, Option.map_none]
    · rfl
  have hrec : Route.recognize standardMatcher (Guard.admits (streamRequest path)) path r
      = some (r.handler, ws) := by
    have hcaptures : standardMatcher.captures r.pattern path = some ws := hws
    unfold Route.recognize
    rw [if_pos hadmits, hcaptures, Option.map_some]
  refine ⟨ws, ?_, fits_of_captures hws⟩
  unfold xtreamRouted
  rw [hsplit, List.findSome?_append, hnone, Option.none_or, List.findSome?_cons, hrec]

end Routed

/-! ### The patterns -/

/-- `…/{…}.{…}` -/
def dotted : List Routing.Piece := [.segment, .char '.', .segment]

/-- What the pattern of a kind has behind the password. -/
def StreamKind.last : StreamKind → List Routing.Piece
  | live => dotted
  | movie => dotted
  | series => .segment :: .char '/' :: .segment :: .char '/' :: dotted
  | timeshift =>
    .segment :: .char '/' :: .segment :: .char '/' :: .segment :: ".ts".toList.map .char

def StreamKind.handler : StreamKind → Handler
  | live => .liveStreamHandler
  | movie => .movieStreamHandler
  | series => .seriesStreamHandler
  | timeshift => .timeshiftHandler

/-- `/{username}/{password}/…` -/
def shortPattern (last : List Routing.Piece) : List Routing.Piece :=
  .char '/' :: .segment :: .char '/' :: .segment :: .char '/' :: last

/-- `/{kind}/{username}/{password}/…` -/
def streamPattern (name : Str) (last : List Routing.Piece) : List Routing.Piece :=
  ('/' :: name).map .char ++ shortPattern last

/-- How the paths of a kind begin. -/
def StreamKind.beginning (kind : StreamKind) : Str := '/' :: kind.name ++ ['/']

theorem StreamKind.beginning_mem (kind : StreamKind) : kind.beginning ∈ xtreamBeginnings := by
  cases kind <;> decide

/-- What the second pattern of a kind has behind the password. -/
def StreamKind.other : StreamKind → List Routing.Piece
  | timeshift => .segment :: .char '/' :: .segment :: .char '/' :: dotted
  | _ => [.segment]

/-! ### The table of patterns -/

deriving instance DecidableEq for Guard

/-- What a route does: its guard, its handler and the parts of its pattern. -/
abbrev Shape := Guard × Handler × List Routing.Piece

def shape (r : Route Guard Handler) : Shape := (r.guard, r.handler, Routing.pieces r.pattern)

theorem shape_eq_iff {r : Route Guard Handler} {g : Guard} {h : Handler} {ps : List Routing.Piece} :
    shape r = (g, h, ps) ↔ r.guard = g ∧ r.handler = h ∧ Routing.pieces r.pattern = ps := by
  unfold shape
  rw [Prod.mk.injEq, Prod.mk.injEq]

/-- A pattern for the two methods. -/
def twice (internal : Bool) (h : Handler) (ps : List Routing.Piece) : List Shape :=
  [(⟨some .get, internal⟩, h, ps), (⟨some .head, internal⟩, h, ps)]

def StreamKind.shapes (kind : StreamKind) : List Shape :=
  twice false kind.handler (streamPattern kind.name kind.last)
    ++ twice false kind.handler (streamPattern kind.name kind.other)

def streamShapes : List Shape :=
  StreamKind.live.shapes ++ StreamKind.movie.shapes ++ StreamKind.series.shapes
    ++ StreamKind.timeshift.shapes

def shortShapes : List Shape :=
  twice true .shortStreamHandler (shortPattern dotted)
    ++ twice true .shortStreamHandler (shortPattern [.segment])

/-- The XC routes with their patterns in parts; what is not for streams of players is left as it
is. -/
def xtreamShapes : List Shape :=
  (xtreamRoutes.take 4).map shape
    ++ (streamShapes ++ (((xtreamRoutes.drop 20).take 6).map shape ++ shortShapes))

theorem map_shape_xtreamRoutes : xtreamRoutes.map shape = xtreamShapes := by
  decide +kernel

/-- A route and the routes before it. -/
theorem exists_split {n : ℕ} {p : Shape} {test : Shape → Bool} (hget : xtreamShapes[n]? = some p)
    (htest : (xtreamShapes.take n).all test = true) :
    ∃ pre r post, xtreamRoutes = pre ++ r :: post ∧ pre.all (fun q => test (shape q)) = true ∧
      shape r = p := by
  obtain ⟨hn, hp⟩ := List.getElem?_eq_some_iff.mp hget
  have hsplit : xtreamRoutes.map shape = xtreamShapes.take n ++ p :: xtreamShapes.drop (n + 1) := by
    rw [map_shape_xtreamRoutes, ← hp, ← List.drop_eq_getElem_cons hn, List.take_append_drop]
  obtain ⟨pre, rest, hroutes, hpre, hrest⟩ := List.map_eq_append_iff.mp hsplit
  obtain ⟨r, post, rfl, hr, -⟩ := List.map_eq_cons_iff.mp hrest
  refine ⟨pre, r, post, hroutes, ?_, hr⟩
  rw [← hpre, List.all_map] at htest
  exact htest

/-- The place of the first route of a kind. -/
def StreamKind.index : StreamKind → ℕ
  | live => 4
  | movie => 8
  | series => 12
  | timeshift => 16

/-- The first route of a kind; the routes before it are for other paths. -/
theorem exists_split_kind (kind : StreamKind) :
    ∃ pre r post, xtreamRoutes = pre ++ r :: post ∧
      pre.all (fun q => clash (literal (shape q).2.2) kind.beginning) = true ∧
      shape r = (⟨some .get, false⟩, kind.handler, streamPattern kind.name kind.last) := by
  refine @exists_split kind.index _ (fun q => clash (literal q.2.2) kind.beginning) ?_ ?_
  · cases kind <;> rfl
  · cases kind <;> decide +kernel

/-- The routes that a path of a kind may fit. -/
theorem route_of_kind (kind : StreamKind) {r : Route Guard Handler} (hr : r ∈ xtreamRoutes) :
    clash (literal (Routing.pieces r.pattern)) kind.beginning = true ∨
      (r.handler, Routing.pieces r.pattern) ∈ [(kind.handler, streamPattern kind.name kind.last),
        (kind.handler, streamPattern kind.name kind.other),
        (.shortStreamHandler, shortPattern dotted),
        (.shortStreamHandler, shortPattern [.segment])] := by
  have hall : (xtreamShapes.all fun p => clash (literal p.2.2) kind.beginning ||
      decide (p.2 ∈ [(kind.handler, streamPattern kind.name kind.last),
        (kind.handler, streamPattern kind.name kind.other),
        (.shortStreamHandler, shortPattern dotted),
        (.shortStreamHandler, shortPattern [.segment])]))
      = true := by
    cases kind <;> decide +kernel
  rw [← map_shape_xtreamRoutes] at hall
  have hmem := List.all_eq_true.mp hall (shape r) (List.mem_map_of_mem hr)
  rwa [Bool.or_eq_true, decide_eq_true_iff] at hmem

/-! ### The paths -/

theorem slash_not_mem_name (kind : StreamKind) : '/' ∉ kind.name := by
  cases kind <;> decide

section Paths

variable {token : Str} (hne : token ≠ []) (hslash : '/' ∉ token) {vs : List Str}
  {ps : List Routing.Piece}

include hne hslash

theorem fits_shortPattern_iff {password : Segment} {rest : Str} :
    Fits (shortPattern ps) ('/' :: (token ++ '/' :: (password.text ++ '/' :: rest))) vs ↔
      ∃ ws, vs = token :: password.text :: ws ∧ Fits ps rest ws := by
  have hpassword : '/' ∉ password.text := password.not_mem (by decide)
  unfold shortPattern
  rw [fits_char_iff]
  constructor
  · rintro ⟨_, heq, h⟩
    cases heq
    obtain ⟨us, rfl, hus⟩ := (fits_segment_slash_iff hne hslash).mp h
    obtain ⟨ws, rfl, hws⟩ := (fits_segment_slash_iff password.text_ne hpassword).mp hus
    exact ⟨ws, rfl, hws⟩
  · rintro ⟨ws, rfl, h⟩
    exact ⟨_, rfl, (fits_segment_slash_iff hne hslash).mpr
      ⟨_, rfl, (fits_segment_slash_iff password.text_ne hpassword).mpr ⟨ws, rfl, h⟩⟩⟩

/-- The pattern of a kind, on a path of it. -/
theorem fits_streamPattern_iff {kind : StreamKind} {password first : Segment}
    {more : List Segment} :
    Fits (streamPattern kind.name ps) ((StreamUrl.long kind password first more).path token) vs ↔
      ∃ ws, vs = token :: password.text :: ws ∧ Fits ps (first.text ++ slashed more) ws := by
  unfold streamPattern
  rw [fits_text_iff]
  constructor
  · rintro ⟨rest, heq, h⟩
    rw [← List.append_cancel_left heq] at h
    exact (fits_shortPattern_iff hne hslash).mp h
  · exact fun h => ⟨_, rfl, (fits_shortPattern_iff hne hslash).mpr h⟩

/-- A path of a kind has a segment more than the short patterns have. -/
theorem not_fits_shortPattern {kind : StreamKind} {password first : Segment} {more : List Segment}
    (hps : ∀ s vs, Fits ps s vs → '/' ∉ s) :
    ¬ Fits (shortPattern ps) ((StreamUrl.long kind password first more).path token) vs := by
  have hkind : kind.name ≠ [] := by cases kind <;> decide
  intro h
  unfold shortPattern at h
  obtain ⟨_, heq, h₁⟩ := fits_char_iff.mp h
  cases heq
  obtain ⟨_, -, h₂⟩ := (fits_segment_slash_iff hkind (slash_not_mem_name kind)).mp h₁
  obtain ⟨_, -, h₃⟩ := (fits_segment_slash_iff hne hslash).mp h₂
  exact hps _ _ h₃ (List.mem_append_right _ List.mem_cons_self)

end Paths

/-! ### What the handlers build -/

/-- What is relied on of the values of placeholders: one without escapes is read as it is. -/
def WebCrates.ReadsPaths (web : WebCrates) : Prop := ∀ {v : Str}, '%' ∉ v → web.pathValue v = v

/-- The token is a segment of a path that an XC handler reads as the user at the upstream server. -/
structure ReadAs (base64 : Base64Crate) (apiPassword origin user token : Str) : Prop where
  head : ∃ t, token = 'a' :: t
  slash : '/' ∉ token
  percent : '%' ∉ token
  user_head : ∃ c t, user = c :: t ∧ c ≠ '/'
  read : ∀ path : Str → Str, upstreamUrlFor base64 apiPassword token path
    = .ok (origin ++ '/' :: (path user).dropWhile (· = '/'))

theorem percent_not_mem_slashed (segments : List Segment) : '%' ∉ slashed segments := by
  unfold slashed
  rw [List.mem_flatMap]
  rintro ⟨s, -, h⟩
  obtain h | h := List.mem_cons.mp h
  · exact absurd h (by decide)
  · exact s.not_mem (by decide) h

section Returned

variable {web : WebCrates} {base64 : Base64Crate} {apiPassword origin user token : Str}
  {password first : Segment} {more : List Segment} {ws : List Str}

/-- The values are read as they stand in the path. -/
theorem map_pathValue (password : Segment) (hreads : web.ReadsPaths) {s : Str}
    {ps : List Routing.Piece} (hs : '%' ∉ s) (hfits : Fits ps s ws) (htoken : '%' ∉ token) :
    (token :: password.text :: ws).map web.pathValue = token :: password.text :: ws := by
  have hws : ws.map web.pathValue = ws := by
    conv_rhs => rw [← List.map_id ws]
    exact List.map_congr_left fun v hv => hreads fun hmem => hs (hfits.subset v hv hmem)
  rw [List.map_cons, List.map_cons, hreads htoken, hreads (password.not_mem (by decide)), hws]

/-- A handler builds the URL from the values of its own pattern. -/
theorem streamUpstreamUrl_of_fits (hreads : web.ReadsPaths)
    (htoken : ReadAs base64 apiPassword origin user token) {kind : StreamKind}
    (hfits : Fits kind.last (first.text ++ slashed more) ws) :
    streamUpstreamUrl web base64 apiPassword kind.handler (token :: password.text :: ws)
      = some (origin ++ (StreamUrl.long kind password first more).path user) := by
  have hpercent : '%' ∉ first.text ++ slashed more := fun h =>
    (List.mem_append.mp h).elim (first.not_mem (by decide)) (percent_not_mem_slashed more)
  have hmap := map_pathValue password hreads hpercent hfits htoken.percent
  unfold StreamUrl.path StreamUrl.rest
  cases kind with
  | live | movie =>
    obtain ⟨a, b, rfl, hX, -⟩ := (fits_parts_iff (by decide)).mp hfits
    dsimp only [streamUpstreamUrl, StreamKind.handler]
    rw [hmap, hX]
    dsimp only
    rw [htoken.read]
    rfl
  | series =>
    -- `{stream_id}/{season}/{episode}.{ext}`
    obtain ⟨a, _, _, hX, rfl, -, -, h₁⟩ := fits_segment_iff.mp hfits
    obtain ⟨_, rfl, h₂⟩ := fits_char_iff.mp h₁
    obtain ⟨b, _, _, rfl, rfl, -, -, h₃⟩ := fits_segment_iff.mp h₂
    obtain ⟨_, rfl, h₄⟩ := fits_char_iff.mp h₃
    obtain ⟨c, d, rfl, rfl, -⟩ := (fits_parts_iff (by decide)).mp h₄
    dsimp only [streamUpstreamUrl, StreamKind.handler]
    rw [hmap, hX]
    dsimp only
    rw [htoken.read]
    rfl
  | timeshift =>
    -- `{duration}/{start}/{stream_id}.ts`
    obtain ⟨a, _, _, hX, rfl, -, -, h₁⟩ := fits_segment_iff.mp hfits
    obtain ⟨_, rfl, h₂⟩ := fits_char_iff.mp h₁
    obtain ⟨b, _, _, rfl, rfl, -, -, h₃⟩ := fits_segment_iff.mp h₂
    obtain ⟨_, rfl, h₄⟩ := fits_char_iff.mp h₃
    obtain ⟨c, rfl, rfl, -⟩ := (fits_suffix_iff (by decide)).mp h₄
    dsimp only [streamUpstreamUrl, StreamKind.handler]
    rw [hmap, hX]
    dsimp only
    rw [htoken.read]
    rfl

end Returned

/-! ### Which URLs come back -/

section Segments

variable {first : Segment} {more : List Segment} {ps : List Routing.Piece} {vs : List Str}

theorem slash_mem_slashed (hne : more ≠ []) : '/' ∈ slashed more := by
  obtain ⟨s, rest, rfl⟩ := List.exists_cons_of_ne_nil hne
  exact List.mem_cons_self

/-- Segments without a slash are one segment. -/
theorem slash_not_mem_iff : '/' ∉ first.text ++ slashed more ↔ more = [] := by
  rw [List.mem_append, not_or, and_iff_right (first.not_mem (by decide))]
  constructor
  · intro h
    by_contra hne
    exact h (slash_mem_slashed hne)
  · rintro rfl
    exact List.not_mem_nil

theorem fits_dotted_iff : Fits dotted (first.text ++ slashed more) vs ↔
    more = [] ∧ ∃ a b, vs = [a, b] ∧ first.text = a ++ '.' :: b ∧ a ≠ [] ∧ b ≠ [] := by
  unfold dotted
  rw [fits_parts_iff (by decide)]
  constructor
  · rintro ⟨a, b, rfl, htext, ha, hb, hslash⟩
    obtain rfl := slash_not_mem_iff.mp hslash
    exact ⟨rfl, a, b, rfl, (List.append_nil _).symm.trans htext, ha, hb⟩
  · rintro ⟨rfl, a, b, rfl, htext, ha, hb⟩
    exact ⟨a, b, rfl, (List.append_nil _).trans htext, ha, hb, slash_not_mem_iff.mpr rfl⟩

theorem fits_suffix_segments_iff {t : Str} (ht : '/' ∉ t) :
    Fits (.segment :: t.map .char) (first.text ++ slashed more) vs ↔
      more = [] ∧ ∃ a, vs = [a] ∧ first.text = a ++ t ∧ a ≠ [] := by
  rw [fits_suffix_iff ht]
  constructor
  · rintro ⟨a, rfl, htext, ha, hslash⟩
    obtain rfl := slash_not_mem_iff.mp hslash
    exact ⟨rfl, a, rfl, (List.append_nil _).symm.trans htext, ha⟩
  · rintro ⟨rfl, a, rfl, htext, ha⟩
    exact ⟨a, rfl, (List.append_nil _).trans htext, ha, slash_not_mem_iff.mpr rfl⟩

/-- A placeholder in front of a slash takes the first segment. -/
theorem fits_segment_slash_segments_iff :
    Fits (.segment :: .char '/' :: ps) (first.text ++ slashed more) vs ↔
      ∃ s rest ws, more = s :: rest ∧ vs = first.text :: ws ∧
        Fits ps (s.text ++ slashed rest) ws := by
  have hfirst : '/' ∉ first.text := first.not_mem (by decide)
  cases more with
  | nil =>
    -- the last segment has no slash behind it
    refine iff_of_false (fun h => ?_) ?_
    · obtain ⟨v, t, ws, htext, -, -, -, h⟩ := fits_segment_iff.mp h
      obtain ⟨rest, rfl, -⟩ := fits_char_iff.mp h
      refine hfirst ?_
      rw [← List.append_nil first.text]
      exact htext ▸ List.mem_append_right v List.mem_cons_self
    · rintro ⟨s, rest, ws, h, -⟩
      cases h
  | cons s rest =>
    refine (fits_segment_slash_iff first.text_ne hfirst).trans ?_
    constructor
    · rintro ⟨ws, rfl, h⟩
      exact ⟨s, rest, ws, rfl, rfl, h⟩
    · rintro ⟨s', rest', ws, hmore, rfl, h⟩
      cases hmore
      exact ⟨ws, rfl, h⟩

end Segments

section Kinds

variable {web : WebCrates} {base64 : Base64Crate} {features : Features}
  {apiPassword origin user token : Str} {password first id : Segment} {more : List Segment}

/-- A URL comes back if what it has behind the password fits the pattern of its kind. -/
theorem rebuilt_iff_fits {kind : StreamKind} :
    (StreamUrl.long kind password first more).Rebuilt ↔
      ∃ ws, Fits kind.last (first.text ++ slashed more) ws := by
  cases kind with
  | live | movie =>
    constructor
    · rintro ⟨rfl, a, b, htext, ha, hb⟩
      exact ⟨[a, b], fits_dotted_iff.mpr ⟨rfl, a, b, rfl, htext, ha, hb⟩⟩
    · rintro ⟨ws, h⟩
      obtain ⟨rfl, a, b, -, htext, ha, hb⟩ := fits_dotted_iff.mp h
      exact ⟨rfl, a, b, htext, ha, hb⟩
  | series =>
    constructor
    · rintro ⟨season, episode, rfl, a, b, htext, ha, hb⟩
      refine ⟨[first.text, season.text, a, b], fits_segment_slash_segments_iff.mpr
        ⟨season, [episode], _, rfl, rfl, fits_segment_slash_segments_iff.mpr
          ⟨episode, [], _, rfl, rfl, fits_dotted_iff.mpr ⟨rfl, a, b, rfl, htext, ha, hb⟩⟩⟩⟩
    · rintro ⟨ws, h⟩
      obtain ⟨season, _, _, rfl, rfl, h₁⟩ := fits_segment_slash_segments_iff.mp h
      obtain ⟨episode, _, _, rfl, rfl, h₂⟩ := fits_segment_slash_segments_iff.mp h₁
      obtain ⟨rfl, a, b, -, htext, ha, hb⟩ := fits_dotted_iff.mp h₂
      exact ⟨season, episode, rfl, a, b, htext, ha, hb⟩
  | timeshift =>
    constructor
    · rintro ⟨start, stream, id, rfl, hid, htext⟩
      refine ⟨[first.text, start.text, id], fits_segment_slash_segments_iff.mpr
        ⟨start, [stream], _, rfl, rfl, fits_segment_slash_segments_iff.mpr
          ⟨stream, [], _, rfl, rfl, (fits_suffix_segments_iff (by decide)).mpr
            ⟨rfl, id, rfl, htext, hid⟩⟩⟩⟩
    · rintro ⟨ws, h⟩
      obtain ⟨start, _, _, rfl, rfl, h₁⟩ := fits_segment_slash_segments_iff.mp h
      obtain ⟨stream, _, _, rfl, rfl, h₂⟩ := fits_segment_slash_segments_iff.mp h₁
      obtain ⟨rfl, id, -, htext, hid⟩ := (fits_suffix_segments_iff (by decide)).mp h₂
      exact ⟨start, stream, id, rfl, hid, htext⟩

theorem percent_not_mem_path (htoken : ReadAs base64 apiPassword origin user token)
    (u : StreamUrl) :
    '%' ∉ u.path token := by
  have hsegment (s : Segment) : '%' ∉ s.text := s.not_mem (by decide)
  have hname : ∀ kind : StreamKind, '%' ∉ '/' :: kind.name := by
    intro kind
    cases kind <;> decide
  have hkind : '%' ∉ u.kindText := by
    cases u with
    | long kind password first more => exact hname kind
    | short password id => exact List.not_mem_nil
  have hrest : '%' ∉ u.rest := by
    cases u with
    | long kind password first more =>
      simp only [StreamUrl.rest, List.mem_append, List.mem_cons, not_or]
      exact ⟨hsegment password, by decide, hsegment first, percent_not_mem_slashed more⟩
    | short password id =>
      simp only [StreamUrl.rest, List.mem_append, List.mem_cons, not_or]
      exact ⟨hsegment password, by decide, hsegment id⟩
  simp only [StreamUrl.path, List.mem_append, List.mem_cons, not_or]
  exact ⟨hkind, by decide, htoken.percent, by decide, hrest⟩

theorem ReadAs.token_ne (htoken : ReadAs base64 apiPassword origin user token) : token ≠ [] := by
  obtain ⟨t, ht⟩ := htoken.head
  rw [ht]
  exact List.cons_ne_nil 'a' t

theorem not_fits_of_clash {known rest : Str} {ps : List Routing.Piece} {vs : List Str}
    (h : clash (literal ps) known = true) : ¬ Fits ps (known ++ rest) vs :=
  fun hfits => not_prefix_of_clash h rest hfits.literal_begins

/-- The second pattern of a kind has too few values, or ends the path with its own extension. -/
theorem rebuilt_of_other (hreads : web.ReadsPaths)
    (htoken : ReadAs base64 apiPassword origin user token)
    {kind : StreamKind} {ws : List Str} (hfits : Fits kind.other (first.text ++ slashed more) ws)
    (hurl : streamUpstreamUrl web base64 apiPassword kind.handler (token :: password.text :: ws)
      = some (origin ++ (StreamUrl.long kind password first more).path user)) :
    (StreamUrl.long kind password first more).Rebuilt := by
  cases kind with
  | live =>
    obtain ⟨rfl, -, -⟩ := fits_last_iff.mp hfits
    cases hurl
  | movie =>
    obtain ⟨rfl, -, -⟩ := fits_last_iff.mp hfits
    cases hurl
  | series =>
    obtain ⟨rfl, -, -⟩ := fits_last_iff.mp hfits
    cases hurl
  | timeshift =>
    have hpercent : '%' ∉ first.text ++ slashed more := fun h =>
      (List.mem_append.mp h).elim (first.not_mem (by decide)) (percent_not_mem_slashed more)
    have hmap := map_pathValue password hreads hpercent hfits htoken.percent
    obtain ⟨start, _, _, rfl, rfl, h₁⟩ := fits_segment_slash_segments_iff.mp hfits
    obtain ⟨stream, _, _, rfl, rfl, h₂⟩ := fits_segment_slash_segments_iff.mp h₁
    obtain ⟨rfl, a, b, rfl, htext, ha, -⟩ := fits_dotted_iff.mp h₂
    dsimp only [streamUpstreamUrl, StreamKind.handler] at hurl
    rw [hmap] at hurl
    dsimp only at hurl
    rw [htoken.read] at hurl
    -- the handler ends the path with its own extension
    have hsame : "/timeshift/".toList ++ (user ++ '/' ::
      (password.text ++ '/' :: (first.text ++ '/' ::
          (start.text ++ '/' :: (a ++ ".ts".toList)))))
        = "/timeshift/".toList ++ (user ++ '/' :: (password.text ++ '/' :: (first.text ++ '/' ::
          (start.text ++ '/' :: (stream.text ++ []))))) :=
      List.append_cancel_left (Option.some.inj hurl)
    simp only [List.append_cancel_left_eq, List.cons.injEq, true_and, List.append_nil] at hsame
    exact ⟨start, stream, a, rfl, ha, hsame.symm⟩

/-- **A long URL** comes back exactly if it is one of those that do. -/
theorem returned_long_iff (hweb : web.RoutesPaths) (hreads : web.ReadsPaths)
    (hxtream : features.xtream = true) (htoken : ReadAs base64 apiPassword origin user token)
    {kind : StreamKind} :
    Returned web base64 features apiPassword origin user token (.long kind password first more) ↔
      (StreamUrl.long kind password first more).Rebuilt := by
  have hpercent := percent_not_mem_path htoken (.long kind password first more)
  have hpath : (StreamUrl.long kind password first more).path token
      = kind.beginning ++ (token ++ '/' :: (StreamUrl.long kind password first more).rest) := by
    unfold StreamUrl.path StreamKind.beginning
    rw [List.append_assoc]
    rfl
  -- the last parts of the short patterns hold no slash
  have hslashes : ∀ ps ∈ [dotted, [Routing.Piece.segment]], ∀ s vs, Fits ps s vs → '/' ∉ s := by
    intro ps hps s vs hfits
    obtain rfl | hps := List.mem_cons.mp hps
    · obtain ⟨_, _, _, _, _, _, hslash⟩ := (fits_parts_iff (by decide)).mp hfits
      exact hslash
    · rw [List.mem_singleton.mp hps] at hfits
      exact (fits_last_iff.mp hfits).2.2
  constructor
  · rintro ⟨h, values, hrouted, hh, hurl⟩
    obtain ⟨r, hr, rfl, hfits⟩ :=
      exists_route_of_routed hweb hxtream hpercent kind.beginning_mem hpath hrouted hh
    obtain hclash | hmem := route_of_kind kind hr
    · rw [hpath] at hfits
      exact absurd hfits (not_fits_of_clash hclash)
    -- four patterns are left, two of the kind and two for short URLs
    simp only [List.mem_cons, Prod.mk.injEq, List.not_mem_nil, or_false] at hmem
    obtain ⟨hhandler, hpieces⟩ | ⟨hhandler, hpieces⟩ | ⟨hhandler, hpieces⟩ | ⟨hhandler, hpieces⟩ :=
      hmem
    · rw [hpieces, fits_streamPattern_iff htoken.token_ne htoken.slash] at hfits
      obtain ⟨ws, -, hws⟩ := hfits
      exact rebuilt_iff_fits.mpr ⟨ws, hws⟩
    · -- the handler takes more values than this pattern has
      rw [hpieces, fits_streamPattern_iff htoken.token_ne htoken.slash] at hfits
      obtain ⟨ws, rfl, hws⟩ := hfits
      rw [hhandler] at hurl
      exact rebuilt_of_other hreads htoken hws hurl
    · rw [hpieces] at hfits
      exact absurd hfits (not_fits_shortPattern htoken.token_ne htoken.slash
        (hslashes dotted List.mem_cons_self))
    · rw [hpieces] at hfits
      exact absurd hfits (not_fits_shortPattern htoken.token_ne htoken.slash
        (hslashes _ (List.mem_cons_of_mem _ List.mem_cons_self)))
  · intro hrebuilt
    -- the first route of the kind takes the request
    obtain ⟨ws, hws⟩ := rebuilt_iff_fits.mp hrebuilt
    obtain ⟨pre, r, post, hsplit, hpre, hshape⟩ := exists_split_kind kind
    obtain ⟨hguard, hhandler, hpieces⟩ := shape_eq_iff.mp hshape
    have hfits : Fits (Routing.pieces r.pattern)
        ((StreamUrl.long kind password first more).path token) (token :: password.text :: ws) := by
      rw [hpieces, fits_streamPattern_iff htoken.token_ne htoken.slash]
      exact ⟨ws, rfl, hws⟩
    have hadmits : Guard.admits
        (streamRequest ((StreamUrl.long kind password first more).path token)) r.guard = true := by
      rw [hguard]
      rfl
    have hbefore : ∀ q ∈ pre, ∀ vs, ¬ Fits (Routing.pieces q.pattern)
        ((StreamUrl.long kind password first more).path token) vs := by
      intro q hq vs
      rw [hpath]
      exact not_fits_of_clash (List.all_eq_true.mp hpre q hq)
    obtain ⟨values, hfound, hvalues⟩ := xtreamRouted_of_split hsplit hbefore hadmits hfits
    rw [hpieces, fits_streamPattern_iff htoken.token_ne htoken.slash] at hvalues
    obtain ⟨us, rfl, hus⟩ := hvalues
    refine ⟨r.handler, _,
      routed_of_found hweb hxtream hpercent kind.beginning_mem hpath hfound, ?_, ?_⟩
    · rw [hhandler]
      cases kind <;> rfl
    · rw [hhandler]
      exact streamUpstreamUrl_of_fits hreads htoken hus

/-! ### Short URLs -/

/-- The first route for short URLs; the routes before it are for other paths. -/
theorem exists_split_dotted : ∃ pre r post, xtreamRoutes = pre ++ r :: post ∧
    pre.all (fun q => clash (literal (shape q).2.2) "/a".toList) = true ∧
    shape r = (⟨some .get, true⟩, .shortStreamHandler, shortPattern dotted) :=
  @exists_split 26 _ (fun q => clash (literal q.2.2) "/a".toList) rfl (by decide +kernel)

/-- The second one, behind it. -/
theorem exists_split_plain : ∃ pre r post, xtreamRoutes = pre ++ r :: post ∧
    pre.all (fun q => clash (literal (shape q).2.2) "/a".toList ||
      decide ((shape q).2.2 = shortPattern dotted)) = true ∧
    shape r = (⟨some .get, true⟩, .shortStreamHandler, shortPattern [.segment]) :=
  @exists_split 28 _
    (fun q => clash (literal q.2.2) "/a".toList || decide (q.2.2 = shortPattern dotted)) rfl
    (by decide +kernel)

/-- The guard of the short routes lets tokens pass. -/
theorem admits_short (htoken : ReadAs base64 apiPassword origin user token) :
    Guard.admits (streamRequest ((StreamUrl.short password id).path token)) ⟨some .get, true⟩
      = true := by
  obtain ⟨t, rfl⟩ := htoken.head
  rfl

theorem path_short (password id : Segment) (token : Str) : (StreamUrl.short password id).path token
    = '/' :: (token ++ '/' :: (password.text ++ '/' :: (id.text ++ slashed []))) := by
  unfold StreamUrl.path StreamUrl.rest slashed
  rw [List.flatMap_nil, List.append_nil]
  rfl

/-- What the handler of short URLs builds. -/
theorem streamUpstreamUrl_short (hreads : web.ReadsPaths)
    (htoken : ReadAs base64 apiPassword origin user token) {stream : Str} {ws : List Str}
    (hstream : '%' ∉ stream) :
    streamUpstreamUrl web base64 apiPassword .shortStreamHandler
        (token :: password.text :: stream :: ws)
      = some (origin ++ '/' :: (user ++ '/' :: (password.text ++ '/' :: stream))) := by
  obtain ⟨c, t, huser, hc⟩ := htoken.user_head
  have htail : (user ++ '/' :: (password.text ++ '/' :: stream)).dropWhile (· = '/')
      = user ++ '/' :: (password.text ++ '/' :: stream) := by
    rw [huser, List.cons_append, List.dropWhile_cons_of_neg (by simpa using hc)]
  dsimp only [streamUpstreamUrl]
  simp only [List.map_cons, hreads htoken.percent, hreads (password.not_mem (c := '%') (by decide)),
    hreads hstream, htoken.read, htail]
  rfl

/-- **A short URL** comes back exactly if it has no extension. -/
theorem returned_short_iff (hweb : web.RoutesPaths) (hreads : web.ReadsPaths)
    (hxtream : features.xtream = true) (htoken : ReadAs base64 apiPassword origin user token) :
    Returned web base64 features apiPassword origin user token (.short password id) ↔
      ¬ HasExtension id.text := by
  have hpercent := percent_not_mem_path htoken (.short password id)
  have hadmits := @admits_short base64 apiPassword origin user token password id htoken
  have hknown : "/a".toList ∈ xtreamBeginnings := by decide
  obtain ⟨rest, hpath⟩ : ∃ rest,
      (StreamUrl.short password id).path token = "/a".toList ++ rest := by
    obtain ⟨t, rfl⟩ := htoken.head
    exact ⟨_, rfl⟩
  have hdotted {vs : List Str} :
      Fits (shortPattern dotted) ((StreamUrl.short password id).path token) vs ↔
      ∃ a b, vs = [token, password.text, a, b] ∧ id.text = a ++ '.' :: b ∧ a ≠ [] ∧ b ≠ [] := by
    rw [path_short, fits_shortPattern_iff htoken.token_ne htoken.slash]
    constructor
    · rintro ⟨ws, rfl, h⟩
      obtain ⟨-, a, b, rfl, hid⟩ := fits_dotted_iff.mp h
      exact ⟨a, b, rfl, hid⟩
    · rintro ⟨a, b, rfl, hid⟩
      exact ⟨[a, b], rfl, fits_dotted_iff.mpr ⟨rfl, a, b, rfl, hid⟩⟩
  by_cases hext : HasExtension id.text
  · refine iff_of_false ?_ (not_not_intro hext)
    rintro ⟨h, values, hrouted, -, hurl⟩
    -- the route with an extension takes the request, and the handler leaves the extension out
    obtain ⟨pre, r, post, hsplit, hpre, hshape⟩ := exists_split_dotted
    obtain ⟨hguard, hhandler, hpieces⟩ := shape_eq_iff.mp hshape
    obtain ⟨a, b, hid, ha, hb⟩ := hext
    have hfits : Fits (Routing.pieces r.pattern) ((StreamUrl.short password id).path token)
        [token, password.text, a, b] := by
      rw [hpieces]
      exact hdotted.mpr ⟨a, b, rfl, hid, ha, hb⟩
    have hbefore : ∀ q ∈ pre, ∀ vs,
        ¬ Fits (Routing.pieces q.pattern) ((StreamUrl.short password id).path token) vs := by
      intro q hq vs
      rw [hpath]
      exact not_fits_of_clash (List.all_eq_true.mp hpre q hq)
    obtain ⟨us, hfound, hus⟩ := xtreamRouted_of_split hsplit hbefore (hguard ▸ hadmits) hfits
    rw [hpieces] at hus
    obtain ⟨a', b', rfl, hid', -, -⟩ := hdotted.mp hus
    rw [routed_of_found hweb hxtream hpercent hknown hpath hfound, hhandler] at hrouted
    cases hrouted
    have hpercent' : '%' ∉ a' := fun h => (id.not_mem (c := '%') (by decide)) (by
      rw [hid']
      exact List.mem_append_left _ h)
    rw [streamUpstreamUrl_short hreads htoken hpercent'] at hurl
    have hlength := congrArg List.length (Option.some.inj hurl)
    rw [path_short, hid'] at hlength
    simp [slashed] at hlength
  · refine iff_of_true ?_ hext
    obtain ⟨pre, r, post, hsplit, hpre, hshape⟩ := exists_split_plain
    obtain ⟨hguard, hhandler, hpieces⟩ := shape_eq_iff.mp hshape
    have hplain {vs : List Str} :
        Fits (shortPattern [.segment]) ((StreamUrl.short password id).path token) vs ↔
          vs = [token, password.text, id.text] := by
      have hslash : '/' ∉ id.text := id.not_mem (by decide)
      rw [path_short, fits_shortPattern_iff htoken.token_ne htoken.slash]
      simp only [slashed, List.flatMap_nil, List.append_nil, fits_last_iff]
      constructor
      · rintro ⟨ws, rfl, rfl, -⟩
        rfl
      · rintro rfl
        exact ⟨_, rfl, rfl, id.text_ne, hslash⟩
    have hbefore : ∀ q ∈ pre, ∀ vs,
        ¬ Fits (Routing.pieces q.pattern) ((StreamUrl.short password id).path token) vs := by
      intro q hq vs hvs
      have hmem := List.all_eq_true.mp hpre q hq
      rw [Bool.or_eq_true, decide_eq_true_iff] at hmem
      obtain hclash | hpattern : _ ∨ Routing.pieces q.pattern = shortPattern dotted := hmem
      · rw [hpath] at hvs
        exact not_fits_of_clash hclash hvs
      · rw [hpattern] at hvs
        obtain ⟨a, b, -, hid⟩ := hdotted.mp hvs
        exact hext ⟨a, b, hid⟩
    have hfits : Fits (Routing.pieces r.pattern) ((StreamUrl.short password id).path token)
        [token, password.text, id.text] := by
      rw [hpieces]
      exact hplain.mpr rfl
    obtain ⟨us, hfound, hus⟩ := xtreamRouted_of_split hsplit hbefore (hguard ▸ hadmits) hfits
    rw [hpieces] at hus
    obtain rfl := hplain.mp hus
    refine ⟨r.handler, _, routed_of_found hweb hxtream hpercent hknown hpath hfound, ?_, ?_⟩
    · rw [hhandler]
      rfl
    · rw [hhandler, streamUpstreamUrl_short hreads htoken (id.not_mem (by decide)), path_short]
      simp only [slashed, List.flatMap_nil, List.append_nil]

/-- **A URL comes back** exactly if it is one of those that do. -/
theorem returned_iff (hweb : web.RoutesPaths) (hreads : web.ReadsPaths)
    (hxtream : features.xtream = true) (htoken : ReadAs base64 apiPassword origin user token)
    (u : StreamUrl) :
    Returned web base64 features apiPassword origin user token u ↔ u.Rebuilt := by
  cases u with
  | long kind password first more => exact returned_long_iff hweb hreads hxtream htoken
  | short password id => exact returned_short_iff hweb hreads hxtream htoken

end Kinds

end MediaFlow
