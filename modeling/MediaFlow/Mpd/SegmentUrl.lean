import MediaFlow.Auth.Middleware
import MediaFlow.Auth.ValueQuery
import MediaFlow.Mpd.Playlist

/-!
# The URLs of segments and init segments

A DASH playlist lists URLs of the proxy that carry all that the handlers of segments and init segments
(`mpd/handler.rs`) need: URLs, ranges, keys, headers and the password. `urlsCarry_iff` says when a
request for such a URL passes the middleware and brings it all back.
-/

open Text Json UrlCoding

namespace MediaFlow

/-! ### What the handlers read -/

/-- A flag of a query. -/
def queryFlag (value : Option Str) : Bool :=
  (value.map fun v => decide (v = "true".toList ∨ v = ['1'])).getD false

/-- A value that is not empty. -/
def nonemptyValue (value : Option Str) : Option Str := value.filter fun v => v ≠ []

structure SegmentQuery where
  initUrl : Str
  segmentUrl : Str
  mimeType : Str
  useMap : Bool
  isLive : Bool
  segmentRange : Option Str
  initRange : Option Str
  keyId : Option Str
  key : Option Str
deriving DecidableEq

structure InitQuery where
  initUrl : Str
  mimeType : Str
  initRange : Option Str
  keyId : Option Str
  key : Option Str
deriving DecidableEq

section Readers

variable (web : WebCrates) (queryString : Str)

/-- A value that a handler cannot do without. -/
def requiredValue (name : String) : Except AppError Str :=
  match formValue web queryString name.toList with
  | some v => .ok v
  | none => .error (.badRequest ("Missing ".toList ++ name.toList))

/-- The query of `mpd_segment_handler`. -/
def readSegmentQuery : Except AppError SegmentQuery := do
  let initUrl ← requiredValue web queryString "init_url"
  let segmentUrl ← requiredValue web queryString "segment_url"
  return {
    initUrl, segmentUrl
    mimeType := (formValue web queryString "mime_type".toList).getD "video/mp4".toList
    useMap := queryFlag (formValue web queryString "use_map".toList)
    isLive := queryFlag (formValue web queryString "is_live".toList)
    segmentRange := nonemptyValue (formValue web queryString "segment_range".toList)
    initRange := formValue web queryString "init_range".toList
    keyId := nonemptyValue (formValue web queryString "key_id".toList)
    key := nonemptyValue (formValue web queryString "key".toList) }

/-- The query of `mpd_init_handler`. -/
def readInitQuery : Except AppError InitQuery := do
  let initUrl ← requiredValue web queryString "init_url"
  return {
    initUrl
    mimeType := (formValue web queryString "mime_type".toList).getD "video/mp4".toList
    initRange := formValue web queryString "init_range".toList
    keyId := nonemptyValue (formValue web queryString "key_id".toList)
    key := nonemptyValue (formValue web queryString "key".toList) }

end Readers

/-! ### What is to be shown -/

/-- The request for a URL under the base of the proxy. A fragment is not sent. -/
def requestUri (proxyBase url : Str) : Option Uri :=
  (stripPrefix proxyBase url).map fun rest =>
    let sent := rest.takeWhile (· ≠ '#')
    match splitOnce '?' sent with
    | some (path, query) => ⟨path, query⟩
    | none => ⟨sent, []⟩

/-- What a URL brings back: the middleware, with the same password, lets the request through and
stores the headers, and a handler reads from its query what is `expected`. -/
structure Carries {β : Type} (web : WebCrates) (proxyBase url : Str) (params : MpdProxyParams)
    (read : Str → Except AppError β) (expected : β) : Prop where
  exists_request : ∃ uri, requestUri proxyBase url = some uri ∧
    (∀ (crates : TokenCrates) (now : ℕ) (method : Method) (addr : Option Str),
      (AuthMiddleware.new params.apiPassword).call web crates now ⟨method, uri, addr, none⟩ =
        .ok ⟨method, uri, addr, some (storedProxyData web uri.query)⟩) ∧
    (∀ name, headerValue (storedProxyData web uri.query).requestHeaders name =
      (params.passHeaders.lookup name).map .string) ∧
    formValue web uri.query "api_password".toList = some params.apiPassword ∧
    read uri.query = .ok expected

/-- The URL of a segment brings everything back. -/
def SegmentUrlCarries (web : WebCrates) (proxyBase initUrl segmentUrl mimeType : Str)
    (isLive useMap : Bool) (initRange segInitRange segmentRange : Option Str)
    (params : MpdProxyParams) : Prop :=
  Carries web proxyBase
    (buildSegmentUrl web.urlencode proxyBase initUrl segmentUrl mimeType isLive useMap initRange
      segInitRange segmentRange params) params (readSegmentQuery web)
    { initUrl, segmentUrl, mimeType, useMap, isLive, segmentRange
      initRange := segInitRange.or initRange
      keyId := params.keyId
      key := params.key }

/-- So does the URL of an init segment. -/
def InitUrlCarries (web : WebCrates) (proxyBase initUrl mimeType : Str) (initRange : Option Str)
    (params : MpdProxyParams) : Prop :=
  Carries web proxyBase (buildInitUrl web.urlencode proxyBase initUrl mimeType initRange params) params
    (readInitQuery web) { initUrl, mimeType, initRange, keyId := params.keyId, key := params.key }

/-- **The condition**: names of headers need no encoding, no header is empty, and no key that is given
is. -/
structure PlainParams (params : MpdProxyParams) : Prop where
  headers : ∀ header ∈ params.passHeaders, encode header.1 = header.1 ∧ header.2 ≠ []
  keyId : params.keyId ≠ some []
  key : params.key ≠ some []

/-! ### The values -/

/-- The values of the URL of a segment. -/
def segmentValues (initUrl segmentUrl mimeType : Str) (isLive useMap : Bool)
    (initRange segmentRange : Option Str) (params : MpdProxyParams) : List (Str × Option Str) :=
  [("init_url".toList, some initUrl), ("segment_url".toList, some segmentUrl),
    ("mime_type".toList, some mimeType),
    ("is_live".toList, some (if isLive then "true".toList else "false".toList)),
    ("api_password".toList, some params.apiPassword),
    ("use_map".toList, if useMap then some "true".toList else none),
    ("init_range".toList, initRange), ("segment_range".toList, segmentRange),
    ("key_id".toList, params.keyId), ("key".toList, params.key)]

/-- The values of the URL of an init segment. -/
def initValues (initUrl mimeType : Str) (initRange : Option Str) (params : MpdProxyParams) :
    List (Str × Option Str) :=
  [("init_url".toList, some initUrl), ("mime_type".toList, some mimeType),
    ("api_password".toList, some params.apiPassword), ("init_range".toList, initRange),
    ("key_id".toList, params.keyId), ("key".toList, params.key)]

/-- The names are plain; this is decidable. -/
theorem plainNames_of_all {names : List Str} (hnodup : names.Nodup)
    (hall : names.all (fun name => name.all encodingChar && formDecode name = name &&
      !"h_".toList.isPrefixOf name) = true) : PlainNames names := by
  have hname : ∀ name ∈ names, (name.all encodingChar = true ∧ formDecode name = name) ∧
      "h_".toList.isPrefixOf name = false := by
    intro name hname
    have := List.all_eq_true.mp hall name hname
    simpa only [Bool.and_eq_true, decide_eq_true_iff, Bool.not_eq_true'] using this
  refine ⟨hnodup, fun name hmem => ?_, fun name hmem => (hname name hmem).1.2, fun name hmem h => ?_⟩
  · exact List.all_eq_true.mp (hname name hmem).1.1
  · have := (hname name hmem).2
    rw [List.isPrefixOf_iff_prefix.mpr h] at this
    cases this

theorem segmentValues_plain (initUrl segmentUrl mimeType : Str) (isLive useMap : Bool)
    (initRange segmentRange : Option Str) (params : MpdProxyParams) :
    PlainNames ((segmentValues initUrl segmentUrl mimeType isLive useMap initRange segmentRange
      params).map Prod.fst) := by
  show PlainNames ["init_url".toList, "segment_url".toList, "mime_type".toList, "is_live".toList,
    "api_password".toList, "use_map".toList, "init_range".toList, "segment_range".toList,
    "key_id".toList, "key".toList]
  exact plainNames_of_all (by decide) (by decide +kernel)

theorem initValues_plain (initUrl mimeType : Str) (initRange : Option Str) (params : MpdProxyParams) :
    PlainNames ((initValues initUrl mimeType initRange params).map Prod.fst) := by
  show PlainNames ["init_url".toList, "mime_type".toList, "api_password".toList, "init_range".toList,
    "key_id".toList, "key".toList]
  exact plainNames_of_all (by decide) (by decide +kernel)

theorem keyAndHeaderParams_eq (params : MpdProxyParams) :
    keyAndHeaderParams encode params =
      (optionalField "key_id".toList params.keyId).flatMap fieldText ++
        ((optionalField "key".toList params.key).flatMap fieldText ++
          (params.passHeaders.map headerField).flatMap fieldText) := by
  unfold keyAndHeaderParams
  rw [optionalField_text rfl, optionalField_text rfl, headerField_text, List.append_assoc]
  rfl

/-- The URL of a segment is that of its values. -/
theorem buildSegmentUrl_eq (proxyBase initUrl segmentUrl mimeType : Str) (isLive useMap : Bool)
    (initRange segInitRange segmentRange : Option Str) (params : MpdProxyParams) :
    buildSegmentUrl encode proxyBase initUrl segmentUrl mimeType isLive useMap initRange segInitRange
        segmentRange params =
      proxyBase ++ (("/proxy/mpd/segment.".toList ++
        if params.remuxToTs then "ts".toList else "mp4".toList) ++ '?' ::
          valueQuery (segmentValues initUrl segmentUrl mimeType isLive useMap
            (segInitRange.or initRange) segmentRange params) params.passHeaders) := by
  have hlive : (optionalField "is_live".toList
      (some (if isLive then "true".toList else "false".toList))).flatMap fieldText =
        "&is_live=".toList ++ if isLive then "true".toList else "false".toList := by
    cases isLive with
    | true => rfl
    | false => rfl
  have hmap : (optionalField "use_map".toList (if useMap then some "true".toList else none)).flatMap
      fieldText = if useMap then "&use_map=true".toList else [] := by
    cases useMap with
    | true => rfl
    | false => rfl
  unfold segmentValues
  rw [valueQuery_cons]
  simp only [List.flatMap_cons, List.flatMap_nil, List.append_nil]
  rw [hlive, hmap, optionalField_text rfl, optionalField_text rfl, optionalField_text rfl,
    optionalField_text rfl, optionalField_text rfl]
  unfold buildSegmentUrl
  rw [keyAndHeaderParams_eq]
  simp only [List.append_assoc]
  rfl

theorem buildInitUrl_eq (proxyBase initUrl mimeType : Str) (initRange : Option Str)
    (params : MpdProxyParams) :
    buildInitUrl encode proxyBase initUrl mimeType initRange params =
      proxyBase ++ ("/proxy/mpd/init".toList ++ '?' ::
        valueQuery (initValues initUrl mimeType initRange params) params.passHeaders) := by
  unfold initValues
  rw [valueQuery_cons]
  simp only [List.flatMap_cons, List.flatMap_nil, List.append_nil]
  rw [optionalField_text rfl, optionalField_text rfl, optionalField_text rfl]
  unfold buildInitUrl
  rw [keyAndHeaderParams_eq]
  simp only [List.append_assoc]
  rfl

/-! ### The request -/

/-- A path under the base that the middleware does not treat in a way of its own. -/
structure HandledPath (path : Str) : Prop where
  noFragment : '#' ∉ path
  noQuery : '?' ∉ path
  noToken : "/_token_".toList.isPrefixOf path = false
  closed : openEndpoints.contains path = false
  notStatic : isStaticAsset path = false

section Request

variable {web : WebCrates} {path : Str} {values : List (Str × Option Str)}
  {headers : List (Str × Str)} (hpath : HandledPath path) (hnames : PlainNames (values.map Prod.fst))

include hpath hnames

theorem requestUri_eq (proxyBase : Str) :
    requestUri proxyBase (proxyBase ++ (path ++ '?' :: valueQuery values headers)) =
      some ⟨path, valueQuery values headers⟩ := by
  have hsent : (path ++ '?' :: valueQuery values headers).takeWhile (· ≠ '#') =
      path ++ '?' :: valueQuery values headers := by
    refine List.takeWhile_eq_self_iff.mpr fun c hc => decide_eq_true ?_
    rintro rfl
    rcases List.mem_append.mp hc with hc | hc
    · exact hpath.noFragment hc
    · rcases List.mem_cons.mp hc with hc | hc
      · cases hc
      · exact not_mem_valueQuery hnames (by decide) (by decide) (by decide) hc
  unfold requestUri
  rw [stripPrefix_append, Option.map_some, hsent]
  dsimp only
  rw [splitOnce_of_not_mem hpath.noQuery]

/-- **The middleware** lets the request through when the query has the password. -/
theorem call_valueQuery (hweb : web.CodesUrls) (hnodup : (headers.map Prod.fst).Nodup) {password : Str}
    (hpassword : ("api_password".toList, some password) ∈ values)
    (htoken : "token".toList ∉ values.map Prod.fst) (crates : TokenCrates) (now : ℕ) (method : Method)
    (addr : Option Str) :
    (AuthMiddleware.new password).call web crates now
        ⟨method, ⟨path, valueQuery values headers⟩, addr, none⟩ =
      .ok ⟨method, ⟨path, valueQuery values headers⟩, addr,
        some (storedProxyData web (valueQuery values headers))⟩ := by
  have htaken : (extractQueryParams web (valueQuery values headers)).lookup "token".toList = none := by
    rw [lookup_extract (by decide)]
    show (takenValue web _ _).map _ = none
    rw [takenValue_valueQuery_eq_none hnames htoken (by decide), Option.map_none]
  have hstored : (AuthMiddleware.new password).apiPassword = password := rfl
  unfold AuthMiddleware.call
  rw [hstored]
  by_cases hempty : password = []
  · -- the operator has set none
    rw [if_pos hempty]
    refine (if_neg ?_).trans rfl
    rintro (htokenPath | hsome)
    · exact Bool.false_ne_true (hpath.noToken.symm.trans htokenPath)
    · have hsome : ((extractQueryParams web (valueQuery values headers)).lookup
        "token".toList).isSome = true := hsome
      rw [htaken] at hsome
      cases hsome
  · have hno : stripPrefix "/_token_".toList path = none := by
      unfold stripPrefix
      rw [if_neg (Bool.eq_false_iff.mp hpath.noToken)]
    have hvalue : (extractQueryParams web (valueQuery values headers)).lookup "api_password".toList =
        some (.string password) := by
      rw [lookup_extract (by decide)]
      show (takenValue web _ _).map _ = _
      rw [takenValue_valueQuery hnames hnodup hweb hpassword hempty, Option.map_some]
    rw [if_neg hempty]
    dsimp only [Request.path]
    rw [hno]
    refine (if_neg ?_).trans ?_
    · rintro (hopen | hstatic)
      · exact Bool.false_ne_true (hpath.closed.symm.trans hopen)
      · exact Bool.false_ne_true (hpath.notStatic.symm.trans hstatic)
    · unfold AuthMiddleware.callPassword
      dsimp only [Request.queryString]
      rw [htaken, hvalue]
      exact if_pos rfl

end Request

/-- What a URL of values brings back depends on its headers and on what the handler reads. -/
theorem carries_iff {β : Type} {web : WebCrates} (hweb : web.CodesUrls) {proxyBase url path : Str}
    {values : List (Str × Option Str)} {params : MpdProxyParams} {read : Str → Except AppError β}
    {expected : β} (hnodup : (params.passHeaders.map Prod.fst).Nodup) (hpath : HandledPath path)
    (hnames : PlainNames (values.map Prod.fst))
    (hpassword : ("api_password".toList, some params.apiPassword) ∈ values)
    (htoken : "token".toList ∉ values.map Prod.fst)
    (hurl : url = proxyBase ++ (path ++ '?' :: valueQuery values params.passHeaders)) :
    Carries web proxyBase url params read expected ↔
      (∀ header ∈ params.passHeaders, encode header.1 = header.1 ∧ header.2 ≠ []) ∧
        read (valueQuery values params.passHeaders) = .ok expected := by
  have hrequest : requestUri proxyBase url = some ⟨path, valueQuery values params.passHeaders⟩ := by
    rw [hurl]
    exact requestUri_eq hpath hnames proxyBase
  have hheaders := (valueFields_carriesHeaders hnames hnodup).headers_iff hweb hnodup
  constructor
  · rintro ⟨uri, huri, -, hread, -, hexpected⟩
    obtain rfl := Option.some.inj (huri.symm.trans hrequest)
    exact ⟨hheaders.mp hread, hexpected⟩
  · rintro ⟨hplain, hexpected⟩
    exact ⟨_, hrequest, call_valueQuery hpath hnames hweb hnodup hpassword htoken,
      hheaders.mpr hplain, formValue_valueQuery hnames hnodup hweb hpassword, hexpected⟩

/-! ### What the handlers read of it -/

theorem nonemptyValue_eq_self_iff {value : Option Str} :
    nonemptyValue value = value ↔ value ≠ some [] := by
  unfold nonemptyValue
  cases value with
  | none => simp
  | some v =>
    by_cases h : v = []
    · simp [h]
    · simp [h]

theorem queryFlag_ite (flag : Bool) :
    queryFlag (if flag then some "true".toList else none) = flag := by
  cases flag with
  | true => rfl
  | false => rfl

theorem queryFlag_some_ite (flag : Bool) :
    queryFlag (some (if flag then "true".toList else "false".toList)) = flag := by
  cases flag with
  | true => rfl
  | false => rfl

section Handlers

variable {web : WebCrates} (hweb : web.CodesUrls) {params : MpdProxyParams}
  (hnodup : (params.passHeaders.map Prod.fst).Nodup)

include hweb hnodup

theorem readSegmentQuery_eq (initUrl segmentUrl mimeType : Str) (isLive useMap : Bool)
    (initRange segmentRange : Option Str) :
    readSegmentQuery web (valueQuery (segmentValues initUrl segmentUrl mimeType isLive useMap initRange
        segmentRange params) params.passHeaders) =
      .ok { initUrl, segmentUrl, mimeType, useMap, isLive
            segmentRange := nonemptyValue segmentRange
            initRange
            keyId := nonemptyValue params.keyId
            key := nonemptyValue params.key } := by
  have hread : ∀ (n : ℕ) {name value}, (segmentValues initUrl segmentUrl mimeType isLive useMap
      initRange segmentRange params)[n]? = some (name, value) → formValue web (valueQuery
        (segmentValues initUrl segmentUrl mimeType isLive useMap initRange segmentRange params)
        params.passHeaders) name = value := fun _ _ _ h =>
    formValue_valueQuery (segmentValues_plain ..) hnodup hweb (List.mem_of_getElem? h)
  -- the places of the values in `segmentValues`
  have hinit := @hread 0 "init_url".toList (some initUrl) rfl
  have hsegment := @hread 1 "segment_url".toList (some segmentUrl) rfl
  have hmime := @hread 2 "mime_type".toList (some mimeType) rfl
  have hlive := @hread 3 "is_live".toList (some (if isLive then "true".toList else "false".toList)) rfl
  have hmap := @hread 5 "use_map".toList (if useMap then some "true".toList else none) rfl
  have hinitRange := @hread 6 "init_range".toList initRange rfl
  have hsegmentRange := @hread 7 "segment_range".toList segmentRange rfl
  have hkeyId := @hread 8 "key_id".toList params.keyId rfl
  have hkey := @hread 9 "key".toList params.key rfl
  unfold readSegmentQuery requiredValue
  rw [hinit, hsegment, hmime, hlive, hmap, hinitRange, hsegmentRange, hkeyId, hkey, queryFlag_ite,
    queryFlag_some_ite]
  rfl

theorem readInitQuery_eq (initUrl mimeType : Str) (initRange : Option Str) :
    readInitQuery web (valueQuery (initValues initUrl mimeType initRange params) params.passHeaders) =
      .ok { initUrl, mimeType, initRange
            keyId := nonemptyValue params.keyId
            key := nonemptyValue params.key } := by
  have hread : ∀ (n : ℕ) {name value},
      (initValues initUrl mimeType initRange params)[n]? = some (name, value) →
      formValue web (valueQuery (initValues initUrl mimeType initRange params) params.passHeaders) name
        = value := fun _ _ _ h =>
    formValue_valueQuery (initValues_plain ..) hnodup hweb (List.mem_of_getElem? h)
  have hinit := @hread 0 "init_url".toList (some initUrl) rfl
  have hmime := @hread 1 "mime_type".toList (some mimeType) rfl
  have hinitRange := @hread 3 "init_range".toList initRange rfl
  have hkeyId := @hread 4 "key_id".toList params.keyId rfl
  have hkey := @hread 5 "key".toList params.key rfl
  unfold readInitQuery requiredValue
  rw [hinit, hmime, hinitRange, hkeyId, hkey]
  rfl

end Handlers

/-! ### The main result -/

theorem handledPath_segment (params : MpdProxyParams) : HandledPath ("/proxy/mpd/segment.".toList ++
    if params.remuxToTs then "ts".toList else "mp4".toList) := by
  cases params.remuxToTs with
  | true => exact ⟨by decide, by decide, by decide, by decide, by decide +kernel⟩
  | false => exact ⟨by decide, by decide, by decide, by decide, by decide +kernel⟩

theorem handledPath_init : HandledPath "/proxy/mpd/init".toList :=
  ⟨by decide, by decide, by decide, by decide, by decide +kernel⟩

section MainResult

variable {web : WebCrates} (hweb : web.CodesUrls) {params : MpdProxyParams}
  (hnodup : (params.passHeaders.map Prod.fst).Nodup) (proxyBase initUrl mimeType : Str)
  (initRange : Option Str)

include hweb hnodup

theorem segmentUrlCarries_iff (segmentUrl : Str) (isLive useMap : Bool)
    (segInitRange segmentRange : Option Str) :
    SegmentUrlCarries web proxyBase initUrl segmentUrl mimeType isLive useMap initRange segInitRange
      segmentRange params ↔ PlainParams params ∧ segmentRange ≠ some [] := by
  have hurl := buildSegmentUrl_eq proxyBase initUrl segmentUrl mimeType isLive useMap initRange
    segInitRange segmentRange params
  unfold SegmentUrlCarries
  rw [hweb.urlencode, carries_iff hweb hnodup (handledPath_segment params) (segmentValues_plain ..)
    (List.mem_of_getElem? (i := 4) rfl) (by simp [segmentValues]) hurl, readSegmentQuery_eq hweb hnodup,
    Except.ok.injEq, SegmentQuery.mk.injEq]
  simp only [nonemptyValue_eq_self_iff, true_and]
  constructor
  · rintro ⟨hheaders, hrange, hkeyId, hkey⟩
    exact ⟨⟨hheaders, hkeyId, hkey⟩, hrange⟩
  · rintro ⟨⟨hheaders, hkeyId, hkey⟩, hrange⟩
    exact ⟨hheaders, hrange, hkeyId, hkey⟩

theorem initUrlCarries_iff :
    InitUrlCarries web proxyBase initUrl mimeType initRange params ↔ PlainParams params := by
  have hurl := buildInitUrl_eq proxyBase initUrl mimeType initRange params
  unfold InitUrlCarries
  rw [hweb.urlencode, carries_iff hweb hnodup handledPath_init (initValues_plain ..)
    (List.mem_of_getElem? (i := 2) rfl) (by simp [initValues]) hurl, readInitQuery_eq hweb hnodup,
    Except.ok.injEq, InitQuery.mk.injEq]
  simp only [nonemptyValue_eq_self_iff, true_and]
  constructor
  · rintro ⟨hheaders, hkeyId, hkey⟩
    exact ⟨hheaders, hkeyId, hkey⟩
  · rintro ⟨hheaders, hkeyId, hkey⟩
    exact ⟨hheaders, hkeyId, hkey⟩

/-- The URLs of segments and init segments bring everything back exactly if the parameters
are plain, for a segment with a range that is not empty if there is one. -/
theorem urlsCarry_iff (segmentUrl : Str) (isLive useMap : Bool)
    (segInitRange segmentRange : Option Str) :
    (SegmentUrlCarries web proxyBase initUrl segmentUrl mimeType isLive useMap initRange segInitRange
        segmentRange params ↔ PlainParams params ∧ segmentRange ≠ some []) ∧
      (InitUrlCarries web proxyBase initUrl mimeType initRange params ↔ PlainParams params) :=
  ⟨segmentUrlCarries_iff hweb hnodup proxyBase initUrl mimeType initRange segmentUrl isLive useMap
    segInitRange segmentRange, initUrlCarries_iff hweb hnodup proxyBase initUrl mimeType initRange⟩

end MainResult

/-- A key, and a header whose name is given. -/
def paramsWithHeader (name : Str) : MpdProxyParams where
  apiPassword := "pw".toList
  passHeaders := [(name, "a b".toList)]
  keyId := some "01".toList
  key := some "23".toList
  remuxToTs := false

theorem paramsWithHeader_nodup (name : Str) :
    ((paramsWithHeader name).passHeaders.map Prod.fst).Nodup := List.nodup_singleton name

/-- A user agent comes through, with everything else. -/
theorem userAgent_carries :
    SegmentUrlCarries standardWeb "http://p".toList "http://h/i.mp4".toList "http://h/1.m4s".toList
      "video/mp4".toList true true (some "0-9".toList) none none (paramsWithHeader "user-agent".toList) ∧
    InitUrlCarries standardWeb "http://p".toList "http://h/i.mp4".toList "video/mp4".toList
      (some "0-9".toList) (paramsWithHeader "user-agent".toList) := by
  have hplain : PlainParams (paramsWithHeader "user-agent".toList) :=
    ⟨by decide +kernel, by decide, by decide⟩
  obtain ⟨hsegment, hinit⟩ := urlsCarry_iff standardWeb_codesUrls
    (paramsWithHeader_nodup "user-agent".toList) "http://p".toList "http://h/i.mp4".toList "video/mp4".toList (some "0-9".toList)
    "http://h/1.m4s".toList true true none none
  exact ⟨hsegment.mpr ⟨hplain, nofun⟩, hinit.mpr hplain⟩

/-- The name of a header that has to be encoded is read as it was encoded. -/
theorem star_not_carries :
    ¬ SegmentUrlCarries standardWeb "http://p".toList "http://h/i.mp4".toList "http://h/1.m4s".toList
      "video/mp4".toList true true (some "0-9".toList) none none (paramsWithHeader "x-id*".toList) := by
  intro h
  have hplain := ((segmentUrlCarries_iff standardWeb_codesUrls (paramsWithHeader_nodup _) ..).mp h).1
  exact absurd (hplain.headers _ List.mem_cons_self).1 (by decide +kernel)

end MediaFlow
