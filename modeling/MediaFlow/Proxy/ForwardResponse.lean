import Mathlib.Logic.Function.Basic
import MediaFlow.Proxy.GenerateUrl

/-!
# Forwarded responses

`proxy_forward` of `proxy/handler.rs` sends a request on, and returns the response with its headers
but for the hop-by-hop ones, and with those that the caller overrides. A response may have several
values of a header. They are copied one by one, with an `insert_header` that replaces the values
before.

`forwardsHeaders_iff`: the headers arrive exactly if each has a single value.
-/

open ByteString Text Json

namespace MediaFlow

/-! ### Headers that are inserted -/

section Fields

variable {Name Value : Type} [DecidableEq Name]

/-- The values of a header, in their order. -/
def valuesOf (lines : List (Name × Value)) (name : Name) : List Value :=
  (lines.filter (·.1 = name)).map Prod.snd

/-- A header with one value, in place of those before. -/
def insertField (fields : Name → List Value) (line : Name × Value) : Name → List Value :=
  Function.update fields line.1 [line.2]

theorem valuesOf_append (lines lines' : List (Name × Value)) (name : Name) :
    valuesOf (lines ++ lines') name = valuesOf lines name ++ valuesOf lines' name := by
  unfold valuesOf
  rw [List.filter_append, List.map_append]

theorem mem_valuesOf {lines : List (Name × Value)} {name : Name} {value : Value} :
    value ∈ valuesOf lines name ↔ (name, value) ∈ lines := by
  unfold valuesOf
  constructor
  · intro h
    obtain ⟨⟨name', value'⟩, hmem, rfl⟩ := List.mem_map.mp h
    obtain ⟨hmem, hname⟩ := List.mem_filter.mp hmem
    exact of_decide_eq_true hname ▸ hmem
  · intro h
    exact List.mem_map.mpr ⟨(name, value), List.mem_filter.mpr ⟨h, decide_eq_true rfl⟩, rfl⟩

/-- **Only the last value** of a header is left. -/
theorem foldl_insertField (fields : Name → List Value) (lines : List (Name × Value)) (name : Name) :
    lines.foldl insertField fields name
      = ((valuesOf lines name).getLast?.map fun value => [value]).getD (fields name) := by
  induction lines using List.reverseRecOn with
  | nil => rfl
  | append_singleton lines line ih =>
    rw [List.foldl_concat, insertField, valuesOf_append]
    by_cases hname : line.1 = name
    · have hvalues : valuesOf [line] name = [line.2] := by
        unfold valuesOf
        rw [List.filter_cons_of_pos (by simpa using hname)]
        rfl
      rw [hvalues, List.getLast?_concat, ← hname, Function.update_self]
      rfl
    · have hvalues : valuesOf [line] name = [] := by
        unfold valuesOf
        rw [List.filter_cons_of_neg (by simpa using hname)]
        rfl
      rw [hvalues, List.append_nil, Function.update_of_ne (Ne.symm hname), ih]

/-- What is left are all values exactly if there is no more than one. -/
theorem perm_getLast?_iff {values : List Value} :
    ((values.getLast?.map fun value => [value]).getD []).Perm values ↔ values.length ≤ 1 := by
  obtain rfl | ⟨rest, value, rfl⟩ := List.eq_nil_or_concat' values
  · exact iff_of_true (List.Perm.refl _) (Nat.zero_le 1)
  · rw [List.getLast?_concat, List.length_append, List.length_singleton]
    change [value].Perm _ ↔ _
    constructor
    · intro h
      have hlength := h.length_eq
      rw [List.length_append, List.length_singleton] at hlength
      exact hlength.ge
    · intro h
      obtain rfl : rest = [] := List.eq_nil_of_length_eq_zero (by omega)
      exact List.Perm.refl _

end Fields

/-! ### Forwarding -/

/-- What the crates for HTTP do. A name is its text in lower case. -/
structure HttpCrates where
  /-- `HeaderName::from_str`. -/
  headerName : Str → Option Str
  /-- `HeaderValue::from_str`. -/
  valueFromStr : Str → Option Bytes
  /-- `HeaderValue::from_bytes`. -/
  valueFromBytes : Bytes → Option Bytes
  /-- `str::to_lowercase`. -/
  toLowercase : Str → Str
  /-- `Method::from_bytes`. -/
  method : Str → Option Str

def ipDisclosureHeaders : List Str :=
  ["x-forwarded-for".toList, "x-real-ip".toList, "x-client-ip".toList, "true-client-ip".toList,
    "forwarded".toList, "cf-connecting-ip".toList, "x-original-forwarded-for".toList,
    "x-cluster-client-ip".toList]

def hopByHopHeaders : List Str :=
  ["connection".toList, "keep-alive".toList, "proxy-authenticate".toList,
    "proxy-authorization".toList,
    "te".toList, "trailers".toList, "transfer-encoding".toList, "upgrade".toList]

def blockedRequestHeaders : List Str :=
  ["host".toList, "content-length".toList, "transfer-encoding".toList, "content-encoding".toList]

/-- A response from upstream, with its headers in the order in which they are walked. Their names
and values are valid ones, so they can be read again. -/
structure UpstreamResponse (http : HttpCrates) where
  status : ℕ
  headers : List (Str × Bytes)
  names : ∀ line ∈ headers, http.headerName line.1 = some line.1 ∧ http.toLowercase line.1 = line.1
  values : ∀ line ∈ headers, http.valueFromBytes line.2 = some line.2

/-- The part of a header that is not valid. -/
inductive InvalidHeaderPart
  | name
  | value
deriving DecidableEq

structure ForwardedResponse where
  status : ℕ
  headers : Str → List Bytes
  body : Bytes

section Response

variable (http : HttpCrates)

/-- `HttpResponseBuilder::insert_header`. After a header that is not valid, the builder has an error
and takes no more. -/
def builderInsert (builder : Except InvalidHeaderPart (Str → List Bytes)) (name : Option Str)
    (value : Option Bytes) : Except InvalidHeaderPart (Str → List Bytes) :=
  match builder with
  | .error e => .error e
  | .ok fields =>
    match name, value with
    | none, _ => .error .name
    | some _, none => .error .value
    | some name, some value => .ok (insertField fields (name, value))

/-- A header from upstream. -/
def copyHeader (builder : Except InvalidHeaderPart (Str → List Bytes)) (line : Str × Bytes) :
    Except InvalidHeaderPart (Str → List Bytes) :=
  if http.toLowercase line.1 ∈ hopByHopHeaders then builder
  else
    match http.valueFromBytes line.2 with
    | some converted => builderInsert builder (http.headerName line.1) (some converted)
    | none => builder

/-- A header that the caller overrides. -/
def overrideHeader (builder : Except InvalidHeaderPart (Str → List Bytes)) (line : Str × Str) :
    Except InvalidHeaderPart (Str → List Bytes) :=
  builderInsert builder (http.headerName line.1) (http.valueFromStr line.2)

/-- The response that is built; with an error, it is another one that tells of it. -/
def forwardResponse (upstream : UpstreamResponse http) (respBytes : Bytes)
    (responseHeaders : Option Value) : Except InvalidHeaderPart ForwardedResponse :=
  let copied := upstream.headers.foldl (copyHeader http) (.ok fun _ => [])
  let overridden := (stringMembers responseHeaders).foldl (overrideHeader http) copied
  let status := if 100 ≤ upstream.status ∧ upstream.status < 1000 then upstream.status else 500
  overridden.map fun headers => { status, headers, body := respBytes }

end Response

/-- `ForwardConfig`, without the time in which the body has to arrive. -/
structure ForwardSettings extends ForwardConfig where
  publicIp : Option Str
  maxRequestBodyBytes : ℕ
  maxResponseBodyBytes : ℕ

structure ForwardRequest where
  method : Str
  url : Str
  headers : Str → List Bytes
  body : Bytes

/-- What comes of reading a body. -/
inductive BodyRead
  | read (bytes : Bytes)
  | timedOut
  | failed (error : Str)

inductive ForwardError
  | app (e : AppError)
  | proxy (msg : Str)

/-- What other code does for `proxy_forward`. -/
structure ForwardServices where
  guard : ForwardCrates
  mint : MintCrates
  http : HttpCrates
  /-- `StreamManager::forward_request`. -/
  forwardRequest : ForwardRequest → Except ForwardError (UpstreamResponse http × BodyRead)

/-- The loop over the bytes of a body. -/
def replaceBytes (needle replacement : Bytes) : ℕ → Bytes → Bytes
  | _, [] => []
  | skip + 1, _ :: rest => replaceBytes needle replacement skip rest
  | 0, b :: rest =>
    if needle.isPrefixOf (b :: rest) then
      replacement ++ replaceBytes needle replacement (needle.length - 1) rest
    else b :: replaceBytes needle replacement 0 rest

def ipPlaceholder : Str := "{mediaflow_ip}".toList

/-- The destination and the body, with the address of the proxy in place of its placeholder. The
code looks for the placeholder first; where there is none, nothing is replaced here either. -/
def substituteIp (publicIp : Option Str) (destination : Str) (body : Bytes) : Str × Bytes :=
  match publicIp with
  | none => (destination, body)
  | some ip =>
    (replace ipPlaceholder ip destination,
      replaceBytes (UrlCoding.utf8 ipPlaceholder) (UrlCoding.utf8 ip) 0 body)

section Forward

variable (services : ForwardServices)

/-- The headers of the request, without those that tell of the caller, or are not to be set. -/
def forwardRequestHeaders (requestHeaders : Option Value) : Str → List Bytes :=
  (stringMembers requestHeaders).foldl (fun fields line =>
    let keyLower := services.http.toLowercase line.1
    if keyLower ∈ ipDisclosureHeaders ∨ keyLower ∈ hopByHopHeaders ∨
        keyLower ∈ blockedRequestHeaders then
      fields
    else
      match services.http.headerName line.1, services.http.valueFromStr line.2 with
      | some name, some value => insertField fields (name, value)
      | _, _ => fields) fun _ => []

/-- The response, once the body is read. -/
def receiveResponse (http : HttpCrates) (cfg : ForwardSettings) (responseHeaders : Option Value)
    (upstream : UpstreamResponse http) :
    BodyRead → Except ForwardError (Except InvalidHeaderPart ForwardedResponse)
  | .timedOut => .error (.proxy "Upstream response body timed out".toList)
  | .failed e => .error (.proxy ("Failed to read upstream body: ".toList ++ e))
  | .read respBytes =>
    if respBytes.length > cfg.maxResponseBodyBytes then
      .error (.proxy "Upstream response too large".toList)
    else .ok (forwardResponse http upstream respBytes responseHeaders)

/-- `proxy_forward`. -/
def proxyForward (proxyData : ProxyData) (cfg : ForwardSettings) (method : Str) (body : Bytes) :
    Except ForwardError (Except InvalidHeaderPart ForwardedResponse) :=
  if proxyData.destination = [] then
    .error (.app (.badRequest
      "Missing destination URL. Provide `d=<url>` query param or an encrypted token.".toList))
  else
    let destination :=
      (decodeBase64Url services.mint proxyData.destination).getD proxyData.destination
    match checkForwardDestination services.guard destination cfg.toForwardConfig with
    | .error e => .error (.app e)
    | .ok () =>
      let substituted := substituteIp cfg.publicIp destination body
      if substituted.2.length > cfg.maxRequestBodyBytes then
        .error (.app (.badRequest "Request body too large".toList))
      else
        let request :=
          { method := (services.http.method method).getD "GET".toList
            url := substituted.1
            headers := forwardRequestHeaders services proxyData.requestHeaders
            body := substituted.2 }
        match services.forwardRequest request with
        | .error e => .error e
        | .ok (upstream, bodyRead) =>
          receiveResponse services.http cfg proxyData.responseHeaders upstream bodyRead

/-- **What is returned** is built from the response to a request that passed the guard. -/
theorem exists_of_proxyForward {proxyData : ProxyData} {cfg : ForwardSettings} {method : Str}
    {body : Bytes}
    {answer : Except InvalidHeaderPart ForwardedResponse}
    (h : proxyForward services proxyData cfg method body = .ok answer) :
    checkForwardDestination services.guard
        ((decodeBase64Url services.mint proxyData.destination).getD proxyData.destination)
        cfg.toForwardConfig = .ok () ∧
      ∃ request upstream respBytes,
        services.forwardRequest request = .ok (upstream, .read respBytes) ∧
        answer = forwardResponse services.http upstream respBytes proxyData.responseHeaders := by
  unfold proxyForward at h
  split at h
  · cases h
  · dsimp only at h
    split at h
    · cases h
    · next hcheck =>
      split at h
      · cases h
      · split at h
        · cases h
        · next upstream bodyRead hrequest =>
          unfold receiveResponse at h
          cases bodyRead with
          | timedOut => cases h
          | failed e => cases h
          | read respBytes =>
            dsimp only at h
            split at h
            · cases h
            · exact ⟨hcheck, _, upstream, respBytes, hrequest, (Except.ok.inj h).symm⟩

end Forward

/-! ### The headers of the response -/

section Headers

variable {http : HttpCrates}

/-- A header that the caller overrides. -/
def Overridden (http : HttpCrates) (overrides : List (Str × Str)) (name : Str) : Prop :=
  ∃ line ∈ overrides, http.headerName line.1 = some name

/-- **The headers arrive**: all values of those that are neither hop-by-hop nor overridden, and for
the overridden ones the value of the caller. -/
structure ForwardsHeaders (upstream : UpstreamResponse http) (overrides : List (Str × Str))
    (response : ForwardedResponse) : Prop where
  forwarded : ∀ name, name ∉ hopByHopHeaders → ¬ Overridden http overrides name →
    (response.headers name).Perm (valuesOf upstream.headers name)
  overridden : ∀ line ∈ overrides, ∃ name ∈ http.headerName line.1,
    ∃ value ∈ http.valueFromStr line.2,
    response.headers name = [value]

/-- **The condition**: the overrides are valid, and agree where they are for the same header, and
other headers have one value at most. -/
structure SingleValued (upstream : UpstreamResponse http)
    (overrides : List (Str × Str)) : Prop where
  valid : ∀ line ∈ overrides, (http.headerName line.1).isSome ∧ (http.valueFromStr line.2).isSome
  agree : ∀ line ∈ overrides, ∀ line' ∈ overrides,
    http.headerName line.1 = http.headerName line'.1 →
    http.valueFromStr line.2 = http.valueFromStr line'.2
  single : ∀ name, name ∉ hopByHopHeaders → ¬ Overridden http overrides name →
    (valuesOf upstream.headers name).length ≤ 1

/-- The headers that are copied. -/
def copiedLines (upstream : UpstreamResponse http) : List (Str × Bytes) :=
  upstream.headers.filter (·.1 ∉ hopByHopHeaders)

/-- The overrides that are valid. -/
def overrideLines (http : HttpCrates) (overrides : List (Str × Str)) : List (Str × Bytes) :=
  overrides.filterMap fun line =>
    (http.headerName line.1).bind fun name =>
      (http.valueFromStr line.2).map fun value => (name, value)

theorem foldl_copyHeader (upstream : UpstreamResponse http) (fields : Str → List Bytes) :
    upstream.headers.foldl (copyHeader http) (.ok fields)
      = .ok ((copiedLines upstream).foldl insertField fields) := by
  have hfold : ∀ lines : List (Str × Bytes), (∀ line ∈ lines, line ∈ upstream.headers) → ∀ fields,
      lines.foldl (copyHeader http) (.ok fields)
        = .ok ((lines.filter (·.1 ∉ hopByHopHeaders)).foldl insertField fields) := by
    intro lines
    induction lines with
    | nil => exact fun _ _ => rfl
    | cons line lines ih =>
      intro hlines fields
      obtain ⟨hline, hrest⟩ := List.forall_mem_cons.mp hlines
      obtain ⟨hname, hlower⟩ := upstream.names line hline
      rw [List.foldl_cons, copyHeader, hlower, upstream.values line hline, hname]
      by_cases hhop : line.1 ∈ hopByHopHeaders
      · rw [if_pos hhop, List.filter_cons_of_neg (by simpa using hhop), ih hrest]
      · rw [if_neg hhop, List.filter_cons_of_pos (by simpa using hhop), List.foldl_cons]
        exact ih hrest _
  exact hfold _ (fun _ h => h) fields

/-- Overrides that are all valid are inserted. -/
theorem foldl_overrideHeader {overrides : List (Str × Str)}
    (h : ∀ line ∈ overrides, (http.headerName line.1).isSome ∧ (http.valueFromStr line.2).isSome)
    (fields : Str → List Bytes) :
    overrides.foldl (overrideHeader http) (.ok fields)
      = .ok ((overrideLines http overrides).foldl insertField fields) := by
  induction overrides generalizing fields with
  | nil => rfl
  | cons line overrides ih =>
    obtain ⟨⟨hname, hvalue⟩, hrest⟩ := List.forall_mem_cons.mp h
    obtain ⟨name, hname⟩ := Option.isSome_iff_exists.mp hname
    obtain ⟨value, hvalue⟩ := Option.isSome_iff_exists.mp hvalue
    unfold overrideLines
    rw [List.foldl_cons, overrideHeader, hname, hvalue]
    simp only [builderInsert, List.filterMap_cons, hname, hvalue, Option.bind_some, Option.map_some,
      List.foldl_cons]
    exact ih hrest _

/-- One that is not valid leaves an error. -/
theorem valid_of_foldl_overrideHeader {overrides : List (Str × Str)}
    {builder : Except InvalidHeaderPart (Str → List Bytes)} {fields : Str → List Bytes}
    (h : overrides.foldl (overrideHeader http) builder = .ok fields) :
    (∃ fields', builder = .ok fields') ∧
      ∀ line ∈ overrides, (http.headerName line.1).isSome ∧ (http.valueFromStr line.2).isSome := by
  induction overrides generalizing builder with
  | nil => exact ⟨⟨fields, h⟩, fun _ hline => absurd hline List.not_mem_nil⟩
  | cons line overrides ih =>
    obtain ⟨⟨fields', hfields⟩, hrest⟩ := ih h
    unfold overrideHeader builderInsert at hfields
    cases builder with
    | error e => cases hfields
    | ok before =>
      cases hname : http.headerName line.1 with
      | none =>
        rw [hname] at hfields
        cases hfields
      | some name =>
        cases hvalue : http.valueFromStr line.2 with
        | none =>
          rw [hname, hvalue] at hfields
          cases hfields
        | some value =>
          -- only a valid name with a valid value leaves the builder without an error
          refine ⟨⟨before, rfl⟩, List.forall_mem_cons.mpr ⟨?_, hrest⟩⟩
          rw [hname, hvalue]
          exact ⟨rfl, rfl⟩

/-! ### Which headers arrive -/

/-- The headers that are built, with the values of each. -/
def builtFields (upstream : UpstreamResponse http) (overrides : List (Str × Str)) :
    Str → List Bytes :=
  (overrideLines http overrides).foldl insertField
    ((copiedLines upstream).foldl insertField fun _ => [])

/-- The response is built exactly if all overrides are valid. -/
theorem forwardResponse_eq_ok_iff {upstream : UpstreamResponse http} {respBytes : Bytes}
    {responseHeaders : Option Value} {response : ForwardedResponse} :
    forwardResponse http upstream respBytes responseHeaders = .ok response ↔
      (∀ line ∈ stringMembers responseHeaders,
        (http.headerName line.1).isSome ∧ (http.valueFromStr line.2).isSome) ∧
      response =
        { status := if 100 ≤ upstream.status ∧ upstream.status < 1000 then upstream.status else 500
          headers := builtFields upstream (stringMembers responseHeaders)
          body := respBytes } := by
  unfold forwardResponse
  simp only [foldl_copyHeader]
  constructor
  · intro h
    cases hfold : (stringMembers responseHeaders).foldl (overrideHeader http)
        (.ok ((copiedLines upstream).foldl insertField fun _ => [])) with
    | error e =>
      rw [hfold] at h
      cases h
    | ok fields =>
      have hvalid := (valid_of_foldl_overrideHeader hfold).2
      rw [foldl_overrideHeader hvalid] at h
      exact ⟨hvalid, (Except.ok.inj h).symm⟩
  · rintro ⟨hvalid, rfl⟩
    rw [foldl_overrideHeader hvalid]
    rfl

theorem mem_overrideLines {overrides : List (Str × Str)} {name : Str} {value : Bytes} :
    (name, value) ∈ overrideLines http overrides ↔
      ∃ line ∈ overrides,
        http.headerName line.1 = some name ∧ http.valueFromStr line.2 = some value := by
  unfold overrideLines
  rw [List.mem_filterMap]
  refine exists_congr fun line => and_congr_right fun _ => ?_
  simp only [Option.bind_eq_some_iff, Option.map_eq_some_iff, Prod.mk.injEq]
  constructor
  · rintro ⟨name', hname, value', hvalue, rfl, rfl⟩
    exact ⟨hname, hvalue⟩
  · rintro ⟨hname, hvalue⟩
    exact ⟨name, hname, value, hvalue, rfl, rfl⟩

/-- A header that is not overridden has its last value. -/
theorem builtFields_of_not_overridden {upstream : UpstreamResponse http}
    {overrides : List (Str × Str)}
    {name : Str} (hhop : name ∉ hopByHopHeaders) (hover : ¬ Overridden http overrides name) :
    builtFields upstream overrides name
      = ((valuesOf upstream.headers name).getLast?.map fun value => [value]).getD [] := by
  have hnone : valuesOf (overrideLines http overrides) name = [] := by
    rw [List.eq_nil_iff_forall_not_mem]
    intro value hvalue
    obtain ⟨line, hline, hname, -⟩ := mem_overrideLines.mp (mem_valuesOf.mp hvalue)
    exact hover ⟨line, hline, hname⟩
  have hcopied : valuesOf (copiedLines upstream) name = valuesOf upstream.headers name := by
    unfold valuesOf copiedLines
    rw [List.filter_filter]
    congr 1
    refine List.filter_congr fun line _ => ?_
    by_cases hname : line.1 = name
    · simp [hname, hhop]
    · simp [hname]
  unfold builtFields
  rw [foldl_insertField, foldl_insertField, hnone, hcopied]
  rfl

/-- An overridden one has the value of one of its overrides. -/
theorem exists_builtFields_of_override {upstream : UpstreamResponse http}
    {overrides : List (Str × Str)}
    {line : Str × Str} (hline : line ∈ overrides) {name : Str}
    (hname : http.headerName line.1 = some name)
    (hvalue : (http.valueFromStr line.2).isSome) :
    ∃ line' ∈ overrides, http.headerName line'.1 = some name ∧
      ∃ value ∈ http.valueFromStr line'.2, builtFields upstream overrides name = [value] := by
  obtain ⟨value, hvalue⟩ := Option.isSome_iff_exists.mp hvalue
  have hmem : value ∈ valuesOf (overrideLines http overrides) name :=
    mem_valuesOf.mpr (mem_overrideLines.mpr ⟨line, hline, hname, hvalue⟩)
  have hlast := List.getLast?_eq_some_getLast (List.ne_nil_of_mem hmem)
  obtain ⟨line', hline', hname', hvalue'⟩ :=
    mem_overrideLines.mp (mem_valuesOf.mp (List.mem_of_getLast? hlast))
  refine ⟨line', hline', hname', _, hvalue', ?_⟩
  unfold builtFields
  rw [foldl_insertField, hlast]
  rfl

/-- **The headers of a forwarded response arrive** exactly if the overrides are valid and agree, and
each other header has a single value. -/
theorem forwardsHeaders_iff (upstream : UpstreamResponse http) (respBytes : Bytes)
    (responseHeaders : Option Value) :
    (∃ response, forwardResponse http upstream respBytes responseHeaders = .ok response ∧
        ForwardsHeaders upstream (stringMembers responseHeaders) response) ↔
      SingleValued upstream (stringMembers responseHeaders) := by
  constructor
  · rintro ⟨response, hbuilt, hforwards⟩
    obtain ⟨hvalid, rfl⟩ := forwardResponse_eq_ok_iff.mp hbuilt
    refine ⟨hvalid, fun line hline line' hline' hsame => ?_, fun name hhop hover => ?_⟩
    · obtain ⟨name, hname, value, hvalue, hfields⟩ := hforwards.overridden line hline
      obtain ⟨name', hname', value', hvalue', hfields'⟩ := hforwards.overridden line' hline'
      rw [Option.mem_def] at hname hname' hvalue hvalue'
      obtain rfl : name = name' := Option.some.inj (hname.symm.trans (hsame.trans hname'))
      rw [hvalue, hvalue', List.singleton_inj.mp (hfields.symm.trans hfields')]
    · have hperm : (builtFields upstream _ name).Perm _ := hforwards.forwarded name hhop hover
      -- the last value is all that is left of the values
      rw [builtFields_of_not_overridden hhop hover] at hperm
      exact perm_getLast?_iff.mp hperm
  · intro hsingle
    refine ⟨_, forwardResponse_eq_ok_iff.mpr ⟨hsingle.valid, rfl⟩, fun name hhop hover => ?_,
      fun line hline => ?_⟩
    · change (builtFields upstream _ name).Perm _
      rw [builtFields_of_not_overridden hhop hover]
      exact perm_getLast?_iff.mpr (hsingle.single name hhop hover)
    · obtain ⟨hname, hvalue⟩ := hsingle.valid line hline
      obtain ⟨name, hname⟩ := Option.isSome_iff_exists.mp hname
      obtain ⟨line', hline', hname', value, hvalue', hfields⟩ :=
        @exists_builtFields_of_override http upstream _ _ hline name hname hvalue
      refine ⟨name, hname, value, ?_, hfields⟩
      rwa [Option.mem_def, hsingle.agree line hline line' hline' (hname.trans hname'.symm)]

end Headers

/-! ### Two cookies -/

/-- Visible ASCII headers, with names in lower case. -/
def asciiHttp : HttpCrates where
  headerName := fun s =>
    if s ≠ [] ∧ s.all fun c => c.isAlphanum ∨ c = '-' then some (s.map Char.toLower) else none
  valueFromStr := fun s =>
    if s.all fun c => 32 ≤ c.toNat ∧ c.toNat < 127 then some (UrlCoding.utf8 s) else none
  valueFromBytes := fun bytes => if bytes.all fun b => 32 ≤ b ∧ b ≠ 127 then some bytes else none
  toLowercase := fun s => s.map Char.toLower
  method := some

/-- A response that sets two cookies. -/
def cookieResponse : UpstreamResponse asciiHttp where
  status := 200
  headers := [("set-cookie".toList, UrlCoding.utf8 "a=1".toList),
    ("set-cookie".toList, UrlCoding.utf8 "b=2".toList)]
  names := by
    rw [List.forall_mem_cons, List.forall_mem_singleton]
    decide
  values := by
    rw [List.forall_mem_cons, List.forall_mem_singleton]
    decide

/-- Only one of them is returned. -/
theorem not_forwardsHeaders_cookies :
    ¬ ∃ response, forwardResponse asciiHttp cookieResponse [] none = .ok response ∧
      ForwardsHeaders cookieResponse (stringMembers none) response := by
  rw [forwardsHeaders_iff]
  intro hsingle
  have hcookies := hsingle.single "set-cookie".toList (by decide)
    (by rintro ⟨line, hline, -⟩; cases hline)
  revert hcookies
  decide

end MediaFlow
