import MediaFlow.Lib.Digits
import MediaFlow.Xtream.Auth

/-!
# Round trips of user name tokens

`encode_username_token` joins the URL of the upstream, the user name and the password with colons,
and the parser takes the text apart by their number. A port is told from a user name by its digits,
and only where there are three parts.

* `tryParse_token`: the parser reads the text of the token.
* `tokenRoundTrips_iff_of_read`: what has to be compared, once the parts are read.
* `tokenRoundTrips_iff`: which tokens come back.
-/

open ByteString Text UrlCoding

namespace MediaFlow

/-! ### Tokens -/

/-- A base URL `scheme://host[:port][/path]` without further colons. -/
structure UpstreamUrl where
  scheme : Str
  host : Str
  port : Option Numeral
  path : Str
  scheme_colon : ':' ∉ scheme
  host_colon : ':' ∉ host
  host_ne : host ≠ []
  host_slash : '/' ∉ host
  path_colon : ':' ∉ path
  path_slash : path ≠ [] → path.head? = some '/'

namespace UpstreamUrl

variable (u : UpstreamUrl)

/-- The port, with its colon. -/
def portText : Str :=
  match u.port with
  | some port => ':' :: port.text
  | none => []

def text : Str := u.scheme ++ ("://".toList ++ (u.host ++ (u.portText ++ u.path)))

end UpstreamUrl

/-- What a token is made of. -/
structure TokenParts where
  upstream : UpstreamUrl
  username : Str
  password : Option Str
  username_ne : username ≠ []
  username_colon : ':' ∉ username
  password_ne : password ≠ some []

/-- The token gives the parts back, the URL but for slashes at its end; and the check of the
password accepts it for the one that was put in. -/
def TokenRoundTrips (t : TokenParts) : Prop :=
  ∃ creds, parseUsernameWithUpstream standardBase64
      (encodeUsernameToken standardBase64 t.upstream.text t.username t.password) = .ok creds ∧
    creds.upstreamBase.rdropWhile (· = '/') = t.upstream.text.rdropWhile (· = '/') ∧
    creds.actualUsername = t.username ∧ creds.apiPassword = t.password ∧
    ∀ configured ≠ [],
      verifyXcApiPassword creds.apiPassword configured = .ok () ↔ t.password = some configured

/-- The parts can be told apart. -/
def TokenParts.Unambiguous (t : TokenParts) : Prop :=
  match t.upstream.port, t.password with
  | none, none => True
  -- the user name does not look like a port, and there is no fourth part
  | none, some password =>
    ':' ∉ password ∧ ¬ (t.username.all Char.isDigit ∧ (utf8 t.username).length ≤ 5)
  -- the port looks like one
  | some port, none => (∀ c ∈ t.upstream.path, c = '/') ∧ port.text.length ≤ 5
  | some _, some _ => True

/-! ### Texts and bytes -/

theorem paddedStandard_encodeUrlSafe (bytes : Bytes) :
    paddedStandard (Base64.encodeUrlSafe bytes) = Base64.encode bytes := by
  have hascii : ∀ c ∈ (Base64.encodeUrlSafe bytes).map Base64.toStandard, c.toNat < 128 := by
    intro c hc
    obtain ⟨d, hd, rfl⟩ := List.mem_map.mp hc
    obtain ⟨e, he, rfl⟩ := List.mem_map.mp hd
    obtain ⟨n, hn, rfl⟩ := Base64.mem_encodeWith_nil he
    rw [Base64.toStandard_toUrlSafe hn]
    have hall : ∀ n < 64, (Base64.digit n).toNat < 128 := by decide
    exact hall n hn
  have hpadded : paddedStandard (Base64.encodeUrlSafe bytes)
      = Base64.padded ((Base64.encodeUrlSafe bytes).map Base64.toStandard) := by
    unfold paddedStandard Base64.padded
    dsimp only
    rw [length_utf8_of_ascii hascii]
    split
    · next h => rw [if_pos h]
    · next h => rw [if_neg (by omega), if_pos h]
    · next h₂ h₃ => rw [if_neg h₂, if_neg h₃]
  rw [hpadded, Base64.restandardize_encodeUrlSafe]

/-- The first occurrence of a pattern, behind a text without its first character. -/
theorem find_append_of_not_mem {c : Char} {pat u : Str} (h : c ∉ u) (s : Str) :
    find (c :: pat) (u ++ (c :: pat ++ s)) = some u.length := by
  induction u with
  | nil =>
    rw [List.nil_append, List.cons_append, find, if_pos]
    · rfl
    · exact List.isPrefixOf_iff_prefix.mpr ⟨s, rfl⟩
  | cons d u ih =>
    obtain ⟨hd, hrest⟩ : c ≠ d ∧ c ∉ u := by rwa [List.mem_cons, not_or] at h
    have hnot : ¬ (c :: pat).isPrefixOf (d :: (u ++ (c :: pat ++ s))) = true := fun hprefix =>
      hd (List.cons_prefix_cons.mp (List.isPrefixOf_iff_prefix.mp hprefix)).1
    rw [List.cons_append, find, if_neg hnot, ih hrest]
    rfl

theorem splitOnceAt_append {c : Char} {pat u : Str} (h : c ∉ u) (s : Str) :
    splitOnceAt (c :: pat) (u ++ (c :: pat ++ s)) = some (u, s) := by
  have hdrop : (u ++ (c :: pat ++ s)).drop (u.length + (c :: pat).length) = s := by
    rw [List.drop_length_add_append]
    exact List.drop_left
  rw [splitOnceAt, find_append_of_not_mem h, Option.map_some, List.take_left, hdrop]

theorem splitN_append {a : Str} (h : ':' ∉ a) (n : ℕ) (b : Str) :
    splitN ':' (n + 2) (a ++ ':' :: b) = a :: splitN ':' (n + 1) b := by
  rw [splitN, splitOnce_of_not_mem h]

theorem splitN_of_not_mem {a : Str} (h : ':' ∉ a) (n : ℕ) :
    splitN ':' (n + 1) a = [a] := by
  cases n with
  | zero => rfl
  | succ n =>
    have hnone : splitOnce ':' a = none := by
      cases hsplit : splitOnce ':' a with
      | none => rfl
      | some p =>
        refine absurd ?_ h
        rw [(splitOnce_eq_some_iff.mp hsplit).1]
        exact List.mem_append_right _ List.mem_cons_self
    rw [splitN, hnone]

theorem rdropWhile_append_cons {p : Char → Bool} {c : Char} (h : p c = false) (a t : Str) :
    (a ++ c :: t).rdropWhile p = a ++ c :: t.rdropWhile p := by
  induction t using List.reverseRecOn with
  | nil =>
    rw [List.rdropWhile_concat_neg p a c (by simp [h])]
    rfl
  | append_singleton t d ih =>
    have hassoc : a ++ c :: (t ++ [d]) = (a ++ c :: t) ++ [d] := by simp
    by_cases hd : p d = true
    · rw [hassoc, List.rdropWhile_concat_pos p _ d hd, ih, List.rdropWhile_concat_pos p t d hd]
    · rw [hassoc, List.rdropWhile_concat_neg p _ d hd, List.rdropWhile_concat_neg p t d hd,
        ← hassoc]

/-- Dropping at the end stops at a text without what is dropped. -/
theorem rdropWhile_append {p : Char → Bool} {u : Str} (hne : u ≠ [])
    (h : ∀ c ∈ u, p c = false) (a t : Str) :
    (a ++ (u ++ t)).rdropWhile p = a ++ (u ++ t.rdropWhile p) := by
  obtain rfl | ⟨u, c, rfl⟩ := List.eq_nil_or_concat' u
  · exact absurd rfl hne
  · have hc : p c = false := h c (List.mem_append_right _ (List.mem_singleton_self c))
    have hassoc (r : Str) : a ++ (u ++ [c] ++ r) = (a ++ u) ++ c :: r := by simp
    rw [hassoc, hassoc, rdropWhile_append_cons hc]

/-- The slash that is added, and those at the end, are the same to drop. -/
theorem rdropWhile_ensureTrailingSlash (url : Str) :
    (ensureTrailingSlash url).rdropWhile (· = '/') = url.rdropWhile (· = '/') := by
  unfold ensureTrailingSlash
  by_cases h : url.getLast? = some '/'
  · rw [if_pos h]
  · rw [if_neg h]
    exact List.rdropWhile_concat_pos (fun c => decide (c = '/')) url '/' (decide_eq_true rfl)

/-! ### What the parser makes of the parts -/

/-- The part of the parser behind `splitn`. -/
def readParts (proto : Str) (parts : List Str) : Option XcCredentials := do
  let url := fun (host : Str) => proto ++ "://".toList ++ host
  let (upstreamUrl, actualUsername, apiPassword) ←
    match parts with
    | [host, actualUser] => some (url host, actualUser, none)
    | [host, second, third] =>
      if second.all Char.isDigit && (utf8 second).length ≤ 5 then
        some (url (host ++ ':' :: second), third, none)
      else some (url host, second, some third)
    | [host, port, actualUser, apiPwd] =>
      some (url (host ++ ':' :: port), actualUser, some apiPwd)
    | _ => none
  return ⟨ensureTrailingSlash upstreamUrl, actualUsername, apiPassword.filter (· ≠ [])⟩

/-- **The parser reads the text of a token.** -/
theorem tryParse_token {scheme rest : Str} (h : ':' ∉ scheme) :
    tryParseBase64Username standardBase64
        (Base64.encodeUrlSafe (utf8 (scheme ++ ("://".toList ++ rest))))
      = readParts scheme (splitN ':' 4 rest) := by
  have hdecode : standardBase64.standardDecode (paddedStandard
      (Base64.encodeUrlSafe (utf8 (scheme ++ ("://".toList ++ rest)))))
        = some (utf8 (scheme ++ ("://".toList ++ rest))) := by
    rw [paddedStandard_encodeUrlSafe]
    exact Base64.decode_encode _
  have hfound : contains (scheme ++ ("://".toList ++ rest)) "://".toList = true := by
    rw [contains]
    exact congrArg Option.isSome (find_append_of_not_mem h rest)
  have hcolon : contains (scheme ++ ("://".toList ++ rest)) ":".toList = true := by
    have hfind : find [':'] (scheme ++ ([':'] ++ ('/' :: '/' :: rest))) = some scheme.length :=
      find_append_of_not_mem h _
    rw [contains]
    exact congrArg Option.isSome hfind
  have hsplit : splitOnceAt "://".toList (scheme ++ ("://".toList ++ rest)) = some (scheme, rest) :=
    splitOnceAt_append h rest
  unfold tryParseBase64Username
  rw [hdecode]
  simp only [Option.bind_eq_bind, Option.bind_some, fromUtf8_utf8, hfound, hcolon, hsplit]
  rfl

/-- Three parts are read by the look of the second. -/
theorem readParts_three (proto host second third : Str) :
    readParts proto [host, second, third] = some
      (if (second.all Char.isDigit && (utf8 second).length ≤ 5) = true then
        ⟨ensureTrailingSlash (proto ++ "://".toList ++ (host ++ ':' :: second)), third, none⟩
      else
        ⟨ensureTrailingSlash (proto ++ "://".toList ++ host), second,
          (some third).filter (· ≠ [])⟩) := by
  by_cases h : (second.all Char.isDigit && (utf8 second).length ≤ 5) = true
  · rw [if_pos h, readParts, if_pos h]
    rfl
  · rw [if_neg h, readParts, if_neg h]
    rfl

/-! ### The four kinds of tokens -/

section Kinds

variable (t : TokenParts)

/-- The path without slashes at its end. -/
def UpstreamUrl.trimmedPath (u : UpstreamUrl) : Str := u.path.rdropWhile (· = '/')

theorem UpstreamUrl.rdropWhile_text (u : UpstreamUrl) :
    u.text.rdropWhile (· = '/')
      = u.scheme ++ ("://".toList ++ (u.host ++ (u.portText ++ u.trimmedPath))) := by
  have hauthority : ∀ c ∈ u.host ++ u.portText, decide (c = '/') = false := by
    intro c hc
    refine decide_eq_false ?_
    rintro rfl
    obtain hc | hc := List.mem_append.mp hc
    · exact u.host_slash hc
    · unfold UpstreamUrl.portText at hc
      split at hc
      · next port _ =>
        obtain hc | hc := List.mem_cons.mp hc
        · exact absurd hc (by decide)
        · exact port.not_mem (by decide) hc
      · cases hc
  have hne : u.host ++ u.portText ≠ [] := List.append_ne_nil_of_left_ne_nil u.host_ne _
  have happend := rdropWhile_append hne hauthority (u.scheme ++ "://".toList) u.path
  simp only [List.append_assoc] at happend
  exact happend

/-- The part of a token behind `://`. -/
def TokenParts.rest (t : TokenParts) : Str :=
  t.upstream.host ++ (t.upstream.portText ++ t.upstream.trimmedPath)
    ++ ':' :: (t.username ++ match t.password with
      | some password => ':' :: password
      | none => [])

theorem encodeUsernameToken_eq :
    encodeUsernameToken standardBase64 t.upstream.text t.username t.password
      = Base64.encodeUrlSafe (utf8 (t.upstream.scheme ++ ("://".toList ++ t.rest))) := by
  have hfilter : t.password.filter (· ≠ []) = t.password := by
    cases hp : t.password with
    | none => rfl
    | some p =>
      have hne : p ≠ [] := fun hnil => t.password_ne (hnil ▸ hp)
      exact if_pos (decide_eq_true hne)
  unfold encodeUsernameToken
  dsimp only
  rw [hfilter, t.upstream.rdropWhile_text]
  unfold TokenParts.rest
  cases t.password with
  | none => simp [standardBase64]
  | some p => simp [standardBase64]

/-- What has to be compared, once the parts are read. -/
theorem tokenRoundTrips_iff_of_read {creds : XcCredentials}
    (h : readParts t.upstream.scheme (splitN ':' 4 t.rest) = some creds) :
    TokenRoundTrips t ↔
      creds.upstreamBase.rdropWhile (· = '/') = t.upstream.text.rdropWhile (· = '/') ∧
      creds.actualUsername = t.username ∧ creds.apiPassword = t.password := by
  have hparse : parseUsernameWithUpstream standardBase64
      (encodeUsernameToken standardBase64 t.upstream.text t.username t.password) = .ok creds := by
    rw [parseUsernameWithUpstream, encodeUsernameToken_eq, tryParse_token t.upstream.scheme_colon,
      h]
  constructor
  · rintro ⟨creds', hcreds, hurl, huser, hpassword, -⟩
    rw [hparse] at hcreds
    cases hcreds
    exact ⟨hurl, huser, hpassword⟩
  · rintro ⟨hurl, huser, hpassword⟩
    refine ⟨creds, hparse, hurl, huser, hpassword, fun configured hne => ?_⟩
    rw [verifyXcApiPassword_ok_iff hne, hpassword]

/-- A URL that has taken the user name in is longer than the one that was put in. -/
theorem longer_upstream_ne (u : UpstreamUrl) (hport : u.port = none) (username : Str) :
    (ensureTrailingSlash (u.scheme ++ "://".toList
      ++ ((u.host ++ u.trimmedPath) ++ ':' :: username))).rdropWhile (· = '/')
        ≠ u.text.rdropWhile (· = '/') := by
  have hportText : u.portText = [] := by rw [UpstreamUrl.portText, hport]
  have hurl : u.scheme ++ "://".toList ++ ((u.host ++ u.trimmedPath) ++ ':' :: username)
      = (u.scheme ++ ("://".toList ++ (u.host ++ u.trimmedPath))) ++ ':' :: username := by
    rw [List.append_assoc u.scheme, ← List.append_assoc _ _ (':' :: username),
      ← List.append_assoc u.scheme]
  rw [rdropWhile_ensureTrailingSlash, hurl, rdropWhile_append_cons (by decide), u.rdropWhile_text,
    hportText, List.nil_append]
  intro h
  have hlength := congrArg List.length h
  rw [List.length_append, List.length_cons] at hlength
  omega

theorem same_upstream (u : UpstreamUrl) :
    (ensureTrailingSlash
      (u.scheme ++ "://".toList ++ (u.host ++ (u.portText ++ u.trimmedPath)))).rdropWhile (· = '/')
        = u.text.rdropWhile (· = '/') := by
  have hurl : u.scheme ++ "://".toList ++ (u.host ++ (u.portText ++ u.trimmedPath))
      = u.text.rdropWhile (· = '/') := by
    rw [u.rdropWhile_text, List.append_assoc]
  rw [rdropWhile_ensureTrailingSlash, hurl]
  exact List.rdropWhile_idempotent _ _

theorem colon_not_mem_trimmedPath (u : UpstreamUrl) : ':' ∉ u.trimmedPath := fun h =>
  u.path_colon ((List.rdropWhile_prefix _ _).subset h)

theorem filter_password {password : Str} (hpassword : t.password = some password) :
    (some password).filter (· ≠ []) = t.password := by
  have hne : password ≠ [] := fun hnil => t.password_ne (hnil ▸ hpassword)
  rw [hpassword]
  exact if_pos (decide_eq_true hne)

/-- Without a port and a password, the colon is the one of the token. -/
theorem tokenRoundTrips_bare (hport : t.upstream.port = none) (hpassword : t.password = none) :
    TokenRoundTrips t := by
  have hportText : t.upstream.portText = [] := by rw [UpstreamUrl.portText, hport]
  have hhost : ':' ∉ t.upstream.host ++ (t.upstream.portText ++ t.upstream.trimmedPath) := by
    rw [hportText, List.nil_append, List.mem_append, not_or]
    exact ⟨t.upstream.host_colon, colon_not_mem_trimmedPath t.upstream⟩
  have hparts : splitN ':' 4 t.rest
      = [t.upstream.host ++ (t.upstream.portText ++ t.upstream.trimmedPath), t.username] := by
    rw [TokenParts.rest, hpassword, List.append_nil, splitN_append hhost,
      splitN_of_not_mem t.username_colon]
  refine (tokenRoundTrips_iff_of_read t (congrArg _ hparts)).mpr ⟨?_, rfl, hpassword.symm⟩
  exact same_upstream t.upstream

/-- With both there are four parts. -/
theorem tokenRoundTrips_full {port : Numeral} {password : Str}
    (hport : t.upstream.port = some port) (hpassword : t.password = some password) :
    TokenRoundTrips t := by
  have hportPath : ':' ∉ port.text ++ t.upstream.trimmedPath := by
    rw [List.mem_append, not_or]
    exact ⟨port.not_mem (by decide), colon_not_mem_trimmedPath t.upstream⟩
  have hportText : t.upstream.portText = ':' :: port.text := by rw [UpstreamUrl.portText, hport]
  have hparts : splitN ':' 4 t.rest
      = [t.upstream.host, port.text ++ t.upstream.trimmedPath, t.username, password] := by
    rw [TokenParts.rest, hpassword, hportText, List.append_assoc, List.cons_append,
      List.cons_append,
      splitN_append t.upstream.host_colon, splitN_append hportPath, splitN_append t.username_colon]
    rfl
  have hcreds := congrArg (readParts t.upstream.scheme) hparts
  refine (tokenRoundTrips_iff_of_read t hcreds).mpr ⟨?_, rfl, filter_password t hpassword⟩
  have hsame := same_upstream t.upstream
  rw [hportText] at hsame
  exact hsame

/-- A path that is left starts with a slash. -/
theorem trimmedPath_not_digits {u : UpstreamUrl} (hne : u.trimmedPath ≠ []) :
    u.trimmedPath.all Char.isDigit = false := by
  obtain ⟨rest, hrest⟩ := List.rdropWhile_prefix (fun c : Char => decide (c = '/')) u.path
  have hpath : u.path ≠ [] := by
    intro hnil
    rw [UpstreamUrl.trimmedPath, hnil, List.rdropWhile_nil] at hne
    exact hne rfl
  have hhead := u.path_slash hpath
  change u.trimmedPath ++ rest = u.path at hrest
  obtain ⟨c, path, htrimmed⟩ := List.exists_cons_of_ne_nil hne
  rw [← hrest, htrimmed, List.cons_append, List.head?_cons, Option.some_inj] at hhead
  rw [htrimmed, hhead]
  rfl

theorem lt_of_isDigit {c : Char} (h : c.isDigit = true) : c.toNat < 128 := by
  have hle : c.toNat ≤ '9'.toNat := (Char.isDigit_iff_toNat.mp h).2
  exact lt_of_le_of_lt hle (by decide)

/-- With a port alone, its part has to be read as one. -/
theorem tokenRoundTrips_port {port : Numeral} (hport : t.upstream.port = some port)
    (hpassword : t.password = none) :
    TokenRoundTrips t ↔ (∀ c ∈ t.upstream.path, c = '/') ∧ port.text.length ≤ 5 := by
  have hportPath : ':' ∉ port.text ++ t.upstream.trimmedPath := by
    rw [List.mem_append, not_or]
    exact ⟨port.not_mem (by decide), colon_not_mem_trimmedPath t.upstream⟩
  have hportText : t.upstream.portText = ':' :: port.text := by rw [UpstreamUrl.portText, hport]
  have hparts : splitN ':' 4 t.rest
      = [t.upstream.host, port.text ++ t.upstream.trimmedPath, t.username] := by
    rw [TokenParts.rest, hpassword, hportText, List.append_nil, List.append_assoc, List.cons_append,
      List.cons_append, splitN_append t.upstream.host_colon, splitN_append hportPath,
      splitN_of_not_mem t.username_colon]
  have hascii : (utf8 port.text).length = port.text.length :=
    length_utf8_of_ascii fun c hc => lt_of_isDigit (port.isDigit c hc)
  have hempty : t.upstream.trimmedPath = [] ↔ ∀ c ∈ t.upstream.path, c = '/' := by
    rw [UpstreamUrl.trimmedPath, List.rdropWhile_eq_nil_iff]
    exact forall₂_congr fun c _ => decide_eq_true_iff
  have hreads : ((port.text ++ t.upstream.trimmedPath).all Char.isDigit
      && (utf8 (port.text ++ t.upstream.trimmedPath)).length ≤ 5) = true
        ↔ t.upstream.trimmedPath = [] ∧ port.text.length ≤ 5 := by
    rw [Bool.and_eq_true, decide_eq_true_iff, List.all_append, port.all_isDigit, Bool.true_and]
    constructor
    · rintro ⟨hdigits, hlength⟩
      have hnil : t.upstream.trimmedPath = [] := by
        by_contra hne
        exact Bool.false_ne_true ((trimmedPath_not_digits hne).symm.trans hdigits)
      rw [hnil, List.append_nil, hascii] at hlength
      exact ⟨hnil, hlength⟩
    · rintro ⟨hnil, hlength⟩
      rw [hnil, List.append_nil, hascii]
      exact ⟨rfl, hlength⟩
  rw [← hempty, ← hreads]
  by_cases hread : ((port.text ++ t.upstream.trimmedPath).all Char.isDigit
      && (utf8 (port.text ++ t.upstream.trimmedPath)).length ≤ 5) = true
  · have hcreds := congrArg (readParts t.upstream.scheme) hparts
    rw [readParts_three, if_pos hread] at hcreds
    have hsame := same_upstream t.upstream
    rw [hportText] at hsame
    have htrips := (tokenRoundTrips_iff_of_read t hcreds).mpr ⟨hsame, rfl, hpassword.symm⟩
    exact iff_of_true htrips hread
  · have hcreds := congrArg (readParts t.upstream.scheme) hparts
    rw [readParts_three, if_neg hread] at hcreds
    refine iff_of_false (fun htrips => ?_) hread
    -- the user name was taken for the password, the port for the user name
    have huser := ((tokenRoundTrips_iff_of_read t hcreds).mp htrips).2.2
    dsimp only at huser
    rw [hpassword, Option.filter_some, if_pos (decide_eq_true t.username_ne)] at huser
    cases huser

theorem tokenRoundTrips_password {password : Str} (hport : t.upstream.port = none)
    (hpassword : t.password = some password) :
    TokenRoundTrips t ↔
      ':' ∉ password ∧ ¬ (t.username.all Char.isDigit ∧ (utf8 t.username).length ≤ 5) := by
  have hportText : t.upstream.portText = [] := by rw [UpstreamUrl.portText, hport]
  have hhost : ':' ∉ t.upstream.host ++ t.upstream.trimmedPath := by
    rw [List.mem_append, not_or]
    exact ⟨t.upstream.host_colon, colon_not_mem_trimmedPath t.upstream⟩
  have hparts : splitN ':' 4 t.rest
      = (t.upstream.host ++ t.upstream.trimmedPath) :: t.username :: splitN ':' 2 password := by
    rw [TokenParts.rest, hpassword, hportText, List.nil_append, splitN_append hhost,
      splitN_append t.username_colon]
  by_cases hcolon : ':' ∈ password
  · -- the password gives two of four parts, and the user name goes into the URL
    obtain ⟨front, back, rfl, hfront⟩ := List.eq_append_cons_of_mem hcolon
    rw [splitN_append hfront] at hparts
    refine iff_of_false (fun htrips => ?_) fun h => h.1 hcolon
    have hurl := ((tokenRoundTrips_iff_of_read t (congrArg _ hparts)).mp htrips).1
    exact longer_upstream_ne t.upstream hport t.username hurl
  · rw [splitN_of_not_mem hcolon] at hparts
    have hcreds := congrArg (readParts t.upstream.scheme) hparts
    rw [readParts_three] at hcreds
    by_cases hread : (t.username.all Char.isDigit && (utf8 t.username).length ≤ 5) = true
    · rw [if_pos hread] at hcreds
      refine iff_of_false (fun htrips => ?_) fun h => h.2 ?_
      · have hurl := ((tokenRoundTrips_iff_of_read t hcreds).mp htrips).1
        exact longer_upstream_ne t.upstream hport t.username hurl
      · rwa [Bool.and_eq_true, decide_eq_true_iff] at hread
    · rw [if_neg hread] at hcreds
      rw [Bool.and_eq_true, decide_eq_true_iff] at hread
      have hsame := same_upstream t.upstream
      rw [hportText] at hsame
      exact iff_of_true ((tokenRoundTrips_iff_of_read t hcreds).mpr
        ⟨hsame, rfl, filter_password t hpassword⟩) ⟨hcolon, hread⟩

end Kinds

/-- **Which tokens come back.** Those whose parts are told apart by their number and by the look of
the second. -/
theorem tokenRoundTrips_iff (t : TokenParts) : TokenRoundTrips t ↔ t.Unambiguous := by
  unfold TokenParts.Unambiguous
  cases hport : t.upstream.port with
  | none =>
    cases hpassword : t.password with
    | none => exact iff_of_true (tokenRoundTrips_bare t hport hpassword) trivial
    | some password => exact tokenRoundTrips_password t hport hpassword
  | some port =>
    cases hpassword : t.password with
    | none => exact tokenRoundTrips_port t hport hpassword
    | some password => exact iff_of_true (tokenRoundTrips_full t hport hpassword) trivial

theorem colon_not_mem_http : ':' ∉ "http".toList := by decide

/-- User name `12345` at `http://host`, with the password `pw`: `12345` is taken for the port. -/
def digitUser : TokenParts where
  upstream :=
    { scheme := "http".toList
      host := "host".toList
      port := none
      path := []
      scheme_colon := colon_not_mem_http
      host_colon := by decide
      host_ne := by decide
      host_slash := by decide
      path_colon := List.not_mem_nil
      path_slash := fun h => absurd rfl h }
  username := "12345".toList
  password := some "pw".toList
  username_ne := by decide
  username_colon := by decide
  password_ne := by decide

theorem not_tokenRoundTrips_digitUser : ¬ TokenRoundTrips digitUser := by
  rw [tokenRoundTrips_password digitUser rfl rfl]
  exact fun h => h.2 ⟨rfl, by decide⟩

end MediaFlow
