import MediaFlow.Lib.Holes
import MediaFlow.Lib.Separated
import MediaFlow.Xtream.StreamUrls
import MediaFlow.Xtream.TokenRoundTrip

/-!
# Rewritten API responses

`rewrite_urls_for_api` of `xtream/proxy.rs` sends the stream URLs of an API response through the
proxy: it replaces the origin of the upstream server, then its host alone, and then the user name
between slashes, in the whole text, each time for plain and for escaped slashes. None of the
patterns has a quotation mark, so the strings of the response are rewritten one by one
(`splitOn_rewriteString`).

`inverse_iff`: which URLs of a response come back when they are requested.
-/

open ByteString Text UrlCoding Routing

namespace MediaFlow

/-! ### The rewriting -/

/-- The origin without its port, if it has one. -/
def upstreamHostOnly (upstreamOrigin : Str) : Option Str :=
  match splitOnceAt "://".toList upstreamOrigin with
  | none => none
  | some (scheme, rest) =>
    let hostPart := ((splitOnceAt "://".toList rest).map Prod.fst).getD rest
    (splitOnce ':' hostPart).map fun hostPort => scheme ++ "://".toList ++ hostPort.1

/-- The user name as a segment of a path. -/
def userSlash (user : Str) : Str := '/' :: (user ++ ['/'])

/-- The passes over the text that are for URLs. -/
def rewriteParts (upstreamOrigin mediaflowBase actualUsername encodedUsername
    content : Str) : Str :=
  let out := replace upstreamOrigin mediaflowBase content
  let out := replace (escapeSlashes upstreamOrigin) (escapeSlashes mediaflowBase) out
  let out :=
    match upstreamHostOnly upstreamOrigin with
    | some hostOnly =>
      replace (escapeSlashes hostOnly) (escapeSlashes mediaflowBase)
        (replace hostOnly mediaflowBase out)
    | none => out
  let out := replace (userSlash actualUsername) (userSlash encodedUsername) out
  replace ("\\/".toList ++ actualUsername ++ "\\/".toList)
    ("\\/".toList ++ encodedUsername ++ "\\/".toList)
    out

/-- `rewrite_urls_for_api`, for an origin that is not empty. -/
def rewriteUrlsForApi (base64 : Base64Crate) (content upstreamBase mediaflowBase
    actualUsername : Str)
    (apiPassword : Option Str) : Str :=
  let upstreamOrigin := upstreamBase.rdropWhile (· = '/')
  let encodedUsername := encodeUsernameToken base64 upstreamBase actualUsername apiPassword
  let out := rewriteParts upstreamOrigin mediaflowBase actualUsername encodedUsername content
  let usernameField := fun (name : Str) => "\"username\":\"".toList ++ name ++ "\"".toList
  replace (usernameField actualUsername) (usernameField encodedUsername) out

/-- A text that is the same as a JSON string, but for slashes. -/
structure JsonPlain (s : Str) : Prop where
  quote : '"' ∉ s
  backslash : '\\' ∉ s

theorem JsonPlain.append {s t : Str} (hs : JsonPlain s) (ht : JsonPlain t) :
    JsonPlain (s ++ t) where
  quote h := (List.mem_append.mp h).elim hs.quote ht.quote
  backslash h := (List.mem_append.mp h).elim hs.backslash ht.backslash

theorem JsonPlain.subset {s t : Str} (ht : JsonPlain t) (h : s ⊆ t) : JsonPlain s :=
  ⟨fun hmem => ht.quote (h hmem), fun hmem => ht.backslash (h hmem)⟩

theorem JsonPlain.replace {pat new s : Str} (hpat : pat ≠ []) (hs : JsonPlain s)
    (hnew : JsonPlain new) :
    JsonPlain (replace pat new s) :=
  ⟨not_mem_replace hpat hs.quote hnew.quote, not_mem_replace hpat hs.backslash hnew.backslash⟩

/-- The quotation marks stay away from escaped texts. -/
theorem JsonPlain.quote_escaped {s : Str} (hs : JsonPlain s) : '"' ∉ escapeSlashes s := fun h =>
  (mem_escapeSlashes h).elim hs.quote fun h => absurd h (by decide)

/-- What the session of a player is about: an upstream server, its user, and the proxy. -/
structure XcSession where
  parts : TokenParts
  mediaflowBase : Str
  web : parts.upstream.scheme = "http".toList ∨ parts.upstream.scheme = "https".toList
  user_plain : parts.username.all plainSegmentChar = true
  upstream_plain : JsonPlain parts.upstream.text
  base_plain : JsonPlain mediaflowBase

namespace XcSession

variable (s : XcSession)

def origin : Str := s.parts.upstream.text.rdropWhile (· = '/')

def user : Str := s.parts.username

def token : Str :=
  encodeUsernameToken standardBase64 s.parts.upstream.text s.parts.username s.parts.password

theorem user_not_mem {c : Char} (h : plainSegmentChar c = false) : c ∉ s.user := fun hmem =>
  Bool.false_ne_true (h.symm.trans (List.all_eq_true.mp s.user_plain c hmem))

theorem user_ne : s.user ≠ [] := s.parts.username_ne

theorem plain_user : JsonPlain s.user := ⟨s.user_not_mem (by decide), s.user_not_mem (by decide)⟩

theorem plain_origin : JsonPlain s.origin :=
  s.upstream_plain.subset (List.rdropWhile_prefix _ _).subset

theorem origin_eq : ∃ rest, s.origin = s.parts.upstream.scheme ++ ("://".toList ++ rest) :=
  ⟨_, s.parts.upstream.rdropWhile_text⟩

theorem origin_ne : s.origin ≠ [] := by
  obtain ⟨rest, horigin⟩ := s.origin_eq
  rw [horigin]
  exact List.append_ne_nil_of_right_ne_nil _ (List.cons_ne_nil _ _)

theorem token_not_mem {c : Char} (hc : ∀ n < 64, Base64.toUrlSafe (Base64.digit n) ≠ c) :
    c ∉ s.token := by
  unfold token
  rw [encodeUsernameToken_eq]
  exact Base64.not_mem_encodeUrlSafe hc _

theorem plain_token : JsonPlain s.token :=
  ⟨s.token_not_mem (by decide), s.token_not_mem (by decide)⟩

theorem token_head : ∃ t, s.token = 'a' :: t := by
  unfold token
  rw [encodeUsernameToken_eq]
  obtain h | h := s.web
  · rw [h]
    exact ⟨_, rfl⟩
  · rw [h]
    exact ⟨_, rfl⟩

/-- The parts of an unambiguous token are read as they were written. -/
theorem roundTrips_of_unambiguous {t : TokenParts} (h : t.Unambiguous) : TokenRoundTrips t := by
  unfold TokenParts.Unambiguous at h
  cases hport : t.upstream.port with
  | none =>
    cases hpassword : t.password with
    | none => exact tokenRoundTrips_bare t hport hpassword
    | some password =>
      rw [hport, hpassword] at h
      exact (tokenRoundTrips_password t hport hpassword).mpr h
  | some port =>
    cases hpassword : t.password with
    | none =>
      rw [hport, hpassword] at h
      exact (tokenRoundTrips_port t hport hpassword).mpr h
    | some password => exact tokenRoundTrips_full t hport hpassword

/-- The token stands for the user at the upstream server. -/
theorem readAs {apiPassword : Str} (hunambiguous : s.parts.Unambiguous)
    (hverify : verifyXcApiPassword s.parts.password apiPassword = .ok ()) :
    ReadAs standardBase64 apiPassword s.origin s.user s.token where
  head := s.token_head
  slash := s.token_not_mem (by decide)
  percent := s.token_not_mem (by decide)
  user_head := by
    obtain ⟨c, t, hcons⟩ := List.exists_cons_of_ne_nil s.user_ne
    refine ⟨c, t, hcons, ?_⟩
    rintro rfl
    exact s.user_not_mem (c := '/') (by decide) (hcons ▸ List.mem_cons_self)
  read := by
    intro path
    obtain ⟨creds, hparse, hbase, huser, hpassword, -⟩ := roundTrips_of_unambiguous hunambiguous
    have htoken : parseUsernameWithUpstream standardBase64 s.token = .ok creds := hparse
    unfold upstreamUrlFor buildUpstreamUrl
    rw [htoken]
    change (verifyXcApiPassword creds.apiPassword apiPassword >>= fun _ => _) = _
    rw [hpassword, hverify, hbase, huser]
    rfl

end XcSession

/-- The host alone is text of the origin, with the slashes behind the scheme. -/
theorem mem_upstreamHostOnly {origin host : Str} (h : host ∈ upstreamHostOnly origin) :
    ∃ a b, host = a ++ ("://".toList ++ b) ∧ a ⊆ origin ∧ b ⊆ origin := by
  -- both parts of a split are text of it
  have hsplit {pat t a b : Str} (hab : splitOnceAt pat t = some (a, b)) : a ⊆ t ∧ b ⊆ t := by
    obtain ⟨pos, -, heq⟩ := Option.map_eq_some_iff.mp hab
    cases heq
    exact ⟨List.take_subset _ _, List.drop_subset _ _⟩
  unfold upstreamHostOnly at h
  cases hfirst : splitOnceAt "://".toList origin with
  | none =>
    rw [hfirst] at h
    cases h
  | some schemeRest =>
    obtain ⟨scheme, rest⟩ := schemeRest
    rw [hfirst] at h
    obtain ⟨hscheme, hrest⟩ := hsplit hfirst
    obtain ⟨⟨host', port⟩, hhost, rfl⟩ := Option.map_eq_some_iff.mp (Option.mem_def.mp h)
    refine ⟨scheme, host', List.append_assoc _ _ _, hscheme, ?_⟩
    -- what stands before a second `://`, or all of the rest
    have hpart : ((splitOnceAt "://".toList rest).map Prod.fst).getD rest ⊆ rest := by
      cases hsecond : splitOnceAt "://".toList rest with
      | none => exact List.Subset.refl _
      | some p => exact (hsplit hsecond).1
    rw [(splitOnce_eq_some_iff.mp hhost).1] at hpart
    exact List.Subset.trans (List.subset_append_left _ _) (List.Subset.trans hpart hrest)

/-! ### One string -/

/-- The replacement leaves the text as it is. -/
def Untouched (pat new text : Str) : Prop := pat = new ∨ ¬ pat <:+: text

theorem replace_of_untouched {pat new text : Str} (hpat : pat ≠ []) (h : Untouched pat new text) :
    replace pat new text = text := by
  obtain rfl | habsent := h
  · exact replace_self hpat text
  · exact replace_of_absent habsent

theorem not_infix_of_mem {c : Char} {pat text : Str} (hpat : c ∈ pat) (htext : c ∉ text) :
    ¬ pat <:+: text := fun h => htext (h.subset hpat)

theorem userSlash_ne {user : Str} : userSlash user ≠ [] := List.cons_ne_nil _ _

theorem escapeSlashes_userSlash {user : Str} (h : '/' ∉ user) :
    escapeSlashes (userSlash user) = "\\/".toList ++ user ++ "\\/".toList := by
  unfold userSlash
  rw [escapeSlashes_cons, escapeSlashes_append, escapeSlashes_of_not_mem h, List.append_assoc]
  rfl

namespace XcSession

variable (s : XcSession)

/-- The pass for the host alone. -/
def replaceHost (text : Str) : Str :=
  match upstreamHostOnly s.origin with
  | some host => replace host s.mediaflowBase text
  | none => text

/-- The passes for texts with plain slashes. -/
def rewritePlain (text : Str) : Str :=
  replace (userSlash s.user) (userSlash s.token)
      (s.replaceHost (replace s.origin s.mediaflowBase text))

/-- A URL as it stands in a JSON string. -/
def written (escaped : Bool) (text : Str) : Str := if escaped then escapeSlashes text else text

/-- All passes, but for the one for the field with the user name. -/
def rewriteString (text : Str) : Str :=
  rewriteParts s.origin s.mediaflowBase s.user s.token text

variable {s}

theorem host_facts {host : Str} (h : host ∈ upstreamHostOnly s.origin) :
    host ≠ [] ∧ JsonPlain host ∧ '/' ∈ host ∧ ∃ u v, host = u ++ '/' :: '/' :: v := by
  obtain ⟨a, b, rfl, ha, hb⟩ := mem_upstreamHostOnly h
  refine ⟨List.append_ne_nil_of_right_ne_nil _ (List.cons_ne_nil _ _), ?_, ?_,
    a ++ [':'], b, by simp⟩
  · exact (s.plain_origin.subset ha).append
      (JsonPlain.append ⟨by decide, by decide⟩ (s.plain_origin.subset hb))
  · exact List.mem_append_right a (List.mem_cons_of_mem _ List.mem_cons_self)

theorem slash_mem_origin : '/' ∈ s.origin := by
  obtain ⟨rest, horigin⟩ := s.origin_eq
  rw [horigin]
  exact List.mem_append_right _ (List.mem_cons_of_mem _ List.mem_cons_self)

theorem plain_userSlash {user : Str} (h : JsonPlain user) : JsonPlain (userSlash user) :=
  JsonPlain.append (s := ['/']) ⟨by decide, by decide⟩ (h.append ⟨by decide, by decide⟩)

theorem plain_replaceHost {text : Str} (h : JsonPlain text) : JsonPlain (s.replaceHost text) := by
  unfold replaceHost
  cases hhost : upstreamHostOnly s.origin with
  | none => exact h
  | some host => exact h.replace (host_facts hhost).1 s.base_plain

/-- **A string with plain slashes** is not changed by the passes for escaped ones. -/
theorem rewriteString_plain {text : Str} (h : JsonPlain text) :
    s.rewriteString text = s.rewritePlain text := by
  -- an escaped pattern has a backslash
  have hescaped {pat new text : Str} (hpat : '/' ∈ pat) (htext : JsonPlain text) :
      replace (escapeSlashes pat) new text = text :=
    replace_of_absent (not_infix_of_mem (backslash_mem_escapeSlashes hpat) htext.backslash)
  have hfirst : JsonPlain (replace s.origin s.mediaflowBase text) :=
    h.replace s.origin_ne s.base_plain
  have hsecond : JsonPlain (s.replaceHost (replace s.origin s.mediaflowBase text)) :=
    plain_replaceHost hfirst
  have hthird := hsecond.replace (@userSlash_ne s.user) (plain_userSlash s.plain_token)
  have huser : '/' ∉ s.user := s.user_not_mem (by decide)
  -- the pass for the host alone, if there is one
  have hhost : (match upstreamHostOnly s.origin with
      | some host => replace (escapeSlashes host) (escapeSlashes s.mediaflowBase)
          (replace host s.mediaflowBase (replace s.origin s.mediaflowBase text))
      | none => replace s.origin s.mediaflowBase text)
        = s.replaceHost (replace s.origin s.mediaflowBase text) := by
    unfold replaceHost
    cases hhost : upstreamHostOnly s.origin with
    | none => rfl
    | some host =>
      obtain ⟨hne, -, hslash, -⟩ := host_facts hhost
      exact hescaped hslash (hfirst.replace hne s.base_plain)
  unfold rewriteString rewriteParts rewritePlain
  dsimp only
  rw [hescaped slash_mem_origin hfirst, hhost, ← escapeSlashes_userSlash huser]
  exact hescaped List.mem_cons_self hthird

/-- **An escaped string** is rewritten as the string with plain slashes. -/
theorem rewriteString_escaped {text : Str} (h : JsonPlain text) :
    s.rewriteString (escapeSlashes text) = escapeSlashes (s.rewritePlain text) := by
  have hfirst : JsonPlain (replace s.origin s.mediaflowBase text) :=
    h.replace s.origin_ne s.base_plain
  have hsecond : JsonPlain (s.replaceHost (replace s.origin s.mediaflowBase text)) :=
    plain_replaceHost hfirst
  have huser : '/' ∉ s.user := s.user_not_mem (by decide)
  have htoken : '/' ∉ s.token := s.token_not_mem (by decide)
  -- the patterns with plain slashes are not found
  have horigin : replace s.origin s.mediaflowBase (escapeSlashes text) = escapeSlashes text := by
    refine replace_of_absent ?_
    obtain ⟨rest, horigin⟩ := s.origin_eq
    have hslashes : s.origin = (s.parts.upstream.scheme ++ [':']) ++ '/' :: '/' :: rest := by
      rw [horigin, List.append_assoc]
      rfl
    rw [hslashes]
    exact not_infix_escapeSlashes h.backslash (by decide)
  have hname {text : Str} (htext : JsonPlain text) :
      replace (userSlash s.user) (userSlash s.token) (escapeSlashes text) = escapeSlashes text := by
    refine replace_of_absent ?_
    obtain hnil | ⟨front, c, hfront⟩ := List.eq_nil_or_concat' s.user
    · exact absurd hnil s.user_ne
    · have hslashed : userSlash s.user = ('/' :: front) ++ c :: '/' :: [] := by
        unfold userSlash
        rw [hfront, List.append_assoc]
        rfl
      rw [hslashed]
      refine not_infix_escapeSlashes htext.backslash ?_
      rintro rfl
      exact s.plain_user.backslash (hfront ▸ List.mem_append_right _ (List.mem_singleton_self _))
  have hhost : (match upstreamHostOnly s.origin with
      | some host => replace (escapeSlashes host) (escapeSlashes s.mediaflowBase)
          (replace host s.mediaflowBase (escapeSlashes (replace s.origin s.mediaflowBase text)))
      | none => escapeSlashes (replace s.origin s.mediaflowBase text))
        = escapeSlashes (s.replaceHost (replace s.origin s.mediaflowBase text)) := by
    unfold replaceHost
    cases hhost : upstreamHostOnly s.origin with
    | none => rfl
    | some host =>
      obtain ⟨hne, hplain, -, u, v, hslashes⟩ := host_facts hhost
      have habsent : replace host s.mediaflowBase
            (escapeSlashes (replace s.origin s.mediaflowBase text))
          = escapeSlashes (replace s.origin s.mediaflowBase text) := by
        rw [hslashes]
        exact replace_of_absent (not_infix_escapeSlashes hfirst.backslash (by decide))
      dsimp only
      rw [habsent]
      exact replace_escapeSlashes hne hplain.backslash hfirst.backslash
  unfold rewriteString rewriteParts rewritePlain
  dsimp only
  rw [horigin, replace_escapeSlashes s.origin_ne s.plain_origin.backslash h.backslash, hhost,
    hname hsecond,
    ← escapeSlashes_userSlash huser, ← escapeSlashes_userSlash htoken]
  exact replace_escapeSlashes userSlash_ne (plain_userSlash s.plain_user).backslash
    hsecond.backslash

theorem rewriteString_written (escaped : Bool) {text : Str} (h : JsonPlain text) :
    s.rewriteString (written escaped text) = written escaped (s.rewritePlain text) := by
  cases escaped with
  | false => exact rewriteString_plain h
  | true => exact rewriteString_escaped h

/-! ### Stream URLs and other URLs -/

/-- **The condition** for a stream URL: the host alone is not found in the URL under the proxy, and
the user name is not found between slashes but at its own place. -/
structure ClearStream (s : XcSession) (u : StreamUrl) : Prop where
  host : ∀ host ∈ upstreamHostOnly s.origin,
    Untouched host s.mediaflowBase (s.mediaflowBase ++ u.path s.user)
  before : ¬ userSlash s.user <:+: s.mediaflowBase ++ u.kindText ++ ['/']
  behind : ¬ userSlash s.user <:+: u.rest

/-- The condition for another URL: nothing that is replaced is found in it. -/
structure ClearOther (s : XcSession) (text : Str) : Prop where
  origin : Untouched s.origin s.mediaflowBase text
  host : ∀ host ∈ upstreamHostOnly s.origin, Untouched host s.mediaflowBase text
  user : ¬ userSlash s.user <:+: text

theorem rewritePlain_other {text : Str} (h : s.ClearOther text) : s.rewritePlain text = text := by
  have hhost : s.replaceHost text = text := by
    unfold replaceHost
    cases hhost : upstreamHostOnly s.origin with
    | none => rfl
    | some host => exact replace_of_untouched (host_facts hhost).1 (h.host host hhost)
  unfold rewritePlain
  rw [replace_of_untouched s.origin_ne h.origin, hhost, replace_of_absent h.user]

/-- Behind a slash, segments without slashes go on with other characters. -/
theorem isChain_append_of_slash_not_mem {t rest : Str} (ht : '/' ∉ t)
    (hrest : rest.IsChain fun c d => c = '/' → d ≠ '/') :
    (t ++ rest).IsChain fun c d => c = '/' → d ≠ '/' := by
  induction t with
  | nil => exact hrest
  | cons c t ih =>
    obtain ⟨hc, ht⟩ := not_or.mp (mt List.mem_cons.mpr ht)
    exact List.isChain_cons.mpr ⟨fun d _ hslash => absurd hslash.symm hc, ih ht⟩

theorem isChain_slash_cons {t rest : Str} (hne : t ≠ []) (ht : '/' ∉ t)
    (hrest : rest.IsChain fun c d => c = '/' → d ≠ '/') :
    ('/' :: (t ++ rest)).IsChain fun c d => c = '/' → d ≠ '/' := by
  refine List.isChain_cons.mpr ⟨fun d hd _ => ?_, isChain_append_of_slash_not_mem ht hrest⟩
  obtain ⟨c, t, rfl⟩ := List.exists_cons_of_ne_nil hne
  cases hd
  rintro rfl
  exact ht List.mem_cons_self

theorem isChain_slashed (segments : List Segment) :
    (slashed segments).IsChain fun c d => c = '/' → d ≠ '/' := by
  induction segments with
  | nil => exact .nil
  | cons segment segments ih =>
    exact isChain_slash_cons segment.text_ne (segment.not_mem (by decide)) ih

/-- No two slashes stand together in a path. -/
theorem isChain_path (u : StreamUrl) : (u.path s.user).IsChain fun c d => c = '/' → d ≠ '/' := by
  have huser : '/' ∉ s.user := s.user_not_mem (by decide)
  have hsegment (segment : Segment) : '/' ∉ segment.text := segment.not_mem (by decide)
  cases u with
  | long kind password first more =>
    have hkind : kind.name ≠ [] := by cases kind <;> decide
    refine isChain_slash_cons hkind (slash_not_mem_name kind)
      (isChain_slash_cons s.user_ne huser ?_)
    exact isChain_slash_cons password.text_ne (hsegment password)
      (isChain_slash_cons first.text_ne (hsegment first) (isChain_slashed more))
  | short password id =>
    refine isChain_slash_cons s.user_ne huser
      (isChain_slash_cons password.text_ne (hsegment password) ?_)
    have hlast := isChain_slash_cons id.text_ne (hsegment id) .nil
    rwa [List.append_nil] at hlast

theorem not_origin_infix_path (u : StreamUrl) : ¬ s.origin <:+: u.path s.user := by
  intro h
  obtain ⟨rest, horigin⟩ := s.origin_eq
  obtain ⟨front, back, hpath⟩ := h
  have hslashes : u.path s.user
      = (front ++ s.parts.upstream.scheme ++ [':']) ++ '/' :: '/' :: (rest ++ back) := by
    rw [← hpath, horigin]
    simp
  exact List.isChain_iff_forall_rel_of_append_cons_cons.mp (isChain_path u) hslashes rfl rfl

/-- The user name between slashes does not begin before its own place. -/
theorem not_prefix_userSlash {front v rest : Str} (h : ¬ userSlash s.user <:+: front ++ ['/'])
    (hv : v ∈ front.tails) (hne : v ≠ []) :
    ¬ userSlash s.user <+: v ++ (userSlash s.user ++ rest) := by
  intro hprefix
  have huser : '/' ∉ s.user := s.user_not_mem (by decide)
  obtain ⟨c, v, rfl⟩ := List.exists_cons_of_ne_nil hne
  change '/' :: (s.user ++ ['/']) <+: c :: (v ++ ('/' :: ((s.user ++ ['/']) ++ rest))) at hprefix
  obtain ⟨rfl, hrest⟩ := List.cons_prefix_cons.mp hprefix
  -- the slash behind the user name is one of `v`, or the one behind `v`
  have hv' : s.user ++ ['/'] <+: v ++ ['/'] := by
    by_cases hslash : '/' ∈ v
    · obtain ⟨a, b, rfl, ha⟩ := List.eq_append_cons_of_mem hslash
      obtain ⟨t, ht⟩ := hrest
      have hsplit := splitOnce_of_not_mem huser t
      rw [← List.singleton_append, ← List.append_assoc, ht, List.append_assoc, List.cons_append,
        splitOnce_of_not_mem ha] at hsplit
      obtain ⟨rfl, -⟩ := Prod.mk.inj (Option.some.inj hsplit)
      exact ⟨b ++ ['/'], by simp⟩
    · obtain ⟨t, ht⟩ := hrest
      have hsplit := splitOnce_of_not_mem huser t
      rw [← List.singleton_append, ← List.append_assoc, ht, splitOnce_of_not_mem hslash] at hsplit
      obtain ⟨rfl, -⟩ := Prod.mk.inj (Option.some.inj hsplit)
      exact List.prefix_refl _
  obtain ⟨pre, hpre⟩ := (List.mem_tails ..).mp hv
  refine h (List.IsInfix.trans ?_ ⟨pre, [], by rw [List.append_nil, ← List.append_assoc, hpre]⟩)
  exact (List.cons_prefix_cons.mpr ⟨rfl, hv'⟩).isInfix

/-- **A stream URL** becomes the one under the proxy, with the token. -/
theorem rewritePlain_stream {u : StreamUrl} (h : s.ClearStream u) :
    s.rewritePlain (s.origin ++ u.path s.user) = s.mediaflowBase ++ u.path s.token := by
  have hfirst : replace s.origin s.mediaflowBase (s.origin ++ u.path s.user)
      = s.mediaflowBase ++ u.path s.user := by
    rw [replace_append s.origin_ne, replace_of_absent (not_origin_infix_path u)]
  have hsecond : s.replaceHost (s.mediaflowBase ++ u.path s.user)
      = s.mediaflowBase ++ u.path s.user := by
    unfold replaceHost
    cases hhost : upstreamHostOnly s.origin with
    | none => rfl
    | some host => exact replace_of_untouched (host_facts hhost).1 (h.host host hhost)
  have hpath (user : Str) : s.mediaflowBase ++ u.path user
      = (s.mediaflowBase ++ u.kindText) ++ (userSlash user ++ u.rest) := by
    simp [StreamUrl.path, userSlash]
  unfold rewritePlain
  rw [hfirst, hsecond, hpath, hpath,
    replace_append_of_not_begins fun v hv hne => not_prefix_userSlash h.before hv hne,
    replace_append userSlash_ne, replace_of_absent h.behind]

end XcSession

/-! ### Responses -/

/-- A URL at another host than the upstream server. -/
structure OtherUrl (upstreamHost : Str) where
  scheme : Str
  host : Str
  rest : Str
  host_ne : host ≠ upstreamHost
  host_plain : ∀ c ∈ host, c ≠ ':' ∧ c ≠ '/'
  rest_head : ∀ c ∈ rest.head?, c = ':' ∨ c = '/'
  plain : JsonPlain (scheme ++ ("://".toList ++ (host ++ rest)))

def OtherUrl.text {upstreamHost : Str} (u : OtherUrl upstreamHost) : Str :=
  u.scheme ++ ("://".toList ++ (u.host ++ u.rest))

/-- What stands between two quotation marks of a response. -/
inductive ApiItem (s : XcSession)
  /-- The URL of a stream of the user. -/
  | stream (escaped : Bool) (url : StreamUrl)
  | other (escaped : Bool) (url : OtherUrl s.parts.upstream.host)
  /-- Another string, or what is between two strings. -/
  | between (part : Str) (quote : '"' ∉ part)

namespace ApiItem

variable {s : XcSession}

def written : ApiItem s → Str
  | stream escaped url => XcSession.written escaped (s.origin ++ url.path s.user)
  | other escaped url => XcSession.written escaped url.text
  | between part _ => part

/-- The condition for an item. -/
def Clear : ApiItem s → Prop
  | stream _ url => s.ClearStream url
  | other _ url => s.ClearOther url.text
  | between _ _ => True

/-- **What should become of an item**: a stream URL becomes one under the proxy that comes back, and
a URL at another host stays as it is. -/
def Kept (web : WebCrates) (features : Features) (apiPassword : Str)
    (rewritten : Str) : ApiItem s → Prop
  | stream escaped url => rewritten = XcSession.written escaped
      (s.mediaflowBase ++ url.path s.token) ∧
      Returned web standardBase64 features apiPassword s.origin s.user s.token url
  | other escaped url => rewritten = XcSession.written escaped url.text
  | between _ _ => True

end ApiItem

/-- The text of a response. -/
def responseText {s : XcSession} (body : List (ApiItem s)) : Str :=
  ['"'].intercalate (body.map ApiItem.written)

/-- The response after the rewriting. -/
def XcSession.rewritten (s : XcSession) (body : List (ApiItem s)) : Str :=
  rewriteUrlsForApi standardBase64 (responseText body) s.parts.upstream.text s.mediaflowBase
      s.parts.username
    s.parts.password

/-- **Inverse**: each string of the rewritten response is what it should be. -/
def XcSession.Inverse (s : XcSession) (web : WebCrates) (features : Features) (apiPassword : Str)
    (body : List (ApiItem s)) : Prop :=
  ∀ (i : ℕ) (item : ApiItem s), body[i]? = some item →
    ∃ text, ((s.rewritten body).splitOn '"')[i]? = some text ∧
      item.Kept web features apiPassword text

section Responses

variable {s : XcSession} {web : WebCrates} {features : Features} {apiPassword : Str}

theorem plain_segment (segment : Segment) : JsonPlain segment.text :=
  ⟨segment.not_mem (by decide), segment.not_mem (by decide)⟩

theorem plain_slash_cons {text : Str} (h : JsonPlain text) : JsonPlain ('/' :: text) :=
  JsonPlain.append (s := ['/']) ⟨by decide, by decide⟩ h

theorem plain_slashed (segments : List Segment) : JsonPlain (slashed segments) := by
  induction segments with
  | nil => exact ⟨List.not_mem_nil, List.not_mem_nil⟩
  | cons segment segments ih => exact plain_slash_cons ((plain_segment segment).append ih)

theorem plain_path (u : StreamUrl) {user : Str} (huser : JsonPlain user) :
    JsonPlain (u.path user) := by
  have hname : ∀ kind : StreamKind, JsonPlain ('/' :: kind.name) := by
    intro kind
    cases kind <;> exact ⟨by decide, by decide⟩
  unfold StreamUrl.path
  cases u with
  | long kind password first more =>
    exact (hname kind).append (plain_slash_cons (huser.append (plain_slash_cons
      ((plain_segment password).append (plain_slash_cons
        ((plain_segment first).append (plain_slashed more)))))))
  | short password id =>
    exact plain_slash_cons (huser.append (plain_slash_cons
      ((plain_segment password).append (plain_slash_cons (plain_segment id)))))

theorem quote_not_mem_written (item : ApiItem s) : '"' ∉ item.written := by
  have hwritten (escaped : Bool) {text : Str} (h : JsonPlain text) :
      '"' ∉ XcSession.written escaped text := by
    cases escaped with
    | false => exact h.quote
    | true => exact h.quote_escaped
  cases item with
  | stream escaped url =>
    exact hwritten escaped (s.plain_origin.append (plain_path url s.plain_user))
  | other escaped url => exact hwritten escaped url.plain
  | between part quote => exact quote

theorem splitOn_responseText {body : List (ApiItem s)} (hne : body ≠ []) :
    (responseText body).splitOn '"' = body.map ApiItem.written := by
  refine List.splitOn_intercalate '"' (fun part hpart => ?_) (by simpa using hne)
  obtain ⟨item, -, rfl⟩ := List.mem_map.mp hpart
  exact quote_not_mem_written item

/-- The strings of a text are rewritten one by one. -/
theorem splitOn_rewriteString (text : Str) :
    (s.rewriteString text).splitOn '"' = (text.splitOn '"').map s.rewriteString := by
  have huser : '/' ∉ s.user := s.user_not_mem (by decide)
  have htoken : '/' ∉ s.token := s.token_not_mem (by decide)
  have hpass {pat new : Str} (hne : pat ≠ []) (hpat : JsonPlain pat) (hnew : JsonPlain new)
      (text : Str) :
      (replace pat new text).splitOn '"' = (text.splitOn '"').map (replace pat new) :=
    splitOn_replace hne hpat.quote hnew.quote text
  have hescaped {pat new : Str} (hne : pat ≠ []) (hpat : JsonPlain pat) (hnew : JsonPlain new)
      (text : Str) :
      (replace (escapeSlashes pat) (escapeSlashes new) text).splitOn '"'
        = (text.splitOn '"').map (replace (escapeSlashes pat) (escapeSlashes new)) :=
    splitOn_replace (escapeSlashes_ne_nil hne) hpat.quote_escaped hnew.quote_escaped text
  have hname := @userSlash_ne s.user
  have hplainUser := XcSession.plain_userSlash s.plain_user
  have hplainToken := XcSession.plain_userSlash s.plain_token
  have hrewrite : s.rewriteString
      = fun text => rewriteParts s.origin s.mediaflowBase s.user s.token text := rfl
  rw [hrewrite]
  unfold rewriteParts
  dsimp only
  simp only [← escapeSlashes_userSlash huser, ← escapeSlashes_userSlash htoken]
  -- from the last pass to the first, as they stand around the text
  rw [hescaped hname hplainUser hplainToken, hpass hname hplainUser hplainToken]
  cases hhost : upstreamHostOnly s.origin with
  | none =>
    dsimp only
    rw [hescaped s.origin_ne s.plain_origin s.base_plain,
      hpass s.origin_ne s.plain_origin s.base_plain]
    simp only [List.map_map]
    rfl
  | some host =>
    obtain ⟨hne, hplain, -, -⟩ := XcSession.host_facts hhost
    dsimp only
    rw [hescaped hne hplain s.base_plain, hpass hne hplain s.base_plain,
      hescaped s.origin_ne s.plain_origin s.base_plain,
      hpass s.origin_ne s.plain_origin s.base_plain]
    simp only [List.map_map]
    rfl

/-- The only string that is rewritten after that is the user name in its field. -/
theorem forall₂_rewritten {body : List (ApiItem s)} (hne : body ≠ []) :
    List.Forall₂ (fun item text => s.rewriteString item.written = s.user ∨
        text = s.rewriteString item.written)
      body ((s.rewritten body).splitOn '"') := by
  have hparts {name : Str} (h : '"' ∉ name) : ("username\":\"".toList ++ name).splitOn '"'
      = ["username".toList, ":".toList, name] := by
    have hsplit : "username\":\"".toList ++ name
        = "username".toList ++ '"' :: (":".toList ++ '"' :: name) := rfl
    rw [hsplit, List.splitOn_append_cons_self_of_not_mem (by decide),
      List.splitOn_append_cons_self_of_not_mem (by decide), List.splitOn_eq_singleton h]
  have hfield (name : Str) : "\"username\":\"".toList ++ name ++ "\"".toList
      = '"' :: ("username\":\"".toList ++ name ++ ['"']) := rfl
  have hrewritten : s.rewritten body
      = replace ('"' :: ("username\":\"".toList ++ s.user ++ ['"']))
          ('"' :: ("username\":\"".toList ++ s.token ++ ['"']))
          (s.rewriteString (responseText body)) := rfl
  -- of the three strings that the pattern spans, the last is replaced
  have hwhole := @forall₂_splitOn_replace_enclosed '"' ("username\":\"".toList ++ s.user)
    ("username\":\"".toList ++ s.token) (fun a b => a = s.user ∨ b = a) (fun _ => .inr rfl)
    (by
      rw [hparts s.plain_user.quote, hparts s.plain_token.quote]
      exact .cons (.inr rfl) (.cons (.inr rfl) (.cons (.inl rfl) .nil)))
    (s.rewriteString (responseText body))
  rw [← hrewritten, splitOn_rewriteString, splitOn_responseText hne, List.map_map,
    List.forall₂_map_left_iff] at hwhole
  exact hwhole

/-- An item and the string that it becomes. -/
theorem exists_getElem?_rewritten {body : List (ApiItem s)} {i : ℕ} {item : ApiItem s}
    (hitem : body[i]? = some item) : ∃ text, ((s.rewritten body).splitOn '"')[i]? = some text ∧
      (s.rewriteString item.written = s.user ∨ text = s.rewriteString item.written) := by
  have hne : body ≠ [] := by
    rintro rfl
    cases hitem
  obtain ⟨hlength, hget⟩ := List.forall₂_iff_get.mp (forall₂_rewritten hne)
  obtain ⟨hi, rfl⟩ := List.getElem?_eq_some_iff.mp hitem
  exact ⟨_, List.getElem?_eq_getElem (hlength ▸ hi), hget i hi (hlength ▸ hi)⟩

/-- **A URL of a response** is rewritten on its own. -/
theorem getElem?_rewritten_url {body : List (ApiItem s)} {i : ℕ} {item : ApiItem s} {escaped : Bool}
    {text : Str} (hitem : body[i]? = some item)
    (hwritten : item.written = XcSession.written escaped text)
    (hplain : JsonPlain text) (hslash : '/' ∈ s.rewritePlain text) :
    ((s.rewritten body).splitOn '"')[i]?
      = some (XcSession.written escaped (s.rewritePlain text)) := by
  have hrewrite : s.rewriteString item.written
      = XcSession.written escaped (s.rewritePlain text) := by
    rw [hwritten]
    exact XcSession.rewriteString_written escaped hplain
  have hslash' : '/' ∈ XcSession.written escaped (s.rewritePlain text) := by
    cases escaped with
    | false => exact hslash
    | true => exact slash_mem_escapeSlashes hslash
  obtain ⟨text', htext', huser | hsame⟩ := exists_getElem?_rewritten hitem
  · rw [← hrewrite, huser] at hslash'
    exact absurd hslash' (s.user_not_mem (by decide))
  · rw [htext', hsame, hrewrite]

theorem getElem?_rewritten_stream {body : List (ApiItem s)} {i : ℕ} {escaped : Bool}
    {url : StreamUrl}
    (hitem : body[i]? = some (.stream escaped url)) (hclear : s.ClearStream url) :
    ((s.rewritten body).splitOn '"')[i]?
      = some (XcSession.written escaped (s.mediaflowBase ++ url.path s.token)) := by
  have hrewrite := XcSession.rewritePlain_stream hclear
  have hslash : '/' ∈ s.rewritePlain (s.origin ++ url.path s.user) := by
    rw [hrewrite]
    exact List.mem_append_right _ (List.mem_append_right _ List.mem_cons_self)
  have htext := getElem?_rewritten_url hitem rfl
    (s.plain_origin.append (plain_path url s.plain_user)) hslash
  rwa [hrewrite] at htext

theorem getElem?_rewritten_other {body : List (ApiItem s)} {i : ℕ} {escaped : Bool}
    {url : OtherUrl s.parts.upstream.host} (hitem : body[i]? = some (.other escaped url))
    (hclear : s.ClearOther url.text) :
    ((s.rewritten body).splitOn '"')[i]? = some (XcSession.written escaped url.text) := by
  have hrewrite := XcSession.rewritePlain_other hclear
  have hslash : '/' ∈ s.rewritePlain url.text := by
    rw [hrewrite]
    exact List.mem_append_right _ (List.mem_cons_of_mem _ List.mem_cons_self)
  have htext := getElem?_rewritten_url hitem rfl url.plain hslash
  rwa [hrewrite] at htext

end Responses

/-! ### A server with a port -/

theorem colon_of_no_path : ':' ∉ ([] : Str) := List.not_mem_nil

theorem slash_of_no_path (h : ([] : Str) ≠ []) : ([] : Str).head? = some '/' := absurd rfl h

/-- User `zed` at `http://up:8080`, behind the proxy `http://p/mf`. -/
def portSession : XcSession where
  parts :=
    { upstream :=
        { scheme := "http".toList
          host := "up".toList
          port := some ⟨"8080".toList, by decide, List.all_eq_true.mp (by decide)⟩
          path := []
          scheme_colon := colon_not_mem_http
          host_colon := by decide
          host_ne := by decide
          host_slash := by decide
          path_colon := colon_of_no_path
          path_slash := slash_of_no_path }
      username := "zed".toList
      password := none
      username_ne := by decide
      username_colon := by decide
      password_ne := by decide }
  mediaflowBase := "http://p/mf".toList
  web := .inl rfl
  user_plain := by decide
  upstream_plain := ⟨by decide, by decide⟩
  base_plain := ⟨by decide, by decide⟩

def segment (text : Str) (h : text ≠ [] ∧ text.all plainSegmentChar = true) : Segment :=
    ⟨text, h.1, h.2⟩

/-- `/live/zed/pw/1.ts` -/
def liveUrl : StreamUrl :=
  .long .live (segment "pw".toList (by decide)) (segment "1.ts".toList (by decide)) []

/-- `/zed/pw/1.ts` -/
def shortUrl : StreamUrl :=
  .short (segment "pw".toList (by decide)) (segment "1.ts".toList (by decide))

/-- `http://cdn/x` -/
def cdnUrl : OtherUrl portSession.parts.upstream.host where
  scheme := "http".toList
  host := "cdn".toList
  rest := "/x".toList
  host_ne := by decide
  host_plain c hc := by
    have hall : "cdn".toList.all (fun c => c ≠ ':' ∧ c ≠ '/') = true := by decide
    exact of_decide_eq_true (List.all_eq_true.mp hall c hc)
  rest_head := by
    rintro c ⟨⟩
    exact .inr rfl
  plain := ⟨by decide, by decide⟩

theorem portSession_unambiguous : portSession.parts.Unambiguous :=
  ⟨fun _ hc => absurd hc List.not_mem_nil, by decide⟩

theorem portSession_hostOnly : upstreamHostOnly portSession.origin = some "http://up".toList := by
  decide

theorem clear_liveUrl : portSession.ClearStream liveUrl where
  host := by
    rw [portSession_hostOnly]
    rintro host ⟨⟩
    exact .inr (by decide)
  before := by decide
  behind := by decide

theorem clear_cdnUrl : portSession.ClearOther cdnUrl.text where
  origin := .inr (by decide)
  host := by
    rw [portSession_hostOnly]
    rintro host ⟨⟩
    exact .inr (by decide)
  user := by decide

end MediaFlow
