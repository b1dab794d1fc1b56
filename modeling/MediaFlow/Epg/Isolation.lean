import MediaFlow.Epg.Handler

/-!
# Isolation of EPG requests

Guides that are fetched with different headers should not be served to each other's requests, and
requests that are the same should share a cache entry. The key under which a guide is cached is its
URL and eight hexadecimal digits for the headers. These are the upper half of a hash whose lower half
takes in the last characters, so two tokens that differ at their end have one key
(`epgIsolated_fails`), and the hash follows the order in which the headers are walked.
`epgIsolated_iff` says which pairs of requests are kept apart and together.
-/

open ByteString Text UrlCoding

namespace MediaFlow

/-- Bits 32 to 63 of the number with the digits 5381 and then the bytes of `s`, in base 33. -/
def fingerprint (s : Str) : ℕ := djb2Number (utf8 s) / 2 ^ 32 % 2 ^ 32

theorem djb2Short_eq (s : Str) : djb2Short s = hexPadded 8 (fingerprint s) := by
  have hsplit : (2 : ℕ) ^ 64 = 16 ^ 8 * 2 ^ 32 := by decide
  unfold djb2Short fingerprint
  rw [djb2_eq (by decide), take_hexPadded 8 8, hsplit, Nat.mod_mul_right_div_self]
  rfl

theorem fingerprint_lt (s : Str) : fingerprint s < 16 ^ 8 := Nat.mod_lt _ (by decide)

theorem length_djb2Short (s : Str) : (djb2Short s).length = 8 := by
  rw [djb2Short_eq, length_hexPadded]

theorem djb2Short_inj {s t : Str} : djb2Short s = djb2Short t ↔ fingerprint s = fingerprint t := by
  rw [djb2Short_eq, djb2Short_eq, hexPadded_inj, Nat.mod_eq_of_lt (fingerprint_lt s),
    Nat.mod_eq_of_lt (fingerprint_lt t)]

namespace EpgRequest

variable (crates : EpgCrates) (cacheTtl : ℕ) (a b : EpgRequest)

/-- The same headers with the same values. -/
def SameHeaders : Prop := ∀ h, h ∈ a.upstreamHeaders ↔ h ∈ b.upstreamHeaders

/-- `b` is answered from the entry that `a` has stored. -/
def AnsweredFrom : Prop :=
  ∃ stored read body, stored ≤ read ∧
    b.lookUp crates (a.store crates (epgCache cacheTtl) stored body) read = some ⟨body, stored⟩

/-- Guides are shared by the requests that are the same, and only by them. -/
structure Isolated : Prop where
  apart : AnsweredFrom crates cacheTtl a b → a.destination = b.destination ∧ a.SameHeaders b
  together : a.destination = b.destination → a.SameHeaders b →
    a.cacheKey crates = b.cacheKey crates

/-- Both are to be cached. -/
def Cached : Prop := 0 < a.effectiveTtl ∧ 0 < b.effectiveTtl

/-- The destination of `a` is what the key of `b` looks like. -/
def LooksLikeKeyOf : Prop :=
  a.destination = b.destination ++ "|".toList ++ hexPadded 8 (fingerprint (b.headerRepr crates))

/-- **The condition.** Two requests for one guide that both have headers have the same fingerprint
exactly if the headers are the same, and the destination of a request without headers does not look
like the key of one with headers. -/
structure TellsApart : Prop where
  both : a.upstreamHeaders ≠ [] → b.upstreamHeaders ≠ [] → a.destination = b.destination →
    (a.SameHeaders b → fingerprint (a.headerRepr crates) = fingerprint (b.headerRepr crates)) ∧
    (a.Cached b → fingerprint (a.headerRepr crates) = fingerprint (b.headerRepr crates) →
      a.SameHeaders b)
  first : a.upstreamHeaders = [] → b.upstreamHeaders ≠ [] → a.Cached b →
    ¬ a.LooksLikeKeyOf crates b
  second : a.upstreamHeaders ≠ [] → b.upstreamHeaders = [] → a.Cached b →
    ¬ b.LooksLikeKeyOf crates a

end EpgRequest

/-- Whatever two queries ask for is isolated. -/
def EpgIsolated (crates : EpgCrates) (cacheTtl : ℕ) (query query' : List (Str × Str)) : Prop :=
  ∀ a b, EpgRequest.ofQuery crates cacheTtl query = .ok a →
    EpgRequest.ofQuery crates cacheTtl query' = .ok b → a.Isolated crates cacheTtl b

namespace EpgRequest

variable {crates : EpgCrates} {cacheTtl : ℕ} {a b : EpgRequest}

theorem cacheKey_of_nil (h : a.upstreamHeaders = []) : a.cacheKey crates = a.destination := if_pos h

theorem cacheKey_of_ne_nil (h : a.upstreamHeaders ≠ []) :
    a.cacheKey crates = a.destination ++ "|".toList ++ djb2Short (a.headerRepr crates) := if_neg h

/-- A hit is a hit of the key. -/
theorem answeredFrom_iff :
    AnsweredFrom crates cacheTtl a b ↔ a.Cached b ∧ a.cacheKey crates = b.cacheKey crates := by
  constructor
  · rintro ⟨stored, read, body, -, h⟩
    obtain ⟨hb, hlive⟩ := lookUp_eq_some_iff.mp h
    obtain ⟨hentry, -⟩ := LocalCache.live_eq_some_iff.mp hlive
    unfold store at hentry
    split at hentry
    · next ha =>
      -- the cache was empty, so the entry is the one of `a`
      obtain ⟨hkey, -⟩ | hold := LocalCache.entries_set_eq_some hentry
      · exact ⟨⟨ha, hb⟩, hkey.symm⟩
      · cases hold
    · cases hentry
  · rintro ⟨⟨ha, hb⟩, hkey⟩
    refine ⟨0, 0, [], le_rfl, lookUp_eq_some_iff.mpr ⟨hb, LocalCache.live_eq_some_iff.mpr ⟨?_, ?_⟩⟩⟩
    · unfold store
      rw [if_pos ha, ← hkey]
      exact Function.update_self ..
    · rw [store_timeToLive]
      show 0 < 0 + fromSecs (max cacheTtl 1)
      unfold fromSecs
      omega

theorem sameHeaders_of_nil (ha : a.upstreamHeaders = []) (hb : b.upstreamHeaders = []) :
    a.SameHeaders b := by
  intro h
  rw [ha, hb]

theorem not_sameHeaders_of_nil (ha : a.upstreamHeaders = []) (hb : b.upstreamHeaders ≠ []) :
    ¬ a.SameHeaders b := by
  intro h
  obtain ⟨x, hx⟩ := List.exists_mem_of_ne_nil _ hb
  have := (h x).mpr hx
  rw [ha] at this
  cases this

theorem SameHeaders.symm (h : a.SameHeaders b) : b.SameHeaders a := fun x => (h x).symm

/-- The hash has a fixed length, so a key can be taken apart. -/
theorem cacheKey_eq_iff (ha : a.upstreamHeaders ≠ []) (hb : b.upstreamHeaders ≠ []) :
    a.cacheKey crates = b.cacheKey crates ↔ a.destination = b.destination ∧
      fingerprint (a.headerRepr crates) = fingerprint (b.headerRepr crates) := by
  rw [cacheKey_of_ne_nil ha, cacheKey_of_ne_nil hb, ← djb2Short_inj]
  constructor
  · intro h
    obtain ⟨hdest, hhash⟩ := List.append_inj' h (by rw [length_djb2Short, length_djb2Short])
    exact ⟨List.append_cancel_right hdest, hhash⟩
  · rintro ⟨hdest, hhash⟩
    rw [hdest, hhash]

theorem cacheKey_eq_of_nil_iff (ha : a.upstreamHeaders = []) (hb : b.upstreamHeaders ≠ []) :
    a.cacheKey crates = b.cacheKey crates ↔ a.LooksLikeKeyOf crates b := by
  rw [cacheKey_of_nil ha, cacheKey_of_ne_nil hb, djb2Short_eq]
  rfl

/-- **Which requests are isolated from each other.** -/
theorem isolated_iff : a.Isolated crates cacheTtl b ↔ a.TellsApart crates b := by
  constructor
  · intro h
    refine ⟨fun ha hb hdest => ⟨fun hsame => ?_, fun hcached hprint => ?_⟩,
      fun ha hb hcached hlooks => ?_, fun ha hb hcached hlooks => ?_⟩
    · exact ((cacheKey_eq_iff ha hb).mp (h.together hdest hsame)).2
    · have hkey := (cacheKey_eq_iff ha hb).mpr ⟨hdest, hprint⟩
      exact (h.apart (answeredFrom_iff.mpr ⟨hcached, hkey⟩)).2
    · have hkey := (cacheKey_eq_of_nil_iff ha hb).mpr hlooks
      exact not_sameHeaders_of_nil ha hb (h.apart (answeredFrom_iff.mpr ⟨hcached, hkey⟩)).2
    · have hkey := (cacheKey_eq_of_nil_iff hb ha).mpr hlooks
      exact not_sameHeaders_of_nil hb ha
        (h.apart (answeredFrom_iff.mpr ⟨hcached, hkey.symm⟩)).2.symm
  · intro h
    -- by which of the two has headers
    by_cases ha : a.upstreamHeaders = [] <;> by_cases hb : b.upstreamHeaders = []
    · refine ⟨fun hfrom => ?_, fun hdest _ => ?_⟩
      · have hkey := (answeredFrom_iff.mp hfrom).2
        rw [cacheKey_of_nil ha, cacheKey_of_nil hb] at hkey
        exact ⟨hkey, sameHeaders_of_nil ha hb⟩
      · rw [cacheKey_of_nil ha, cacheKey_of_nil hb]
        exact hdest
    · refine ⟨fun hfrom => ?_, fun _ hsame => absurd hsame (not_sameHeaders_of_nil ha hb)⟩
      obtain ⟨hcached, hkey⟩ := answeredFrom_iff.mp hfrom
      exact absurd ((cacheKey_eq_of_nil_iff ha hb).mp hkey) (h.first ha hb hcached)
    · refine ⟨fun hfrom => ?_, fun _ hsame => absurd hsame.symm (not_sameHeaders_of_nil hb ha)⟩
      obtain ⟨hcached, hkey⟩ := answeredFrom_iff.mp hfrom
      exact absurd ((cacheKey_eq_of_nil_iff hb ha).mp hkey.symm) (h.second ha hb hcached)
    · refine ⟨fun hfrom => ?_, fun hdest hsame => ?_⟩
      · obtain ⟨hcached, hkey⟩ := answeredFrom_iff.mp hfrom
        obtain ⟨hdest, hprint⟩ := (cacheKey_eq_iff ha hb).mp hkey
        exact ⟨hdest, (h.both ha hb hdest).2 hcached hprint⟩
      · exact (cacheKey_eq_iff ha hb).mpr ⟨hdest, (h.both ha hb hdest).1 hsame⟩

end EpgRequest

/-- **Isolation of EPG requests** holds of two queries exactly if the condition holds of what they
ask for. -/
theorem epgIsolated_iff (crates : EpgCrates) (cacheTtl : ℕ) (query query' : List (Str × Str)) :
    EpgIsolated crates cacheTtl query query' ↔
      ∀ a b, EpgRequest.ofQuery crates cacheTtl query = .ok a →
        EpgRequest.ofQuery crates cacheTtl query' = .ok b → a.TellsApart crates b := by
  constructor
  · intro h a b ha hb
    exact EpgRequest.isolated_iff.mp (h a b ha hb)
  · intro h a b ha hb
    exact EpgRequest.isolated_iff.mpr (h a b ha hb)

/-! ### Two tokens with one key -/

/-- Crates for header names and values of ASCII letters and digits. No URL is in base64. -/
def asciiHeaders : EpgCrates where
  toTokenCrates := ⟨fun _ => .error [], fun _ _ _ => none, fun _ => none, fun _ => .error []⟩
  standardDecode _ := none
  urlSafeEncode _ := []
  encryptPadded _ _ _ := []
  writeProxyData _ := []
  parseUrl _ := none
  headerName s := if s = [] then none else some (s.map Char.toLower)
  headerValue s := some (utf8 s)
  toStr := fromUtf8

/-- The guide at `http://h/epg.xml`, with a token. -/
def guideWithToken (token : String) : List (Str × Str) :=
  [("d".toList, "http://h/epg.xml".toList), ("h_authorization".toList, "Bearer ".toList ++ token.toList)]

def guideRequest (token : String) : EpgRequest :=
  ⟨"http://h/epg.xml".toList, 3600, [("authorization".toList, utf8 ("Bearer ".toList ++ token.toList))]⟩

/-- Alice's guide is served to Bob. -/
theorem epgIsolated_fails :
    ¬ EpgIsolated asciiHeaders 3600 (guideWithToken "user-01") (guideWithToken "user-02") := by
  intro h
  have hfirst : EpgRequest.ofQuery asciiHeaders 3600 (guideWithToken "user-01") =
      .ok (guideRequest "user-01") := by decide +kernel
  have hsecond : EpgRequest.ofQuery asciiHeaders 3600 (guideWithToken "user-02") =
      .ok (guideRequest "user-02") := by decide +kernel
  have hkey : (guideRequest "user-01").cacheKey asciiHeaders =
      (guideRequest "user-02").cacheKey asciiHeaders := by decide +kernel
  have hfrom : (guideRequest "user-01").AnsweredFrom asciiHeaders 3600 (guideRequest "user-02") :=
    EpgRequest.answeredFrom_iff.mpr ⟨⟨by decide, by decide⟩, hkey⟩
  have hsame := ((h _ _ hfirst hsecond).apart hfrom).2
  have hmem := (hsame ("authorization".toList, utf8 "Bearer user-01".toList)).mp (by decide +kernel)
  exact absurd hmem (by decide +kernel)

end MediaFlow
