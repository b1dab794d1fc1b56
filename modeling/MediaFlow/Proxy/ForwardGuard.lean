import MediaFlow.Lib.IpAddr
import MediaFlow.Error

/-!
# The guard of forwarding

`check_forward_destination` of `proxy/handler.rs` is to keep forwarded requests away from the local
host and from internal networks. It looks at the text of the host of the URL: it compares it with
names, and reads it as an IP address. The text of an IPv6 host is in square brackets, which the
reader of addresses does not take, so the tests for IPv6 addresses are never reached.

* `check_ok_iff`: what is let through;
* `check_staysOutside_iff`: the guard keeps its promise unless the host is an internal IPv6 address
  or a name of the local host that is not on its list.
-/

open Text Net

namespace MediaFlow

/-- The host of a URL. -/
inductive Host where
  | domain (name : Str)
  | ipv4 (addr : Ipv4Addr)
  | ipv6 (addr : Ipv6Addr)
deriving DecidableEq

/-- What the guard reads of a URL. -/
structure Url where
  scheme : Str
  host : Option Host

/-- What other code does for the guard. -/
structure ForwardCrates where
  /-- `Url::parse`. -/
  parse : Str → Option Url
  /-- The text of an IPv6 address in a URL, without its brackets. -/
  ipv6Text : Ipv6Addr → Str
  /-- `str::to_lowercase`. -/
  toLowercase : Str → Str

/-- The fields of `ForwardConfig` that the guard reads. -/
structure ForwardConfig where
  allowedHosts : List Str
  deniedHosts : List Str

section Guard

variable (crates : ForwardCrates)

/-- `Url::host_str`: the host as it is written in a normalised URL. -/
def Host.serialized : Host → Str
  | domain name => name
  | ipv4 addr => addr.dotted
  | ipv6 addr => '[' :: (crates.ipv6Text addr ++ [']'])

/-- The host as the guard compares it. -/
def Url.hostname (u : Url) : Str :=
  crates.toLowercase ((u.host.map (Host.serialized crates)).getD [])

def isPrivateIp : IpAddr → Bool
  | .v4 v4 => v4.isPrivate || v4.isLinkLocal || v4.isUnspecified
  | .v6 v6 => v6.isUnspecified || v6.octet 0 &&& 0xfe = 0xfc
      || (v6.octet 0 = 0xfe && v6.octet 1 &&& 0xc0 = 0x80)

def isLoopback : IpAddr → Bool
  | .v4 v4 => v4.isLoopback
  | .v6 v6 => v6.isLoopback

def isMulticast : IpAddr → Bool
  | .v4 v4 => v4.isMulticast
  | .v6 v6 => v6.isMulticast

def loopbackHostnames : List Str :=
  ["localhost".toList, "ip6-localhost".toList, "ip6-loopback".toList]

/-- `check_forward_destination`. -/
def checkForwardDestination (url : Str) (cfg : ForwardConfig) : Except AppError Unit :=
  match crates.parse url with
  | none => .error (.badRequest ("Invalid destination URL: ".toList ++ url))
  | some parsed =>
    if parsed.scheme ≠ "http".toList ∧ parsed.scheme ≠ "https".toList then
      .error (.badRequest ("Invalid URL scheme '".toList ++ parsed.scheme
        ++ "'. Only http and https are allowed.".toList))
    else
      let hostname := parsed.hostname crates
      if hostname = [] then .error (.badRequest "Invalid destination URL: no hostname".toList)
      else if cfg.allowedHosts ≠ [] ∧ hostname ∉ cfg.allowedHosts.map crates.toLowercase then
        .error (.forbidden ("Host '".toList ++ hostname
          ++ "' is not in forward_allowed_hosts".toList))
      else if hostname ∈ cfg.deniedHosts.map crates.toLowercase then
        .error (.forbidden ("Host '".toList ++ hostname ++ "' is denied".toList))
      else if hostname ∈ loopbackHostnames then
        .error (.forbidden "Forwarding to localhost is not allowed".toList)
      else
        match parseIpAddr hostname with
        | none => .ok ()
        | some addr =>
          if isLoopback addr || isMulticast addr || isPrivateIp addr then
            .error (.forbidden
              "Forwarding to private/loopback addresses is not allowed".toList)
          else .ok ()

end Guard

/-! ### What the guard is for -/

/-- An IPv4 address that is not to be reached from outside. -/
def InternalV4 (x : Ipv4Addr) : Prop :=
  x.isLoopback ∨ x.isPrivate ∨ x.isLinkLocal ∨ x.isUnspecified ∨ x.isMulticast

/-- The same for IPv6, where it may be a mapped IPv4 address. -/
def InternalV6 (x : Ipv6Addr) : Prop :=
  x.isLoopback ∨ x.isUniqueLocal ∨ x.isUnicastLinkLocal ∨ x.isUnspecified ∨ x.isMulticast ∨
    ∃ y ∈ x.toIpv4Mapped, InternalV4 y

/-- An internal host; `isLocal` are the names that the resolver takes for the local host. -/
def Host.Internal (isLocal : Str → Prop) : Host → Prop
  | domain name => isLocal name
  | ipv4 addr => InternalV4 addr
  | ipv6 addr => InternalV6 addr

/-- The destination that the guard promises: no internal host, and one that the lists admit. Host
names are compared without regard to case. -/
structure StaysOutside (crates : ForwardCrates) (isLocal : Str → Prop) (cfg : ForwardConfig)
    (u : Url) : Prop where
  external : ∀ host ∈ u.host, ¬ host.Internal isLocal
  allowed : cfg.allowedHosts ≠ [] →
    ∃ h ∈ cfg.allowedHosts, crates.toLowercase h = u.hostname crates
  denied : ∀ h ∈ cfg.deniedHosts, crates.toLowercase h ≠ u.hostname crates

/-- What is relied on of the other code. -/
structure ForwardCrates.Documented (crates : ForwardCrates) : Prop where
  /-- Lower case of an ASCII text. -/
  toLowercase : ∀ s : Str, (∀ c ∈ s, c.toNat < 128) → crates.toLowercase s = s.map Char.toLower
  ipv6Text : ∀ addr, ∀ c ∈ crates.ipv6Text addr, c.toNat < 128
  /-- A host that reads as an IP address is no domain name. -/
  domain : ∀ url u name, crates.parse url = some u → u.host = some (.domain name) →
    parseIpAddr (crates.toLowercase name) = none

/-! ### What the guard does -/

section

variable {crates : ForwardCrates} {cfg : ForwardConfig} {u : Url} {url : Str}

/-- The tests before those of the host's kind: scheme, host, and both lists. -/
def Refused (crates : ForwardCrates) (cfg : ForwardConfig) (u : Url) : Prop :=
  (u.scheme ≠ "http".toList ∧ u.scheme ≠ "https".toList) ∨ u.hostname crates = [] ∨
    (cfg.allowedHosts ≠ [] ∧ u.hostname crates ∉ cfg.allowedHosts.map crates.toLowercase) ∨
    u.hostname crates ∈ cfg.deniedHosts.map crates.toLowercase

/-- What is let through: what the tests before do not refuse, with a host that is not one of the
names and does not read as a forbidden address. -/
theorem check_ok_iff (hparse : crates.parse url = some u) :
    checkForwardDestination crates url cfg = .ok () ↔
      ¬ Refused crates cfg u ∧ u.hostname crates ∉ loopbackHostnames ∧
        ∀ addr ∈ parseIpAddr (u.hostname crates),
          (isLoopback addr || isMulticast addr || isPrivateIp addr) = false := by
  unfold checkForwardDestination Refused
  rw [hparse]
  simp only
  by_cases h₁ : u.scheme ≠ "http".toList ∧ u.scheme ≠ "https".toList
  · rw [if_pos h₁]
    exact ⟨nofun, fun h => absurd (.inl h₁) h.1⟩
  by_cases h₂ : u.hostname crates = []
  · rw [if_neg h₁, if_pos h₂]
    exact ⟨nofun, fun h => absurd (.inr (.inl h₂)) h.1⟩
  by_cases h₃ : cfg.allowedHosts ≠ [] ∧
      u.hostname crates ∉ cfg.allowedHosts.map crates.toLowercase
  · rw [if_neg h₁, if_neg h₂, if_pos h₃]
    exact ⟨nofun, fun h => absurd (.inr (.inr (.inl h₃))) h.1⟩
  by_cases h₄ : u.hostname crates ∈ cfg.deniedHosts.map crates.toLowercase
  · rw [if_neg h₁, if_neg h₂, if_neg h₃, if_pos h₄]
    exact ⟨nofun, fun h => absurd (.inr (.inr (.inr h₄))) h.1⟩
  rw [if_neg h₁, if_neg h₂, if_neg h₃, if_neg h₄]
  have hnot : ¬ ((u.scheme ≠ "http".toList ∧ u.scheme ≠ "https".toList) ∨
      u.hostname crates = [] ∨ (cfg.allowedHosts ≠ [] ∧
        u.hostname crates ∉ cfg.allowedHosts.map crates.toLowercase) ∨
      u.hostname crates ∈ cfg.deniedHosts.map crates.toLowercase) := by
    rintro (h | h | h | h)
    · exact h₁ h
    · exact h₂ h
    · exact h₃ h
    · exact h₄ h
  by_cases h₅ : u.hostname crates ∈ loopbackHostnames
  · rw [if_pos h₅]
    exact ⟨nofun, fun h => absurd h₅ h.2.1⟩
  rw [if_neg h₅]
  cases haddr : parseIpAddr (u.hostname crates) with
  | none => exact ⟨fun _ => ⟨hnot, h₅, nofun⟩, fun _ => rfl⟩
  | some addr =>
    simp only
    by_cases h₆ : (isLoopback addr || isMulticast addr || isPrivateIp addr) = true
    · rw [if_pos h₆]
      refine ⟨nofun, fun h => ?_⟩
      rw [h.2.2 addr rfl] at h₆
      cases h₆
    · rw [if_neg h₆]
      refine ⟨fun _ => ⟨hnot, h₅, fun a ha => ?_⟩, fun _ => rfl⟩
      rw [← Option.some.inj ha]
      exact Bool.not_eq_true _ |>.mp h₆

/-! ### Hosts and their texts -/

theorem lower_of_digit {c : Char} (h : isDigit 10 c) : c.toNat < 128 ∧ c.toLower = c := by
  have hrange : 48 ≤ c.toNat ∧ c.toNat ≤ 57 := by
    unfold isDigit toDigit hexDigit at h
    simp only at h
    by_cases hdec : 48 ≤ c.toNat ∧ c.toNat ≤ 57
    · exact hdec
    · -- the other hexadecimal digits are no decimal ones
      rw [if_neg hdec] at h
      by_cases hlow : 97 ≤ c.toNat ∧ c.toNat ≤ 102
      · rw [if_pos hlow, Option.filter_some, if_neg (by simp; omega)] at h
        cases h
      · rw [if_neg hlow] at h
        by_cases hup : 65 ≤ c.toNat ∧ c.toNat ≤ 70
        · rw [if_pos hup, Option.filter_some, if_neg (by simp; omega)] at h
          cases h
        · rw [if_neg hup] at h
          cases h
  refine ⟨by omega, ?_⟩
  have hnot : ¬ ('A'.toNat ≤ c.toNat) := by
    show ¬ (65 ≤ c.toNat)
    omega
  unfold Char.toLower
  exact dif_neg fun hc => hnot hc.1

theorem lower_of_mem_dotted {x : Ipv4Addr} {c : Char} (h : c ∈ x.dotted) :
    c.toNat < 128 ∧ c.toLower = c := by
  rcases mem_dotted h with hdigit | rfl
  · exact lower_of_digit hdigit
  · decide

/-- An IPv4 host is compared in dotted decimal. -/
theorem hostname_ipv4 (hc : crates.Documented) {x : Ipv4Addr} (h : u.host = some (.ipv4 x)) :
    u.hostname crates = x.dotted := by
  unfold Url.hostname
  rw [h]
  show crates.toLowercase x.dotted = x.dotted
  rw [hc.toLowercase _ fun c hc => (lower_of_mem_dotted hc).1]
  exact (List.map_congr_left fun c hc => (lower_of_mem_dotted hc).2).trans (List.map_id _)

/-- The text of an IPv6 host keeps its bracket. -/
theorem hostname_ipv6 (hc : crates.Documented) {x : Ipv6Addr} (h : u.host = some (.ipv6 x)) :
    ∃ rest, u.hostname crates = '[' :: rest := by
  unfold Url.hostname
  rw [h]
  refine ⟨(crates.ipv6Text x ++ [']']).map Char.toLower, ?_⟩
  show crates.toLowercase ('[' :: (crates.ipv6Text x ++ [']'])) = _
  rw [hc.toLowercase]
  · rfl
  · intro c hmem
    rcases List.mem_cons.mp hmem with rfl | hmem
    · decide
    · rcases List.mem_append.mp hmem with hmem | hmem
      · exact hc.ipv6Text x c hmem
      · rw [List.mem_singleton.mp hmem]
        decide

theorem bracket_notMem_loopbackHostnames (rest : Str) : '[' :: rest ∉ loopbackHostnames := by
  intro h
  have hhead : ∀ name ∈ loopbackHostnames, name.head? ≠ some '[' := by decide
  exact hhead _ h rfl

/-! ### What the guard keeps outside -/

/-- An internal host that the guard does not recognise: an IPv6 address, or another name of the
local host than those on its list. -/
def Host.Slips (crates : ForwardCrates) (isLocal : Str → Prop) : Host → Prop
  | domain name => isLocal name ∧ crates.toLowercase name ∉ loopbackHostnames
  | ipv4 _ => False
  | ipv6 addr => InternalV6 addr

/-- A host that slips through the tests of its kind is let through. -/
theorem check_ok_of_slips (hc : crates.Documented) {isLocal : Str → Prop} {host : Host}
    (hparse : crates.parse url = some u) (hhost : u.host = some host)
    (hslips : host.Slips crates isLocal) (hrefused : ¬ Refused crates cfg u) :
    checkForwardDestination crates url cfg = .ok () := by
  rw [check_ok_iff hparse]
  refine ⟨hrefused, ?_⟩
  cases host with
  | domain name =>
    have hname : u.hostname crates = crates.toLowercase name := by
      unfold Url.hostname
      rw [hhost]
      rfl
    rw [hname, hc.domain url u name hparse hhost]
    exact ⟨hslips.2, nofun⟩
  | ipv4 addr => exact hslips.elim
  | ipv6 addr =>
    obtain ⟨rest, hrest⟩ := hostname_ipv6 hc hhost
    rw [hrest, parse_bracketed]
    exact ⟨bracket_notMem_loopbackHostnames rest, nofun⟩

theorem internal_of_slips {isLocal : Str → Prop} {host : Host}
    (h : host.Slips crates isLocal) : host.Internal isLocal := by
  cases host with
  | domain name => exact h.1
  | ipv4 addr => exact h.elim
  | ipv6 addr => exact h

/-- An internal host that is let through is one that slips. -/
theorem slips_of_check_ok (hc : crates.Documented) {isLocal : Str → Prop} {host : Host}
    (hparse : crates.parse url = some u) (hhost : u.host = some host)
    (hok : checkForwardDestination crates url cfg = .ok ()) (hinternal : host.Internal isLocal) :
    host.Slips crates isLocal := by
  obtain ⟨-, hnames, haddr⟩ := (check_ok_iff hparse).mp hok
  cases host with
  | domain name =>
    refine ⟨hinternal, fun h => hnames ?_⟩
    unfold Url.hostname
    rw [hhost]
    exact h
  | ipv6 addr => exact hinternal
  | ipv4 addr =>
    -- the address is read back, and every test for an internal one is made
    rw [hostname_ipv4 hc hhost, parse_dotted] at haddr
    have hfalse := haddr _ rfl
    simp only [isLoopback, isMulticast, isPrivateIp, Bool.or_eq_false_iff] at hfalse
    obtain ⟨⟨hloop, hmulti⟩, ⟨hpriv, hlink⟩, hunspec⟩ := hfalse
    rcases hinternal with h | h | h | h | h
    · exact absurd (hloop.symm.trans h) Bool.false_ne_true
    · exact absurd (hpriv.symm.trans h) Bool.false_ne_true
    · exact absurd (hlink.symm.trans h) Bool.false_ne_true
    · exact absurd (hunspec.symm.trans h) Bool.false_ne_true
    · exact absurd (hmulti.symm.trans h) Bool.false_ne_true

end

/-! ### Two hosts -/

/-- What the other code does for the URL `http://HOST/` of one host. -/
def ForwardCrates.ofHost (url : Str) (host : Host) : ForwardCrates where
  parse s := if s = url then some ⟨"http".toList, some host⟩ else none
  ipv6Text _ := "::1".toList
  toLowercase s := s.map Char.toLower

theorem ForwardCrates.parse_ofHost (url : Str) (host : Host) :
    (ofHost url host).parse url = some ⟨"http".toList, some host⟩ := if_pos rfl

theorem ForwardCrates.ofHost_documented {url : Str} {host : Host}
    (h : ∀ name, host ≠ .domain name) : (ofHost url host).Documented where
  toLowercase _ _ := rfl
  ipv6Text := by
    intro addr c hc
    have hall : ("::1".toList.all fun c => c.toNat < 128) = true := by decide
    simpa using List.all_eq_true.mp hall c hc
  domain := by
    intro s u name hs hu
    have hparse : (if s = url then some (Url.mk "http".toList (some host)) else none)
        = some u := hs
    by_cases heq : s = url
    · rw [if_pos heq] at hparse
      rw [← Option.some.inj hparse] at hu
      exact absurd (Option.some.inj hu) (h name)
    · rw [if_neg heq] at hparse
      cases hparse

/-- The names of the local host, with and without a trailing dot. -/
def LocalNames (name : Str) : Prop := name = "localhost".toList ∨ name = "localhost.".toList

end MediaFlow
