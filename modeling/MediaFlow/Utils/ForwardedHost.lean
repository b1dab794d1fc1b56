import MediaFlow.Lib.Digits

/-!
# Forwarded hosts

`sanitize_forwarded_host` of `utils/url.rs`, which looks at the host name that a proxy in front of
the server sends along, before it is written into URLs. What it should accept is a grammar,
`ForwardedHost`. `validated_iff`: it accepts more in one place, where a port behind an IPv6 address
is left to the number reader, which takes a sign.
-/

open Text

namespace MediaFlow

/-- `str::rsplit_once` for one character. -/
def rsplitOnce (sep : Char) (s : Str) : Option (Str × Str) :=
  (splitOnce sep s.reverse).map fun p => (p.2.reverse, p.1.reverse)

/-- `str::parse::<u16>`. -/
def parseU16 (s : Str) : Option ℕ := (parseU64 s).filter (· < 2 ^ 16)

/-! ### The code

All tests are of bytes; a character outside ASCII has none of the bytes that are asked for. -/

/-- `u8::is_ascii_control` or `u8::is_ascii_whitespace`. -/
def isControlOrWhitespace (c : Char) : Bool := c.toNat < 32 || c.toNat = 127 || c = ' '

def isV6Char (c : Char) : Bool := (hexDigit c).isSome || c = ':' || c = '.'

def isNameChar (c : Char) : Bool := c.isAlphanum || c = '.' || c = '-'

def validOptionalPort (port : Str) : Bool :=
  if port = [] then true
  else match stripPrefix [':'] port with
    | some port => port ≠ [] && (parseU16 port).isSome
    | none => false

/-- The form with an IPv6 address, of which `rest` follows the bracket. -/
def sanitizeBracketed (value rest : Str) : Option Str := do
  let (inside, port) ← splitOnce ']' rest
  if inside = [] ∨ ¬ inside.all isV6Char then none
  else if ¬ validOptionalPort port then none
  else some value

/-- The name and its port. -/
def splitPort (value : Str) : Option (Str × Option Str) :=
  match rsplitOnce ':' value with
  | some (host, port) =>
    if port ≠ [] ∧ port.all Char.isDigit then some (host, some port) else none
  | none => some (value, none)

/-- The form with a name. -/
def sanitizeNamed (value : Str) : Option Str := do
  let (host, port) ← splitPort value
  if host = [] ∨ ¬ host.all isNameChar then none
  else if port.any fun port => (parseU16 port).isNone then none
  else some value

def sanitizeForwardedHost (value : Str) : Option Str :=
  if value = [] ∨ value.any isControlOrWhitespace ∨
      value.any ("/\\@?#".toList.contains ·) then none
  else
    match stripPrefix ['['] value with
    | some rest => sanitizeBracketed value rest
    | none => sanitizeNamed value

/-! ### The grammar -/

def IsHost (h : Str) : Prop := h ≠ [] ∧ ∀ c ∈ h, isNameChar c = true

def IsV6 (v : Str) : Prop := v ≠ [] ∧ ∀ c ∈ v, isV6Char c = true

def IsPort (p : Str) : Prop := ∃ n : Numeral, n.text = p ∧ n.value ≤ 65535

inductive ForwardedHost : Str → Prop
  | host {h : Str} : IsHost h → ForwardedHost h
  | hostPort {h p : Str} : IsHost h → IsPort p → ForwardedHost (h ++ ':' :: p)
  | v6 {v : Str} : IsV6 v → ForwardedHost ('[' :: (v ++ [']']))
  | v6Port {v p : Str} : IsV6 v → IsPort p → ForwardedHost ('[' :: (v ++ ']' :: ':' :: p))

/-- The port behind an IPv6 address is written with a plus sign. -/
def SignedPort (value : Str) : Prop :=
  ∃ v p, IsV6 v ∧ IsPort p ∧ value = '[' :: (v ++ ']' :: ':' :: '+' :: p)

/-- The value is returned if it is a forwarded host, and nothing if it is not. -/
structure ValidatedExactly (value : Str) : Prop where
  accepted : ForwardedHost value → sanitizeForwardedHost value = some value
  rejected : ¬ ForwardedHost value → sanitizeForwardedHost value = none

/-! ### Ports -/

variable {p value : Str}

theorem parseU16_isSome_iff :
    (parseU16 p).isSome = true ↔ IsPort p ∨ ∃ q, p = '+' :: q ∧ IsPort q := by
  unfold parseU16
  rw [Option.isSome_iff_exists]
  constructor
  · rintro ⟨k, hk⟩
    obtain ⟨hread, hlt⟩ := Option.filter_eq_some_iff.mp hk
    obtain ⟨-, n, rfl, htext⟩ := parseU64_eq_some_iff.mp hread
    have hmax : n.value ≤ 65535 := Nat.le_of_lt_succ (of_decide_eq_true hlt)
    rcases htext with rfl | rfl
    · exact .inl ⟨n, rfl, hmax⟩
    · exact .inr ⟨n.text, rfl, n, rfl, hmax⟩
  · intro h
    obtain ⟨n, hmax, htext⟩ : ∃ n : Numeral, n.value ≤ 65535 ∧
      (p = n.text ∨ p = '+' :: n.text) := by
      rcases h with ⟨n, rfl, hmax⟩ | ⟨_, rfl, n, rfl, hmax⟩
      · exact ⟨n, hmax, .inl rfl⟩
      · exact ⟨n, hmax, .inr rfl⟩
    refine ⟨n.value, Option.filter_eq_some_iff.mpr ⟨?_, decide_eq_true (Nat.lt_succ_of_le hmax)⟩⟩
    exact parseU64_eq_some_iff.mpr ⟨by omega, n, rfl, htext⟩

theorem IsPort.isDigit (h : IsPort p) : p ≠ [] ∧ p.all Char.isDigit = true := by
  obtain ⟨n, rfl, -⟩ := h
  exact ⟨n.text_ne_nil, n.all_isDigit⟩

/-- Where only digits are let through, the reader decides. -/
theorem isPort_iff : IsPort p ↔ (p ≠ [] ∧ p.all Char.isDigit = true) ∧
    (parseU16 p).isSome = true := by
  refine ⟨fun h => ⟨h.isDigit, parseU16_isSome_iff.mpr (.inl h)⟩, ?_⟩
  rintro ⟨⟨-, hall⟩, h⟩
  rcases parseU16_isSome_iff.mp h with h | ⟨q, rfl, -⟩
  · exact h
  · cases hall

theorem validOptionalPort_iff : validOptionalPort p = true ↔
    p = [] ∨ ∃ q, p = ':' :: q ∧ (IsPort q ∨ ∃ r, q = '+' :: r ∧ IsPort r) := by
  unfold validOptionalPort
  by_cases hp : p = []
  · rw [if_pos hp]
    exact iff_of_true rfl (.inl hp)
  rw [if_neg hp]
  cases hcolon : stripPrefix [':'] p with
  | none =>
    refine iff_of_false Bool.false_ne_true ?_
    rintro (h | ⟨q, rfl, -⟩)
    · exact hp h
    · have hsome : stripPrefix [':'] (':' :: q) = some q := stripPrefix_append [':'] q
      rw [hsome] at hcolon
      cases hcolon
  | some q =>
    obtain rfl : p = ':' :: q := stripPrefix_eq_some_iff.mp hcolon
    dsimp only
    rw [Bool.and_eq_true, decide_eq_true_iff, parseU16_isSome_iff]
    constructor
    · rintro ⟨-, h⟩
      exact .inr ⟨q, rfl, h⟩
    · rintro (h | ⟨_, heq, h⟩)
      · cases h
      cases heq
      refine ⟨?_, h⟩
      rcases h with h | ⟨r, rfl, -⟩
      · exact h.isDigit.1
      · exact List.cons_ne_nil _ _

/-! ### Characters -/

/-- The characters of the grammar, and the sign. -/
def isForwardedChar (c : Char) : Bool := isNameChar c || isV6Char c || "[]+".toList.contains c

variable {c : Char}

theorem hexDigit_toNat (h : (hexDigit c).isSome = true) : c.toNat < 128 := by
  unfold hexDigit at h
  dsimp only at h
  by_contra hge
  rw [if_neg (by omega), if_neg (by omega), if_neg (by omega)] at h
  cases h

theorem alphanum_toNat (h : c.isAlphanum = true) : c.toNat < 128 := by
  have hval : c.toNat = c.val.toNat := rfl
  unfold Char.isAlphanum Char.isAlpha Char.isUpper Char.isLower Char.isDigit at h
  simp [UInt32.le_iff_toNat_le] at h
  omega

theorem isForwardedChar_toNat (h : isForwardedChar c = true) : c.toNat < 128 := by
  unfold isForwardedChar isNameChar isV6Char at h
  simp only [Bool.or_eq_true, decide_eq_true_iff, List.contains_iff_mem] at h
  obtain (((h | rfl) | rfl) | ((h | rfl) | rfl)) | h := h
  · exact alphanum_toNat h
  · decide
  · decide
  · exact hexDigit_toNat h
  · decide
  · decide
  · rw [show "[]+".toList = ['[', ']', '+'] from rfl, List.mem_cons, List.mem_cons,
      List.mem_singleton] at h
    obtain rfl | rfl | rfl := h
    all_goals decide

/-- None of them is refused. -/
theorem not_refused (h : isForwardedChar c = true) :
    isControlOrWhitespace c = false ∧ "/\\@?#".toList.contains c = false := by
  have hall : ∀ n < 128, isForwardedChar (Char.ofNat n) = true →
      isControlOrWhitespace (Char.ofNat n) = false ∧
        "/\\@?#".toList.contains (Char.ofNat n) = false := by
    decide +kernel
  have hc := hall c.toNat (isForwardedChar_toNat h)
  rw [Char.ofNat_toNat] at hc
  exact hc h

theorem rsplitOnce_eq_some_iff {sep : Char} {s k v : Str} :
    rsplitOnce sep s = some (k, v) ↔ s = k ++ sep :: v ∧ sep ∉ v := by
  unfold rsplitOnce
  rw [Option.map_eq_some_iff]
  constructor
  · rintro ⟨⟨a, b⟩, hsplit, heq⟩
    cases heq
    obtain ⟨hs, ha⟩ := splitOnce_eq_some_iff.mp hsplit
    refine ⟨?_, fun h => ha (List.mem_reverse.mp h)⟩
    rw [← List.reverse_reverse s, hs, List.reverse_append, List.reverse_cons, List.append_assoc]
    rfl
  · rintro ⟨rfl, hv⟩
    refine ⟨(v.reverse, k.reverse), ?_, by rw [List.reverse_reverse, List.reverse_reverse]⟩
    rw [List.reverse_append, List.reverse_cons, List.append_assoc]
    exact splitOnce_of_not_mem (fun h => hv (List.mem_reverse.mp h)) k.reverse

theorem IsHost.not_mem {h : Str} (hh : IsHost h) (hc : isNameChar c = false) : c ∉ h :=
  fun hmem => Bool.false_ne_true (hc.symm.trans (hh.2 c hmem))

theorem IsV6.not_mem {v : Str} (hv : IsV6 v) (hc : isV6Char c = false) : c ∉ v :=
  fun hmem => Bool.false_ne_true (hc.symm.trans (hv.2 c hmem))

theorem IsPort.not_mem (hp : IsPort p) (hc : c.isDigit = false) : c ∉ p := by
  obtain ⟨n, rfl, -⟩ := hp
  exact n.not_mem hc

theorem isHost_iff : IsHost p ↔ ¬ (p = [] ∨ ¬ p.all isNameChar = true) := by
  unfold IsHost
  rw [not_or, not_not, List.all_eq_true]

theorem isV6_iff : IsV6 p ↔ ¬ (p = [] ∨ ¬ p.all isV6Char = true) := by
  unfold IsV6
  rw [not_or, not_not, List.all_eq_true]

/-! ### What is accepted -/

/-- A value of the grammar's characters passes the first test. -/
theorem not_refused_of_chars (hne : value ≠ [])
    (hchars : ∀ c ∈ value, isForwardedChar c = true) :
    ¬ (value = [] ∨ value.any isControlOrWhitespace = true ∨
      value.any ("/\\@?#".toList.contains ·) = true) := by
  rw [not_or, not_or, List.any_eq_true, List.any_eq_true]
  refine ⟨hne, ?_, ?_⟩
  · rintro ⟨c, hc, h⟩
    exact Bool.false_ne_true ((not_refused (hchars c hc)).1.symm.trans h)
  · rintro ⟨c, hc, h⟩
    exact Bool.false_ne_true ((not_refused (hchars c hc)).2.symm.trans h)

/-- What may stand behind the name or the address. -/
inductive PortPart : Str → Prop
  | none : PortPart []
  | port {p : Str} : IsPort p → PortPart (':' :: p)

theorem validOptionalPort_iff_portPart : validOptionalPort p = true ↔
    PortPart p ∨ ∃ q, p = ':' :: '+' :: q ∧ IsPort q := by
  rw [validOptionalPort_iff]
  constructor
  · rintro (rfl | ⟨q, rfl, h | ⟨r, rfl, h⟩⟩)
    · exact .inl .none
    · exact .inl (.port h)
    · exact .inr ⟨r, rfl, h⟩
  · rintro (h | ⟨q, rfl, h⟩)
    · cases h with
      | none => exact .inl rfl
      | port h => exact .inr ⟨_, rfl, .inl h⟩
    · exact .inr ⟨_, rfl, .inr ⟨q, rfl, h⟩⟩

theorem forwardedHost_iff : ForwardedHost value ↔
    (∃ h p, IsHost h ∧ PortPart p ∧ value = h ++ p) ∨
      ∃ v p, IsV6 v ∧ PortPart p ∧ value = '[' :: (v ++ ']' :: p) := by
  constructor
  · intro h
    cases h with
    | host h => exact .inl ⟨_, _, h, .none, (List.append_nil _).symm⟩
    | hostPort h hp => exact .inl ⟨_, _, h, .port hp, rfl⟩
    | v6 h => exact .inr ⟨_, _, h, .none, rfl⟩
    | v6Port h hp => exact .inr ⟨_, _, h, .port hp, rfl⟩
  · rintro (⟨h, p, hh, hp, rfl⟩ | ⟨v, p, hv, hp, rfl⟩)
    · cases hp with
      | none =>
        rw [List.append_nil]
        exact .host hh
      | port hp => exact .hostPort hh hp
    · cases hp with
      | none => exact .v6 hv
      | port hp => exact .v6Port hv hp

theorem sanitizeBracketed_eq_some_iff {rest w : Str} :
    sanitizeBracketed value rest = some w ↔
      w = value ∧ ∃ v p, IsV6 v ∧ validOptionalPort p = true ∧ rest = v ++ ']' :: p := by
  unfold sanitizeBracketed
  rw [Option.bind_eq_bind, Option.bind_eq_some_iff]
  constructor
  · rintro ⟨⟨v, p⟩, hsplit, h⟩
    dsimp only at h
    obtain ⟨hv, h⟩ := Option.ite_none_left_eq_some.mp h
    obtain ⟨hp, h⟩ := Option.ite_none_left_eq_some.mp h
    exact ⟨(Option.some.inj h).symm, v, p, isV6_iff.mpr hv, not_not.mp hp,
      (splitOnce_eq_some_iff.mp hsplit).1⟩
  · rintro ⟨rfl, v, p, hv, hp, rfl⟩
    refine ⟨(v, p), splitOnce_of_not_mem (hv.not_mem (by decide)) p, ?_⟩
    dsimp only
    rw [if_neg (isV6_iff.mp hv), if_neg (not_not.mpr hp)]

theorem rsplitOnce_eq_none_iff {sep : Char} {s : Str} : rsplitOnce sep s = none ↔ sep ∉ s := by
  refine ⟨fun h hmem => ?_, fun h => ?_⟩
  · exact not_mem_of_splitOnce_eq_none (Option.map_eq_none_iff.mp h) (List.mem_reverse.mpr hmem)
  rw [← Option.not_isSome_iff_eq_none, Option.isSome_iff_exists]
  rintro ⟨⟨k, v⟩, hsplit⟩
  rw [(rsplitOnce_eq_some_iff.mp hsplit).1] at h
  exact h (List.mem_append_right _ List.mem_cons_self)

/-- The port that is split off is one if the reader takes it. -/
theorem splitPort_eq_some_iff {h : Str} {port : Option Str} :
    splitPort value = some (h, port) ∧ port.any (fun p => (parseU16 p).isNone) = false ↔
      (port = none ∧ ':' ∉ value ∧ value = h) ∨ ∃ p, port = some p ∧ IsPort p ∧
          value = h ++ ':' :: p := by
  unfold splitPort
  constructor
  · rintro ⟨hsplit, hread⟩
    cases hcolon : rsplitOnce ':' value with
    | none =>
      rw [hcolon] at hsplit
      cases hsplit
      exact .inl ⟨rfl, rsplitOnce_eq_none_iff.mp hcolon, rfl⟩
    | some parts =>
      obtain ⟨k, p⟩ := parts
      rw [hcolon] at hsplit
      obtain ⟨hdigits, heq⟩ := Option.ite_none_right_eq_some.mp hsplit
      cases heq
      -- digits behind the last colon, which are read as a port
      have hsome : (parseU16 p).isSome = true := by
        rw [Option.any_some, ← Option.not_isSome, Bool.not_eq_false'] at hread
        exact hread
      exact .inr ⟨p, rfl, isPort_iff.mpr ⟨hdigits, hsome⟩, (rsplitOnce_eq_some_iff.mp hcolon).1⟩
  · rintro (⟨rfl, hcolon, rfl⟩ | ⟨p, rfl, hp, rfl⟩)
    · rw [rsplitOnce_eq_none_iff.mpr hcolon]
      exact ⟨rfl, rfl⟩
    · obtain ⟨hdigits, hsome⟩ := isPort_iff.mp hp
      rw [rsplitOnce_eq_some_iff.mpr ⟨rfl, hp.not_mem (by decide)⟩]
      dsimp only
      rw [if_pos hdigits, Option.any_some, ← Option.not_isSome, hsome]
      exact ⟨rfl, rfl⟩

theorem sanitizeNamed_eq_some_iff {w : Str} :
    sanitizeNamed value = some w ↔
      w = value ∧ ∃ h p, IsHost h ∧ PortPart p ∧ value = h ++ p := by
  unfold sanitizeNamed
  rw [Option.bind_eq_bind, Option.bind_eq_some_iff]
  constructor
  · rintro ⟨⟨host, port⟩, hsplit, h⟩
    dsimp only at h
    obtain ⟨hhost, h⟩ := Option.ite_none_left_eq_some.mp h
    obtain ⟨hport, h⟩ := Option.ite_none_left_eq_some.mp h
    refine ⟨(Option.some.inj h).symm, ?_⟩
    obtain ⟨-, -, rfl⟩ | ⟨p, -, hp, heq⟩ :=
      splitPort_eq_some_iff.mp ⟨hsplit, (Bool.not_eq_true _).mp hport⟩
    · exact ⟨value, [], isHost_iff.mpr hhost, .none, (List.append_nil _).symm⟩
    · exact ⟨host, ':' :: p, isHost_iff.mpr hhost, .port hp, heq⟩
  · rintro ⟨rfl, h, p, hh, hp, hvalue⟩
    -- the port is split off again
    obtain ⟨port, hsplit⟩ : ∃ port, splitPort w = some (h, port) ∧
        port.any (fun p => (parseU16 p).isNone) = false := by
      cases hp with
      | none =>
        rw [List.append_nil] at hvalue
        exact ⟨none, splitPort_eq_some_iff.mpr
          (.inl ⟨rfl, hvalue ▸ hh.not_mem (by decide), hvalue⟩)⟩
      | port hp => exact ⟨some _, splitPort_eq_some_iff.mpr (.inr ⟨_, rfl, hp, hvalue⟩)⟩
    refine ⟨(h, port), hsplit.1, ?_⟩
    dsimp only
    rw [if_neg (isHost_iff.mp hh), if_neg (by rw [hsplit.2]; exact Bool.false_ne_true)]

/-- The two forms, with what the code takes for a port. -/
theorem forms_iff : ForwardedHost value ∨ SignedPort value ↔
    (∃ h p, IsHost h ∧ PortPart p ∧ value = h ++ p) ∨
      ∃ v p, IsV6 v ∧ validOptionalPort p = true ∧ value = '[' :: (v ++ ']' :: p) := by
  rw [forwardedHost_iff]
  constructor
  · rintro ((h | ⟨v, p, hv, hp, rfl⟩) | ⟨v, p, hv, hp, rfl⟩)
    · exact .inl h
    · exact .inr ⟨v, p, hv, validOptionalPort_iff_portPart.mpr (.inl hp), rfl⟩
    · exact .inr ⟨v, _, hv, validOptionalPort_iff_portPart.mpr (.inr ⟨p, rfl, hp⟩), rfl⟩
  · rintro (h | ⟨v, p, hv, hp, rfl⟩)
    · exact .inl (.inl h)
    · obtain hp | ⟨q, rfl, hq⟩ := validOptionalPort_iff_portPart.mp hp
      · exact .inl (.inr ⟨v, p, hv, hp, rfl⟩)
      · exact .inr ⟨v, q, hv, hq, rfl⟩

/-- **No other characters** get through, but for the sign. -/
theorem isForwardedChar_of_accepted (h : ForwardedHost value ∨ SignedPort value) :
    ∀ c ∈ value, isForwardedChar c = true := by
  -- the parts of the forms have characters that are let through
  have hname : ∀ c, isNameChar c = true → isForwardedChar c = true := by
    intro c hc
    unfold isForwardedChar
    rw [hc, Bool.true_or, Bool.true_or]
  have haddress : ∀ c, isV6Char c = true → isForwardedChar c = true := by
    intro c hc
    unfold isForwardedChar
    rw [hc, Bool.or_true, Bool.true_or]
  have hport : ∀ q, IsPort q → ∀ c ∈ q, isForwardedChar c = true := by
    rintro q ⟨n, rfl, -⟩ c hc
    refine hname c ?_
    unfold isNameChar Char.isAlphanum
    rw [n.isDigit c hc, Bool.or_true, Bool.true_or, Bool.true_or]
  have hcolon : isForwardedChar ':' = true := by decide
  intro c hc
  rcases h with h | ⟨v, p, hv, hp, rfl⟩
  · cases h with
    | host hh => exact hname c (hh.2 c hc)
    | hostPort hh hp =>
      simp only [List.mem_append, List.mem_cons] at hc
      obtain hc | rfl | hc := hc
      · exact hname c (hh.2 c hc)
      · exact hcolon
      · exact hport _ hp c hc
    | v6 hv =>
      simp only [List.mem_cons, List.mem_append, List.not_mem_nil, or_false] at hc
      obtain rfl | hc | rfl := hc
      · decide
      · exact haddress c (hv.2 c hc)
      · decide
    | v6Port hv hp =>
      simp only [List.mem_cons, List.mem_append] at hc
      obtain rfl | hc | rfl | rfl | hc := hc
      · decide
      · exact haddress c (hv.2 c hc)
      · decide
      · exact hcolon
      · exact hport _ hp c hc
  · simp only [List.mem_cons, List.mem_append] at hc
    obtain rfl | hc | rfl | rfl | rfl | hc := hc
    · decide
    · exact haddress c (hv.2 c hc)
    · decide
    · exact hcolon
    · decide
    · exact hport p hp c hc

theorem ne_nil_of_accepted (h : ForwardedHost value ∨ SignedPort value) : value ≠ [] := by
  obtain ⟨h, p, hh, -, rfl⟩ | ⟨v, p, -, -, rfl⟩ := forms_iff.mp h
  · exact List.append_ne_nil_of_left_ne_nil hh.1 p
  · exact List.cons_ne_nil _ _

/-- **What is accepted**: the grammar, and an address with a signed port. -/
theorem sanitizeForwardedHost_eq_some_iff {w : Str} :
    sanitizeForwardedHost value = some w ↔ w = value ∧
        (ForwardedHost value ∨ SignedPort value) := by
  constructor
  · intro h
    obtain ⟨-, h⟩ := Option.ite_none_left_eq_some.mp h
    rw [forms_iff]
    cases hbracket : stripPrefix ['['] value with
    | some rest =>
      rw [hbracket] at h
      obtain ⟨rfl, v, p, hv, hp, rfl⟩ := sanitizeBracketed_eq_some_iff.mp h
      exact ⟨rfl, .inr ⟨v, p, hv, hp, stripPrefix_eq_some_iff.mp hbracket⟩⟩
    | none =>
      rw [hbracket] at h
      obtain ⟨rfl, h⟩ := sanitizeNamed_eq_some_iff.mp h
      exact ⟨rfl, .inl h⟩
  · rintro ⟨rfl, h⟩
    unfold sanitizeForwardedHost
    rw [if_neg (not_refused_of_chars (ne_nil_of_accepted h) (isForwardedChar_of_accepted h))]
    -- a name does not begin with a bracket
    obtain ⟨name, p, hh, hp, rfl⟩ | ⟨v, p, hv, hp, rfl⟩ := forms_iff.mp h
    · have hbracket : stripPrefix ['['] (name ++ p) = none := by
        refine if_neg fun hfirst => ?_
        obtain ⟨c, rest, rfl⟩ := List.exists_cons_of_ne_nil hh.1
        obtain ⟨_, heq⟩ := List.isPrefixOf_iff_prefix.mp hfirst
        have hc := hh.2 c List.mem_cons_self
        rw [← (List.cons.inj heq).1] at hc
        exact absurd hc (by decide)
      rw [hbracket]
      exact sanitizeNamed_eq_some_iff.mpr ⟨rfl, name, p, hh, hp, rfl⟩
    · have hbracket : stripPrefix ['['] ('[' :: (v ++ ']' :: p)) = some (v ++ ']' :: p) :=
        stripPrefix_append ['['] _
      rw [hbracket]
      exact sanitizeBracketed_eq_some_iff.mpr ⟨rfl, v, p, hv, hp, rfl⟩

/-- An address with a signed port is not in the grammar. -/
theorem not_forwardedHost_of_signedPort (h : SignedPort value) : ¬ ForwardedHost value := by
  obtain ⟨v, p, hv, hp, rfl⟩ := h
  rw [forwardedHost_iff]
  rintro (⟨name, q, hh, -, heq⟩ | ⟨u, q, hu, hq, heq⟩)
  · obtain ⟨c, rest, rfl⟩ := List.exists_cons_of_ne_nil hh.1
    have hc := hh.2 c List.mem_cons_self
    rw [← (List.cons.inj heq).1] at hc
    exact absurd hc (by decide)
  · -- what stands behind the address is the same
    have hsplit := splitOnce_of_not_mem (hv.not_mem (c := ']') (by decide)) (':' :: '+' :: p)
    rw [(List.cons.inj heq).2, splitOnce_of_not_mem (hu.not_mem (by decide))] at hsplit
    obtain ⟨rfl, rfl⟩ := Prod.mk.inj (Option.some.inj hsplit)
    cases hq with
    | port hq => exact hq.not_mem (c := '+') (by decide) List.mem_cons_self

/-- **Validation** is exact unless an address has a signed port. -/
theorem validated_iff (value : Str) : ValidatedExactly value ↔ ¬ SignedPort value := by
  constructor
  · intro h hsigned
    have hsome := sanitizeForwardedHost_eq_some_iff.mpr ⟨rfl, .inr hsigned⟩
    rw [h.rejected (not_forwardedHost_of_signedPort hsigned)] at hsome
    cases hsome
  · intro hsigned
    refine ⟨fun h => sanitizeForwardedHost_eq_some_iff.mpr ⟨rfl, .inl h⟩, fun h => ?_⟩
    rw [← Option.not_isSome_iff_eq_none, Option.isSome_iff_exists]
    rintro ⟨w, hw⟩
    exact (sanitizeForwardedHost_eq_some_iff.mp hw).2.elim h hsigned

/-- The reader of the port takes the sign. -/
theorem not_validated_signed : ¬ ValidatedExactly "[::1]:+80".toList := by
  have haddress : IsV6 "::1".toList := isV6_iff.mpr (by decide +kernel)
  have hport : IsPort "80".toList := ⟨numeral 80, rfl, (numeral_value 80).trans_le (by norm_num)⟩
  have hsigned : SignedPort "[::1]:+80".toList := ⟨_, _, haddress, hport, rfl⟩
  intro h
  have hnone := h.rejected (not_forwardedHost_of_signedPort hsigned)
  rw [sanitizeForwardedHost_eq_some_iff.mpr ⟨rfl, .inr hsigned⟩] at hnone
  cases hnone

end MediaFlow
