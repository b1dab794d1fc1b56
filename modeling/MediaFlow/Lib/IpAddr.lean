import MediaFlow.Lib.Text

/-!
# IP addresses

IPv4 and IPv6 addresses with the predicates and the parser of Rust's `core::net`. The parser is a
set of readers, each of which gives what it has read and the rest of the text.

* `parse_dotted`: the dotted decimal form of an IPv4 address is read back as that address;
* `parse_bracketed`: a text in square brackets is no address.
-/

namespace Net

open Text

structure Ipv4Addr where
  a : UInt8
  b : UInt8
  c : UInt8
  d : UInt8
deriving DecidableEq

/-- An IPv6 address, as eight segments of 16 bits. -/
structure Ipv6Addr where
  segments : Fin 8 → UInt16
deriving DecidableEq

inductive IpAddr where
  | v4 (addr : Ipv4Addr)
  | v6 (addr : Ipv6Addr)
deriving DecidableEq

/-! ### Kinds of addresses -/

namespace Ipv4Addr

def isLoopback (x : Ipv4Addr) : Bool := x.a = 127

def isPrivate (x : Ipv4Addr) : Bool :=
  x.a = 10 ∨ (x.a = 172 ∧ 16 ≤ x.b ∧ x.b ≤ 31) ∨ (x.a = 192 ∧ x.b = 168)

def isLinkLocal (x : Ipv4Addr) : Bool := x.a = 169 ∧ x.b = 254

def isUnspecified (x : Ipv4Addr) : Bool := x = ⟨0, 0, 0, 0⟩

def isMulticast (x : Ipv4Addr) : Bool := 224 ≤ x.a ∧ x.a ≤ 239

/-- Four decimal numbers with dots between them. -/
def dotted (x : Ipv4Addr) : Str :=
  Nat.toDigits 10 x.a.toNat ++ '.' :: (Nat.toDigits 10 x.b.toNat ++ '.' ::
    (Nat.toDigits 10 x.c.toNat ++ '.' :: Nat.toDigits 10 x.d.toNat))

end Ipv4Addr

namespace Ipv6Addr

instance : NeZero 16 := ⟨by decide⟩

/-- The byte at `i`, in network order. -/
def octet (x : Ipv6Addr) (i : Fin 16) : UInt8 :=
  let segment := x.segments ⟨i / 2, by omega⟩
  if i.val % 2 = 0 then (segment >>> 8).toUInt8 else segment.toUInt8

/-- The address with these segments; missing ones are 0. -/
def ofSegments (l : List UInt16) : Ipv6Addr := ⟨fun i => l.getD i 0⟩

def isUnspecified (x : Ipv6Addr) : Bool := x = ofSegments []

def isLoopback (x : Ipv6Addr) : Bool := x = ofSegments [0, 0, 0, 0, 0, 0, 0, 1]

def isMulticast (x : Ipv6Addr) : Bool := x.octet 0 = 0xff

/-- `fc00::/7`. -/
def isUniqueLocal (x : Ipv6Addr) : Bool := x.octet 0 &&& 0xfe = 0xfc

/-- `fe80::/10`. -/
def isUnicastLinkLocal (x : Ipv6Addr) : Bool := x.octet 0 = 0xfe ∧ x.octet 1 &&& 0xc0 = 0x80

/-- The IPv4 address that is mapped to `::ffff:a.b.c.d`. -/
def toIpv4Mapped (x : Ipv6Addr) : Option Ipv4Addr :=
  if (∀ i : Fin 5, x.segments (i.castLE (by omega)) = 0) ∧ x.segments 5 = 0xffff then
    some ⟨x.octet 12, x.octet 13, x.octet 14, x.octet 15⟩
  else none

end Ipv6Addr

/-! ### The parser -/

/-- `char::to_digit`, for a radix up to 16. -/
def toDigit (radix : ℕ) (c : Char) : Option ℕ := (hexDigit c).filter (· < radix)

def isDigit (radix : ℕ) (c : Char) : Bool := (toDigit radix c).isSome

/-- The number that is written by these digits. -/
def digitsValue (radix : ℕ) (digits : Str) : ℕ :=
  digits.foldl (fun n c => n * radix + (toDigit radix c).getD 0) 0

/-- A number below `bound`, of at most `maxDigits` digits. -/
def readNumber (radix maxDigits bound : ℕ) (allowZeroPrefix : Bool) (s : Str) :
    Option (ℕ × Str) :=
  let digits := s.takeWhile (isDigit radix)
  let n := digitsValue radix digits
  if digits = [] ∨ maxDigits < digits.length ∨ bound ≤ n then none
  else if allowZeroPrefix = false ∧ digits.head? = some '0' ∧ 1 < digits.length then none
  else some (n, s.dropWhile (isDigit radix))

def readGivenChar (given : Char) : Str → Option Str
  | [] => none
  | c :: rest => if c = given then some rest else none

/-- What `inner` reads, after a separator when it is not the first of its kind. -/
def readSeparator {α : Type*} (sep : Char) (index : ℕ) (inner : Str → Option (α × Str)) (s : Str) :
    Option (α × Str) :=
  if index > 0 then (readGivenChar sep s).bind inner else inner s

def readOctet (index : ℕ) (s : Str) : Option (ℕ × Str) :=
  readSeparator '.' index (readNumber 10 3 256 false) s

def readIpv4Addr (s : Str) : Option (Ipv4Addr × Str) := do
  let (a, s) ← readOctet 0 s
  let (b, s) ← readOctet 1 s
  let (c, s) ← readOctet 2 s
  let (d, s) ← readOctet 3 s
  return (⟨UInt8.ofNat a, UInt8.ofNat b, UInt8.ofNat c, UInt8.ofNat d⟩, s)

/-- The segments of the next groups, of which `limit` fit and the last `n` are still to be read, and
whether they end in an embedded IPv4 address. -/
def readGroups (limit : ℕ) : ℕ → Str → List UInt16 × Bool × Str
  | 0, s => ([], false, s)
  | n + 1, s =>
    let i := limit - (n + 1)
    -- an embedded IPv4 address takes two groups
    match if n > 0 then readSeparator ':' i readIpv4Addr s else none with
    | some (x, s) => ([x.a.toUInt16 <<< 8 ||| x.b.toUInt16, x.c.toUInt16 <<< 8 ||| x.d.toUInt16],
        true, s)
    | none =>
      match readSeparator ':' i (readNumber 16 4 65536 true) s with
      | none => ([], false, s)
      | some (group, s) =>
        let (groups, ipv4, s) := readGroups limit n s
        (UInt16.ofNat group :: groups, ipv4, s)

def readIpv6Addr (s : Str) : Option (Ipv6Addr × Str) :=
  let (head, headIpv4, s) := readGroups 8 8 s
  if head.length = 8 then some (.ofSegments head, s)
  else if headIpv4 then none
  else do
    let s ← readGivenChar ':' s
    let s ← readGivenChar ':' s
    let limit := 8 - (head.length + 1)
    let (tail, _, s) := readGroups limit limit s
    let zeros := List.replicate (8 - tail.length - head.length) 0
    return (.ofSegments (head ++ zeros ++ tail), s)

def readIpAddr (s : Str) : Option (IpAddr × Str) :=
  match readIpv4Addr s with
  | some (x, s) => some (.v4 x, s)
  | none => (readIpv6Addr s).map fun (x, s) => (.v6 x, s)

/-- `str::parse::<IpAddr>`: the whole text is an address. -/
def parseIpAddr (s : Str) : Option IpAddr := do
  let (addr, rest) ← readIpAddr s
  if rest = [] then some addr else none

/-! ### Reading back -/

/-- A rest that does not continue a number. -/
def NoDigitHead (radix : ℕ) (s : Str) : Prop := ∀ c ∈ s.head?, isDigit radix c = false

theorem takeWhile_digits {radix : ℕ} {digits rest : Str} (hd : ∀ c ∈ digits, isDigit radix c)
    (hrest : NoDigitHead radix rest) :
    (digits ++ rest).takeWhile (isDigit radix) = digits ∧
      (digits ++ rest).dropWhile (isDigit radix) = rest := by
  rw [List.takeWhile_append_of_pos hd, List.dropWhile_append_of_pos hd]
  cases rest with
  | nil => exact ⟨List.append_nil _, rfl⟩
  | cons c rest =>
    have hc := hrest c rfl
    rw [List.takeWhile_cons_of_neg (by rw [hc]; exact Bool.false_ne_true),
      List.dropWhile_cons_of_neg (by rw [hc]; exact Bool.false_ne_true)]
    exact ⟨List.append_nil _, rfl⟩

/-- What makes a text the decimal form of `n`: at most three digits, without a leading zero. -/
def IsOctetText (n : ℕ) (digits : Str) : Prop :=
  digits.all (isDigit 10) ∧ digits ≠ [] ∧ digits.length ≤ 3 ∧ digitsValue 10 digits = n ∧
    ¬ (digits.head? = some '0' ∧ 1 < digits.length)

instance (n : ℕ) (digits : Str) : Decidable (IsOctetText n digits) :=
  inferInstanceAs (Decidable (_ ∧ _))

theorem toDigits_octet {n : ℕ} (h : n < 256) : IsOctetText n (Nat.toDigits 10 n) := by
  have hall : ∀ hi lo : Fin 16,
      IsOctetText (16 * hi + lo) (Nat.toDigits 10 (16 * hi + lo)) := by
    decide +kernel
  have hn : 16 * (n / 16) + n % 16 = n := Nat.div_add_mod n 16
  rw [← hn]
  exact hall ⟨n / 16, by omega⟩ ⟨n % 16, by omega⟩

/-- Dotted decimal consists of digits and dots. -/
theorem mem_dotted {x : Ipv4Addr} {c : Char} (h : c ∈ x.dotted) : isDigit 10 c ∨ c = '.' := by
  have hoctet : ∀ y : UInt8, c ∈ Nat.toDigits 10 y.toNat → isDigit 10 c ∨ c = '.' :=
    fun y hc => .inl (List.all_eq_true.mp (toDigits_octet y.toNat_lt).1 c hc)
  unfold Ipv4Addr.dotted at h
  simp only [List.mem_append, List.mem_cons] at h
  rcases h with h | h | h | h | h | h | h
  · exact hoctet x.a h
  · exact .inr h
  · exact hoctet x.b h
  · exact .inr h
  · exact hoctet x.c h
  · exact .inr h
  · exact hoctet x.d h

theorem readNumber_octet (x : UInt8) {rest : Str} (hrest : NoDigitHead 10 rest) :
    readNumber 10 3 256 false (Nat.toDigits 10 x.toNat ++ rest) = some (x.toNat, rest) := by
  have hlt := x.toNat_lt
  obtain ⟨hd, hne, hlen, hval, hzero⟩ := toDigits_octet hlt
  obtain ⟨htake, hdrop⟩ := takeWhile_digits (List.all_eq_true.mp hd) hrest
  unfold readNumber
  simp only [htake, hdrop, hval]
  rw [if_neg fun hc => ?_, if_neg fun hc => hzero hc.2]
  rcases hc with hc | hc | hc
  · exact hne hc
  · omega
  · omega

theorem readOctet_dotted (x : UInt8) {rest : Str} (hrest : NoDigitHead 10 rest) (i : ℕ) :
    readOctet (i + 1) ('.' :: (Nat.toDigits 10 x.toNat ++ rest)) = some (x.toNat, rest) := by
  unfold readOctet readSeparator
  rw [if_pos (Nat.succ_pos i), readGivenChar, if_pos rfl, Option.bind_some, readNumber_octet x hrest]

/-- **An address in dotted decimal** is read back. -/
theorem parse_dotted (x : Ipv4Addr) : parseIpAddr x.dotted = some (.v4 x) := by
  have hdot : ∀ s : Str, NoDigitHead 10 ('.' :: s) := by
    intro s c hc
    rw [← Option.some.inj hc]
    decide
  have hend : NoDigitHead 10 [] := nofun
  have hread : readIpv4Addr x.dotted = some (x, []) := by
    have h₀ : readOctet 0 x.dotted = _ := readNumber_octet x.a (hdot _)
    have h₃ := readOctet_dotted x.d hend 2
    rw [List.append_nil] at h₃
    unfold readIpv4Addr
    rw [h₀]
    simp only [Option.bind_eq_bind, Option.bind_some, readOctet_dotted x.b (hdot _) 0,
      readOctet_dotted x.c (hdot _) 1, h₃, Option.pure_def, UInt8.ofNat_toNat]
  unfold parseIpAddr readIpAddr
  rw [hread]
  rfl

/-- **A text in square brackets** is no address. -/
theorem parse_bracketed (s : Str) : parseIpAddr ('[' :: s) = none := by
  have hdigit : isDigit 10 '[' = false ∧ isDigit 16 '[' = false := by decide
  have hnumber : ∀ radix maxDigits bound zero, isDigit radix '[' = false →
      readNumber radix maxDigits bound zero ('[' :: s) = none := by
    intro radix maxDigits bound zero h
    unfold readNumber
    rw [List.takeWhile_cons_of_neg (by rw [h]; exact Bool.false_ne_true)]
    exact if_pos (.inl rfl)
  have hv4 : readIpv4Addr ('[' :: s) = none := by
    have h : readOctet 0 ('[' :: s) = none := hnumber 10 3 256 false hdigit.1
    unfold readIpv4Addr
    rw [h]
    rfl
  have hgroups : readGroups 8 8 ('[' :: s) = ([], false, '[' :: s) := by
    have h : readSeparator ':' 0 (readNumber 16 4 65536 true) ('[' :: s) = none :=
      hnumber 16 4 65536 true hdigit.2
    have h' : readSeparator ':' 0 readIpv4Addr ('[' :: s) = none := hv4
    rw [readGroups]
    simp only [Nat.sub_self, h, h', ite_self]
  unfold parseIpAddr readIpAddr
  rw [hv4]
  unfold readIpv6Addr
  rw [hgroups]
  rfl

end Net
