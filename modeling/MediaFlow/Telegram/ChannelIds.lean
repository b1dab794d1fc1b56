import MediaFlow.Telegram.MediaRef

/-!
# Channels of private links

The handler refers to the channel of a private link by `-100` and its id, however many digits that
has; the resolver takes `10^9` off. What is left is the id exactly if it has seven digits
(`linkAddressesChannel_iff`): shorter ones are taken for basic groups, and of longer ones too much is
left.
-/

open Text

namespace MediaFlow

/-- How a link may begin. -/
inductive LinkScheme
  | bare
  | http
  | https

def LinkScheme.text : LinkScheme → Str
  | bare => []
  | http => "http://".toList
  | https => "https://".toList

/-- A private link to a message of a channel. -/
def privateLink (scheme : LinkScheme) (id msg : ℕ) : Str :=
  scheme.text ++ ("t.me/c/".toList ++ (decimal id ++ '/' :: decimal msg))

section Parse

variable {isDecimal : Char → Bool} {s : Str}

theorem decimalsAt_numeral (hdecimal : ∀ c : Char, c.toNat < 128 → isDecimal c = c.isDigit)
    (n : Numeral) (hs : s.head?.all fun c => !isDecimal c) :
    decimalsAt isDecimal (n.text ++ s) = some (n.text, s) := by
  have hdigits : ∀ c ∈ n.text, isDecimal c = true := by
    intro c hc
    have hdigit := n.isDigit c hc
    rw [hdecimal c, hdigit]
    simp only [Char.isDigit, Bool.and_eq_true, decide_eq_true_eq] at hdigit
    have hle : c.toNat ≤ 57 := hdigit.2
    omega
  have hstop : s.takeWhile isDecimal = [] ∧ s.dropWhile isDecimal = s := by
    cases s with
    | nil => exact ⟨rfl, rfl⟩
    | cons c s =>
      have hc : ¬ isDecimal c = true := by simpa using hs
      exact ⟨List.takeWhile_cons_of_neg hc, List.dropWhile_cons_of_neg hc⟩
  have htake : (n.text ++ s).takeWhile isDecimal = n.text := by
    rw [List.takeWhile_append_of_pos hdigits, hstop.1, List.append_nil]
  have hdrop : (n.text ++ s).dropWhile isDecimal = s := by
    rw [List.dropWhile_append_of_pos hdigits, hstop.2]
  rw [decimalsAt, htake, hdrop, if_neg n.text_ne_nil]

theorem privateLinkAt_link (hdecimal : ∀ c : Char, c.toNat < 128 → isDecimal c = c.isDigit)
    (id msg : ℕ) :
    privateLinkAt isDecimal ("t.me/c/".toList ++ (decimal id ++ '/' :: decimal msg))
      = some (decimal id, decimal msg) := by
  have hslash : isDecimal '/' = false := hdecimal '/' (by decide)
  have hid : decimalsAt isDecimal (decimal id ++ '/' :: decimal msg)
      = some (decimal id, '/' :: decimal msg) :=
    decimalsAt_numeral hdecimal (numeral id) (by simp [hslash])
  have hmsg : decimalsAt isDecimal (decimal msg) = some (decimal msg, []) := by
    have happend : decimalsAt isDecimal (decimal msg ++ []) = some (decimal msg, []) :=
      decimalsAt_numeral hdecimal (numeral msg) rfl
    rwa [List.append_nil] at happend
  have hrest : stripPrefix ['/'] ('/' :: decimal msg) = some (decimal msg) :=
    stripPrefix_append ['/'] (decimal msg)
  unfold privateLinkAt
  rw [stripPrefix_append]
  simp only [Option.bind_eq_bind, Option.bind_some, hid, hrest, hmsg]
  rfl

/-- No link begins in what stands before it. -/
theorem privateLinkAt_scheme (scheme : LinkScheme) (t : Str) :
    ∀ v ∈ scheme.text.tails, v ≠ [] → privateLinkAt isDecimal (v ++ 't' :: t) = none := by
  intro v hv hne
  have hstart : ¬ ['t', '.'] <+: v ++ ['t'] := by
    have hall : ∀ scheme : LinkScheme, ∀ v ∈ scheme.text.tails, v ≠ [] → ¬ ['t', '.'] <+: v ++ ['t'] := by
      rintro (_ | _ | _) <;> decide
    exact hall scheme v hv hne
  have hstrip : stripPrefix "t.me/c/".toList (v ++ 't' :: t) = none := by
    refine if_neg fun hprefix => hstart ?_
    have hfirst : ['t', '.'] <+: "t.me/c/".toList := ⟨"me/c/".toList, rfl⟩
    have hlength : ['t', '.'].length ≤ (v ++ ['t']).length := by
      rw [List.length_append]
      exact Nat.succ_le_succ (List.length_pos_of_ne_nil hne)
    refine List.prefix_of_prefix_length_le
      (hfirst.trans (List.isPrefixOf_iff_prefix.mp hprefix)) ?_ hlength
    exact ⟨t, List.append_assoc v ['t'] t⟩
  unfold privateLinkAt
  rw [hstrip]
  rfl

theorem parseTelegramUrl_privateLink
    (hdecimal : ∀ c : Char, c.toNat < 128 → isDecimal c = c.isDigit) (scheme : LinkScheme) {id msg : ℕ}
    (hid : id < 2 ^ 63) (hmsg : msg < 2 ^ 63) :
    parseTelegramUrl isDecimal (privateLink scheme id msg) = some (.message (.id id) msg) := by
  have hfound : searchFrom (privateLinkAt isDecimal) (privateLink scheme id msg)
      = some (decimal id, decimal msg) :=
    searchFrom_append (privateLinkAt_scheme scheme _) (privateLinkAt_link hdecimal id msg)
  have hparse (k : ℕ) (hk : k < 2 ^ 63) : parseI64 (decimal k) = some (k : ℤ) := by
    rw [← numeral_text, Numeral.parseI64_text, numeral_value, if_pos hk]
  unfold parseTelegramUrl
  rw [hfound]
  dsimp only
  rw [hparse id hid, hparse msg hmsg]
  rfl

end Parse

/-! ### The reference to a channel -/

section Reference

variable {id : ℕ}

/-- What stands behind the minus sign. -/
def markedId (id : ℕ) : Numeral where
  text := ['1', '0', '0'] ++ decimal id
  text_ne_nil := List.cons_ne_nil _ _
  isDigit c hc := by
    obtain hc | hc := List.mem_append.mp hc
    · have hall : ['1', '0', '0'].all Char.isDigit = true := rfl
      exact List.all_eq_true.mp hall c hc
    · exact (numeral id).isDigit c hc

theorem effectiveChat_id (hid : 1 ≤ id) : effectiveChat (.id id) = '-' :: (markedId id).text := by
  have hpos : (id : ℤ) > 0 := by exact_mod_cast hid
  have hdecimal : decimalI64 id = decimal id := if_neg (not_lt.mpr (Int.natCast_nonneg id))
  rw [effectiveChat, if_pos hpos, hdecimal]
  rfl

theorem markedId_value : (markedId id).value = 100 * 10 ^ (decimal id).length + id := by
  have hid : Nat.ofDigitChars 10 (decimal id) 0 = id := numeral_value id
  calc (markedId id).value
      = Nat.ofDigitChars 10 (decimal id) (Nat.ofDigitChars 10 ['1', '0', '0'] 0) :=
        Nat.ofDigitChars_append 0
    _ = 10 ^ (decimal id).length * 100 + Nat.ofDigitChars 10 (decimal id) 0 :=
        Nat.ofDigitChars_eq_ofDigitChars_zero
    _ = 100 * 10 ^ (decimal id).length + id := by rw [hid, Nat.mul_comm]

/-- The number of digits, by the size. -/
theorem length_decimal_le_iff {k : ℕ} (hk : 0 < k) : (decimal id).length ≤ k ↔ id < 10 ^ k :=
  Nat.length_toDigits_le_iff (by decide) hk

end Reference

/-! ### The peer -/

section Peer

variable {channelAccessHash : ℤ → Option ℤ} {resolveUsername : Str → Option InputPeer} {id : ℕ}

/-- What the resolver makes of a marked id. -/
theorem resolvePeerFromStr_marked (hid : 1 ≤ id) (hlt : id < 10 ^ 12) :
    resolvePeerFromStr channelAccessHash resolveUsername (effectiveChat (.id id))
      = if (markedId id).value > 1000000000 then
          some (.channel ((markedId id).value - 1000000000)
            ((channelAccessHash ((markedId id).value - 1000000000)).getD 0))
        else some (.chat (markedId id).value) := by
  have hlength : (decimal id).length ≤ 12 := (length_decimal_le_iff (by decide)).mpr hlt
  have hpow : 10 ^ (decimal id).length ≤ 10 ^ 12 := Nat.pow_le_pow_right (by decide) hlength
  have hvalue : (markedId id).value < 2 ^ 63 := by
    rw [markedId_value]
    omega
  have hpos : 0 < (markedId id).value := by
    rw [markedId_value]
    omega
  have habs : (if -((markedId id).value : ℤ) = -2 ^ 63 then -((markedId id).value : ℤ)
      else - -((markedId id).value : ℤ)) = (markedId id).value := by
    rw [if_neg (by omega), neg_neg]
  have hstrip : ('-' :: (markedId id).text).dropWhile (· = '@') = '-' :: (markedId id).text := rfl
  unfold resolvePeerFromStr
  rw [effectiveChat_id hid]
  dsimp only
  rw [hstrip, Numeral.parseI64_neg, if_pos hvalue.le]
  dsimp only
  rw [if_pos (by omega), habs]
  by_cases hchannel : (markedId id).value > 1000000000
  · rw [if_pos hchannel, if_pos (by exact_mod_cast hchannel)]
  · rw [if_neg hchannel, if_neg (by exact_mod_cast hchannel)]

/-- The request for a private link is one to its channel. -/
def LinkAddressesChannel (isDecimal : Char → Bool) (channelAccessHash : ℤ → Option ℤ)
    (resolveUsername : Str → Option InputPeer) (scheme : LinkScheme) (id msg : ℕ) : Prop :=
  ∃ accessHash, (requestChat isDecimal none (privateLink scheme id msg)).bind
    (resolvePeerFromStr channelAccessHash resolveUsername) = some (.channel id accessHash)

/-- **A private link leads to its channel** exactly if the id has seven digits. -/
theorem linkAddressesChannel_iff {isDecimal : Char → Bool} {scheme : LinkScheme} {msg : ℕ}
    (hdecimal : ∀ c : Char, c.toNat < 128 → isDecimal c = c.isDigit) (hid : 1 ≤ id)
    (hlt : id < 10 ^ 12) (hmsg : msg < 2 ^ 63) :
    LinkAddressesChannel isDecimal channelAccessHash resolveUsername scheme id msg
      ↔ (decimal id).length = 7 := by
  have hrequest : requestChat isDecimal none (privateLink scheme id msg)
      = some (effectiveChat (.id id)) := by
    unfold requestChat
    rw [parseTelegramUrl_privateLink hdecimal scheme (hlt.trans (by decide)) hmsg]
    rfl
  unfold LinkAddressesChannel
  rw [hrequest, Option.bind_some, resolvePeerFromStr_marked hid hlt]
  have hvalue : (markedId id).value = 100 * 10 ^ (decimal id).length + id := markedId_value
  constructor
  · rintro ⟨hash, h⟩
    by_cases hchannel : (markedId id).value > 1000000000
    · -- what is left is the id
      rw [if_pos hchannel] at h
      have hleft : ((markedId id).value : ℤ) - 1000000000 = id := by
        injection h with h
        injection h
      have hpow : 10 ^ (decimal id).length = 10 ^ 7 := by omega
      exact Nat.pow_right_injective (show 2 ≤ 10 by decide) hpow
    · rw [if_neg hchannel] at h
      cases h
  · intro hlength
    rw [hlength] at hvalue
    have hleft : ((markedId id).value : ℤ) - 1000000000 = id := by omega
    rw [if_pos (by omega), hleft]
    exact ⟨_, rfl⟩

theorem linkAddressesChannel_sevenDigits :
    LinkAddressesChannel Char.isDigit (fun _ => none) (fun _ => none) .https 1234567 42 :=
  (linkAddressesChannel_iff (fun _ _ => rfl) (by decide) (by decide) (by decide)).mpr (by decide)

/-- An id of ten digits is not the channel that is asked for. -/
theorem not_linkAddressesChannel :
    ¬ LinkAddressesChannel Char.isDigit (fun _ => none) (fun _ => none) .https 1234567890 42 := by
  rintro ⟨hash, h⟩
  have hpeer : (requestChat Char.isDigit none (privateLink .https 1234567890 42)).bind
      (resolvePeerFromStr (fun _ => none) fun _ => none)
        = some (.channel 1000234567890 0) := by decide +kernel
  rw [hpeer] at h
  cases h

end Peer

end MediaFlow
