import MediaFlow.Lib.Bytes

/-!
# Runs of zeros

A byte string in which runs of zeros are written as a zero and their length. An encoder may split a
long run anywhere (`EncodesZeroRuns`); `expandZeroRuns_of_encodes` undoes each of them, and
`encodeZeroRuns` is one.
-/

namespace ByteString

/-- A zero with a length stands for so many zeros. A zero at the end stands for itself. -/
def expandZeroRuns : Bytes → Bytes
  | [] => []
  | [b] => [b]
  | b :: n :: rest =>
    if b = 0 then List.replicate n.toNat 0 ++ expandZeroRuns rest else b :: expandZeroRuns
        (n :: rest)

theorem expandZeroRuns_cons {b : UInt8} (h : b ≠ 0) (rest : Bytes) :
    expandZeroRuns (b :: rest) = b :: expandZeroRuns rest := by
  cases rest with
  | nil => rfl
  | cons n rest => rw [expandZeroRuns, if_neg h]

/-- The second string is the first with its zeros written in runs. -/
inductive EncodesZeroRuns : Bytes → Bytes → Prop
  | nil : EncodesZeroRuns [] []
  | byte {b : UInt8} (h : b ≠ 0) {data enc : Bytes} (hrest : EncodesZeroRuns data enc) :
    EncodesZeroRuns (b :: data) (b :: enc)
  | run {n : UInt8} (h : n ≠ 0) {data enc : Bytes} (hrest : EncodesZeroRuns data enc) :
    EncodesZeroRuns (List.replicate n.toNat 0 ++ data) (0 :: n :: enc)

/-- **Expanding undoes encoding.** -/
theorem expandZeroRuns_of_encodes {data enc : Bytes} (h : EncodesZeroRuns data enc) :
    expandZeroRuns enc = data := by
  induction h with
  | nil => rfl
  | byte hb _ ih => rw [expandZeroRuns_cons hb, ih]
  | run _ _ ih => rw [expandZeroRuns, if_pos rfl, ih]

/-- The encoder that makes runs as long as they can be, after `n` zeros. -/
def encodeZeroRunsFrom : ℕ → Bytes → Bytes
  | 0, [] => []
  | n + 1, [] => [0, UInt8.ofNat (n + 1)]
  | 0, b :: data => if b = 0 then encodeZeroRunsFrom 1 data else b :: encodeZeroRunsFrom 0 data
  | n + 1, b :: data =>
    if b ≠ 0 then 0 :: UInt8.ofNat (n + 1) :: b :: encodeZeroRunsFrom 0 data
    else if n + 1 = 255 then 0 :: 255 :: encodeZeroRunsFrom 1 data
    else encodeZeroRunsFrom (n + 2) data

def encodeZeroRuns (data : Bytes) : Bytes := encodeZeroRunsFrom 0 data

theorem encodes_run {n : ℕ} (hpos : 0 < n) (hle : n ≤ 255) {data enc : Bytes}
    (hrest : EncodesZeroRuns data enc) :
    EncodesZeroRuns (List.replicate n 0 ++ data) (0 :: UInt8.ofNat n :: enc) := by
  have hn : (UInt8.ofNat n).toNat = n := UInt8.toNat_ofNat_of_lt' (Nat.lt_succ_of_le hle)
  have hne : UInt8.ofNat n ≠ 0 := by
    intro h
    rw [h] at hn
    exact hpos.ne hn
  have hrun := EncodesZeroRuns.run hne hrest
  rwa [hn] at hrun

theorem encodes_encodeZeroRunsFrom {n : ℕ} (hle : n ≤ 255) (data : Bytes) :
    EncodesZeroRuns (List.replicate n 0 ++ data) (encodeZeroRunsFrom n data) := by
  induction data generalizing n with
  | nil =>
    cases n with
    | zero => exact .nil
    | succ n => exact encodes_run n.succ_pos hle .nil
  | cons b data ih =>
    cases n with
    | zero =>
      rw [encodeZeroRunsFrom]
      by_cases hb : b = 0
      · rw [if_pos hb, hb]
        exact ih (show 1 ≤ 255 by decide)
      · rw [if_neg hb]
        exact .byte hb (ih (Nat.zero_le _))
    | succ n =>
      rw [encodeZeroRunsFrom]
      by_cases hb : b = 0
      · rw [if_neg (not_not.mpr hb), hb]
        by_cases hfull : n + 1 = 255
        · rw [if_pos hfull, hfull]
          exact encodes_run (by decide) le_rfl (ih (show 1 ≤ 255 by decide))
        · have hzeros : List.replicate (n + 1) (0 : UInt8) ++ 0 :: data = List.replicate
            (n + 2) 0 ++ data := by
            rw [List.replicate_succ' (n := n + 1), List.append_assoc]
            rfl
          rw [if_neg hfull, hzeros]
          exact ih (by omega)
      · rw [if_pos hb]
        exact encodes_run n.succ_pos hle (.byte hb (ih (Nat.zero_le _)))

theorem encodes_encodeZeroRuns (data : Bytes) : EncodesZeroRuns data (encodeZeroRuns data) :=
  encodes_encodeZeroRunsFrom (Nat.zero_le _) data

end ByteString
