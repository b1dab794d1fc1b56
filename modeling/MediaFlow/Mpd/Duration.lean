import MediaFlow.Lib.Loop
import MediaFlow.Lib.Slices
import MediaFlow.Mpd.FixedPoint

/-!
# Durations as they are read

`parse_duration` of `mpd/timeline.rs` with its two loops, and the slices of the text that they go
along: `runParseDuration`. It ends on every text without a slice inside of a character, with the
value of `parseDuration` (`parseDuration_returns`). An ISO 8601 duration (`IsoDuration`) is read as
the seconds that it stands for.

* `durations_read`: both together.
-/

open Text UrlCoding Loop

namespace MediaFlow

/-! ### The code, with its slices -/

/-- `next_value`, which aborts where a slice does. -/
def nextValueSliced (s : Str) : Option (Option (ℚ × Str × Char)) :=
  match (charIndices s).find? fun q => !(q.2.isDigit || q.2 = '.') with
  | none => some none
  | some (stop, _) => do
    let numStr ← sliceTo s stop
    let tail ← sliceFrom s stop
    match tail.head? with
    | none => return none
    | some designator =>
      match parseDecimal numStr with
      | none => return none
      | some val =>
        let rem ← sliceFrom s (stop + lenUtf8 designator)
        return some (val, rem, designator)

/-- The six variables of `parse_duration`. -/
structure DurationParts where
  years : ℚ := 0
  months : ℚ := 0
  days : ℚ := 0
  hours : ℚ := 0
  minutes : ℚ := 0
  secs : ℚ := 0

/-- A date designator: `Y`, `M` or `D`. -/
def DurationParts.setDate (d : DurationParts) (val : ℚ) : Char → DurationParts
  | 'Y' => { d with years := val }
  | 'M' => { d with months := val }
  | 'D' => { d with days := val }
  | _ => d

/-- A time designator: `H`, `M` or `S`. -/
def DurationParts.setTime (d : DurationParts) (val : ℚ) : Char → DurationParts
  | 'H' => { d with hours := val }
  | 'M' => { d with minutes := val }
  | 'S' => { d with secs := val }
  | _ => d

/-- A pass of one of the two loops, which differ in what they do with a value. -/
def valuePass (set : DurationParts → ℚ → Char → DurationParts) :
    Body (Str × DurationParts) DurationParts
  | (rest, d) =>
    if rest = [] then some (.inr d)
    else
      match nextValueSliced rest with
      | none => none
      | some none => some (.inr d)
      | some (some (val, rem, unit)) => some (.inl (rem, set d val unit))

def DurationParts.total (d : DurationParts) : ℚ :=
  d.years * 365 * 86400 + d.months * 30 * 86400 + d.days * 86400 + d.hours * 3600 + d.minutes * 60
    + d.secs

/-- The position of a character, in bytes. -/
def findChar (c : Char) (s : Str) : Option ℕ :=
  ((charIndices s).find? fun q => decide (q.2 = c)).map Prod.fst

/-- `parse_duration`, for a number of passes of each loop at most. -/
def runParseDuration (s : Str) (passes : ℕ) : Run ℚ :=
  if s = [] then pure 0
  else
    let s := trim s
    if s.head? ≠ some 'P' then pure 0
    else do
      let s ← Run.ofOption (sliceFrom s 1)
      let parts ←
        match findChar 'T' s with
        | some tPos => do
          let date ← Run.ofOption (sliceTo s tPos)
          let time ← Run.ofOption (sliceFrom s (tPos + 1))
          pure (date, some time)
        | none => pure (s, none)
      let d ← iterate (valuePass DurationParts.setDate) passes (parts.1, {})
      let d ←
        match parts.2 with
        | some time => iterate (valuePass DurationParts.setTime) passes (time, d)
        | none => pure d
      pure d.total

example : runParseDuration "P1DT2H3M4.5S".toList 4 = .left (93784 + 1 / 2) := by decide +kernel

/-- All values are set, one after the other. -/
def setAll (set : DurationParts → ℚ → Char → DurationParts) (values : List (ℚ × Char))
    (d : DurationParts) : DurationParts :=
  values.foldl (fun d v => set d v.1 v.2) d

/-! ### The loops -/

/-- **No slice aborts**: each of its positions is the one before the designator, or behind it. -/
theorem nextValueSliced_eq (s : Str) : nextValueSliced s = some (nextValue s) := by
  have hfind := find?_charIndices (fun c => !(c.isDigit || c = '.')) s
  simp only [Bool.not_not] at hfind
  unfold nextValueSliced nextValue
  rw [hfind]
  cases hdrop : s.dropWhile fun c => c.isDigit || decide (c = '.') with
  | nil => rfl
  | cons designator rest =>
    have hs : s = (s.takeWhile fun c => c.isDigit || decide (c = '.')) ++ designator :: rest := by
      rw [← hdrop]
      exact List.takeWhile_append_dropWhile.symm
    generalize (s.takeWhile fun c => c.isDigit || decide (c = '.')) = numStr at hs ⊢
    subst hs
    dsimp only [List.head?_cons, Option.map_some]
    rw [sliceTo_append, sliceFrom_append]
    simp only [Option.bind_eq_bind, Option.bind_some, List.head?_cons]
    cases parseDecimal numStr with
    | none => rfl
    | some val =>
      dsimp only
      rw [sliceFrom_append_cons]
      rfl

/-- What remains behind a value is shorter. -/
theorem length_lt_of_nextValue {s rest : Str} {val : ℚ} {unit : Char}
    (h : nextValue s = some (val, rest, unit)) : rest.length < s.length := by
  unfold nextValue at h
  split at h
  · cases h
  · next designator rest' hdrop =>
    obtain ⟨val', -, heq⟩ := Option.map_eq_some_iff.mp h
    cases heq
    have hle := List.length_dropWhile_le (fun c => c.isDigit || decide (c = '.')) s
    rw [hdrop] at hle
    exact hle

/-- More fuel than characters gives no more values. -/
theorem durationValues_of_le {n : ℕ} {s : Str} (h : s.length ≤ n) :
    durationValues n s = durationValues s.length s := by
  induction n using Nat.strongRecOn generalizing s with
  | ind n ih =>
    cases hs : s with
    | nil =>
      cases n with
      | zero => rfl
      | succ n => rfl
    | cons c t =>
      rw [hs] at h
      obtain ⟨n, rfl⟩ := Nat.exists_eq_add_of_le' (Nat.one_le_of_lt h)
      rw [List.length_cons, durationValues, durationValues]
      cases hnext : nextValue (c :: t) with
      | none => rfl
      | some next =>
        obtain ⟨val, rest, unit⟩ := next
        have hrest : rest.length ≤ t.length := Nat.le_of_lt_succ (length_lt_of_nextValue hnext)
        have htail : t.length ≤ n := Nat.le_of_succ_le_succ h
        dsimp only
        rw [ih n (Nat.lt_succ_self n) (hrest.trans htail), ih t.length (Nat.lt_succ_of_le htail)
          hrest]

/-- What has been set so far, and what the rest of the text will set. -/
def pendingParts (set : DurationParts → ℚ → Char → DurationParts) (st : Str × DurationParts) :
    DurationParts :=
  setAll set (durationValues st.1.length st.1) st.2

/-- **A pass** goes on with a shorter text, and the values that are set in the end stay the same. -/
theorem valuePass_step (set : DurationParts → ℚ → Char → DurationParts)
    (st : Str × DurationParts) :
    (∃ st', valuePass set st = some (.inl st') ∧ pendingParts set st' = pendingParts set st ∧
        st'.1.length < st.1.length) ∨
      valuePass set st = some (.inr (pendingParts set st)) := by
  obtain ⟨rest, d⟩ := st
  unfold valuePass
  dsimp only
  by_cases hrest : rest = []
  · subst hrest
    exact .inr rfl
  rw [if_neg hrest, nextValueSliced_eq]
  obtain ⟨c, t, rfl⟩ := List.exists_cons_of_ne_nil hrest
  have hpending : pendingParts set (c :: t, d)
      = setAll set (durationValues (t.length + 1) (c :: t)) d := rfl
  rw [durationValues] at hpending
  cases hnext : nextValue (c :: t) with
  | none =>
    rw [hnext] at hpending
    rw [hpending]
    exact .inr rfl
  | some next =>
    obtain ⟨val, rem, unit⟩ := next
    have hlt := length_lt_of_nextValue hnext
    rw [hnext] at hpending
    refine .inl ⟨(rem, set d val unit), rfl, ?_, hlt⟩
    rw [hpending]
    dsimp only
    rw [durationValues_of_le (Nat.le_of_lt_succ hlt)]
    rfl

/-- **A loop** ends, with all values of its text set one after the other. -/
theorem iterate_valuePass (set : DurationParts → ℚ → Char → DurationParts) (s : Str)
    (d : DurationParts) :
    Returns (fun passes => iterate (valuePass set) passes (s, d))
      (setAll set (durationValues s.length s) d) :=
  iterate_returns (fun st => st.1.length) (valuePass_step set) (s, d)

/-! ### The variables -/

section Variables

variable {set : DurationParts → ℚ → Char → DurationParts} (field : DurationParts → ℚ)

/-- A variable has the value that was assigned to it last. -/
theorem setAll_field {unit : Char}
    (hset : ∀ d val c, field (set d val c) = if c = unit then val else field d)
    (values : List (ℚ × Char)) {d : DurationParts} (hd : field d = 0) :
    field (setAll set values d) = unitValue unit values := by
  induction values using List.reverseRecOn with
  | nil => exact hd
  | append_singleton values v ih =>
    unfold setAll at ih ⊢
    rw [List.foldl_append, List.foldl_cons, List.foldl_nil, hset, ih]
    unfold unitValue
    rw [List.filter_append]
    by_cases hv : v.2 = unit
    · have hlast : [v].filter (·.2 = unit) = [v] := by simp [hv]
      rw [if_pos hv, hlast, List.getLast?_append, List.getLast?_singleton]
      rfl
    · have hlast : [v].filter (·.2 = unit) = [] := by simp [hv]
      rw [if_neg hv, hlast, List.append_nil]

/-- The variables that are not for a loop stay as they are. -/
theorem setAll_untouched (hset : ∀ d val c, field (set d val c) = field d)
    (values : List (ℚ × Char)) (d : DurationParts) : field (setAll set values d) = field d := by
  unfold setAll
  induction values generalizing d with
  | nil => rfl
  | cons v values ih => rw [List.foldl_cons, ih, hset]

end Variables

theorem setDate_eq (d : DurationParts) (val : ℚ) (c : Char) : d.setDate val c =
    { d with
      years := if c = 'Y' then val else d.years
      months := if c = 'M' then val else d.months
      days := if c = 'D' then val else d.days } := by
  unfold DurationParts.setDate
  split
  · rfl
  · rfl
  · rfl
  · next hY hM hD => rw [if_neg hY, if_neg hM, if_neg hD]

theorem setTime_eq (d : DurationParts) (val : ℚ) (c : Char) : d.setTime val c =
    { d with
      hours := if c = 'H' then val else d.hours
      minutes := if c = 'M' then val else d.minutes
      secs := if c = 'S' then val else d.secs } := by
  unfold DurationParts.setTime
  split
  · rfl
  · rfl
  · rfl
  · next hH hM hS => rw [if_neg hH, if_neg hM, if_neg hS]

/-- The date loop sets the variables of the date, and the time loop leaves them. -/
theorem date_of_both (field : DurationParts → ℚ) {unit : Char} (hfirst : field {} = 0)
    (hdate : ∀ d val c, field (DurationParts.setDate d val c) = if c = unit then val else field d)
    (htime : ∀ d val c, field (DurationParts.setTime d val c) = field d)
    (date time : List (ℚ × Char)) :
    field (setAll DurationParts.setTime time (setAll DurationParts.setDate date {}))
      = unitValue unit date := by
  rw [setAll_untouched field htime]
  exact setAll_field field hdate date hfirst

/-- The time loop sets the others. -/
theorem time_of_both (field : DurationParts → ℚ) {unit : Char} (hfirst : field {} = 0)
    (hdate : ∀ d val c, field (DurationParts.setDate d val c) = field d)
    (htime : ∀ d val c, field (DurationParts.setTime d val c) = if c = unit then val else field d)
    (date time : List (ℚ × Char)) :
    field (setAll DurationParts.setTime time (setAll DurationParts.setDate date {}))
      = unitValue unit time := by
  refine setAll_field field htime time ?_
  rw [setAll_untouched field hdate, hfirst]

/-- The sum at the end, with the values that the two loops have read. -/
theorem total_both (date time : List (ℚ × Char)) :
    (setAll DurationParts.setTime time (setAll DurationParts.setDate date {})).total
      = unitValue 'Y' date * 365 * 86400 + unitValue 'M' date * 30 * 86400
        + unitValue 'D' date * 86400 + unitValue 'H' time * 3600 + unitValue 'M' time * 60
        + unitValue 'S' time := by
  unfold DurationParts.total
  rw [date_of_both DurationParts.years rfl (fun d val c => by rw [setDate_eq])
      (fun d val c => by rw [setTime_eq]),
    date_of_both DurationParts.months rfl (fun d val c => by rw [setDate_eq])
      (fun d val c => by rw [setTime_eq]),
    date_of_both DurationParts.days rfl (fun d val c => by rw [setDate_eq])
      (fun d val c => by rw [setTime_eq]),
    time_of_both DurationParts.hours rfl (fun d val c => by rw [setDate_eq])
      (fun d val c => by rw [setTime_eq]),
    time_of_both DurationParts.minutes rfl (fun d val c => by rw [setDate_eq])
      (fun d val c => by rw [setTime_eq]),
    time_of_both DurationParts.secs rfl (fun d val c => by rw [setDate_eq])
      (fun d val c => by rw [setTime_eq])]

/-! ### The whole function -/

theorem forall_ne_of_not_mem {c : Char} {s : Str} (h : c ∉ s) :
    ∀ d ∈ s, (!decide (d = c)) = true := by
  intro d hd
  have hne : d ≠ c := fun heq => h (heq ▸ hd)
  rw [decide_eq_false hne]
  rfl

/-- A character is found where the text before it has none. -/
theorem findChar_append_cons {c : Char} {a : Str} (h : c ∉ a) (b : Str) :
    findChar c (a ++ c :: b) = some (utf8 a).length := by
  have hall := forall_ne_of_not_mem h
  unfold findChar
  rw [find?_charIndices (fun d => decide (d = c)), List.dropWhile_append_of_pos hall,
    List.takeWhile_append_of_pos hall, List.dropWhile_cons_of_neg (by simp),
    List.takeWhile_cons_of_neg (by simp), List.append_nil]
  rfl

theorem findChar_of_not_mem {c : Char} {s : Str} (h : c ∉ s) : findChar c s = none := by
  have hdrop := List.dropWhile_eq_nil_iff.mpr (forall_ne_of_not_mem h)
  unfold findChar
  rw [find?_charIndices (fun d => decide (d = c)), hdrop]
  rfl

/-- The value of a text with its two parts. -/
theorem parseDuration_eq {s tail date time : Str} (htrim : trim s = 'P' :: tail)
    (hparts : (splitOnce 'T' tail).getD (tail, []) = (date, time)) :
    parseDuration s =
      unitValue 'Y' (durationValues date.length date) * 365 * 86400
        + unitValue 'M' (durationValues date.length date) * 30 * 86400
        + unitValue 'D' (durationValues date.length date) * 86400
        + unitValue 'H' (durationValues time.length time) * 3600
        + unitValue 'M' (durationValues time.length time) * 60
        + unitValue 'S' (durationValues time.length time) := by
  unfold parseDuration
  simp only [htrim]
  cases hsplit : splitOnce 'T' tail with
  | none =>
    rw [hsplit] at hparts
    cases hparts
    rfl
  | some parts =>
    rw [hsplit] at hparts
    cases hparts
    rfl

/-- What does not begin with a `P` is no duration. -/
theorem parseDuration_of_head {s : Str} (h : (trim s).head? ≠ some 'P') : parseDuration s = 0 := by
  unfold parseDuration
  split
  · next htrim => exact absurd (by rw [htrim]; rfl) h
  · rfl

/-- **`parse_duration` ends** on every text, without a slice inside of a character. -/
theorem parseDuration_returns (s : Str) : Returns (runParseDuration s) (parseDuration s) := by
  unfold runParseDuration
  by_cases hs : s = []
  · subst hs
    exact returns_pure 0
  by_cases hP : (trim s).head? = some 'P'
  · obtain ⟨tail, htrim⟩ : ∃ tail, trim s = 'P' :: tail := List.head?_eq_some_iff.mp hP
    have hslice : sliceFrom ('P' :: tail) 1 = some tail := sliceFrom_append ['P'] tail
    simp only [if_neg hs, htrim, List.head?_cons, ne_eq, not_true_eq_false, if_false, hslice,
      Run.ofOption_some, pure_bind]
    cases hT : splitOnce 'T' tail with
    | none =>
      have hparts : (splitOnce 'T' tail).getD (tail, []) = (tail, []) := by rw [hT]; rfl
      have hnone : findChar 'T' tail = none := findChar_of_not_mem (not_mem_of_splitOnce_eq_none hT)
      simp only [hnone]
      rw [parseDuration_eq htrim hparts, ← total_both]
      exact (iterate_valuePass _ tail {}).bind (returns_pure _)
    | some parts =>
      obtain ⟨date, time⟩ := parts
      have hparts : (splitOnce 'T' tail).getD (tail, []) = (date, time) := by rw [hT]; rfl
      rw [parseDuration_eq htrim hparts, ← total_both]
      obtain ⟨rfl, hdate⟩ := splitOnce_eq_some_iff.mp hT
      have htime : sliceFrom (date ++ 'T' :: time) ((utf8 date).length + 1) = some time :=
        sliceFrom_append_cons date 'T' time
      simp only [findChar_append_cons hdate, sliceTo_append, htime, Run.ofOption_some, pure_bind]
      exact (iterate_valuePass _ date {}).bind
        ((iterate_valuePass _ time _).bind (returns_pure _))
  · rw [parseDuration_of_head hP]
    simp only [if_neg hs, ne_eq, hP, not_false_eq_true, if_true]
    exact returns_pure 0

/-! ### ISO 8601 durations -/

/-- A decimal number, with a fraction or without. -/
structure DecimalNumber where
  whole : Numeral
  fraction : Option Numeral

namespace DecimalNumber

variable (n : DecimalNumber)

def text : Str :=
  n.whole.text ++
    match n.fraction with
    | none => []
    | some fraction => '.' :: fraction.text

/-- The number, exactly. -/
def value : ℚ :=
  n.whole.value +
    match n.fraction with
    | none => 0
    | some fraction => (fraction.value : ℚ) / 10 ^ fraction.text.length

theorem parseDecimal_text : parseDecimal n.text = some n.value := by
  obtain ⟨whole, fraction⟩ := n
  have hwhole : digitsValue whole.text = whole.value := digitsValue_eq whole.text
  unfold parseDecimal text value
  cases fraction with
  | none =>
    have hnone : splitOnce '.' whole.text = none :=
      splitOnce_eq_none_of_not_mem (whole.not_mem (by decide))
    dsimp only
    rw [List.append_nil, hnone]
    dsimp only
    rw [if_pos ⟨whole.text_ne_nil, whole.all_isDigit⟩, hwhole, add_zero]
  | some fraction =>
    have hfraction : digitsValue fraction.text = fraction.value := digitsValue_eq fraction.text
    dsimp only
    rw [splitOnce_of_not_mem (whole.not_mem (by decide))]
    dsimp only
    rw [if_pos ⟨.inl whole.text_ne_nil, whole.all_isDigit, fraction.all_isDigit⟩, hwhole, hfraction]

theorem numberChar_of_mem {c : Char} (hc : c ∈ n.text) : c.isDigit = true ∨ c = '.' := by
  obtain hc | hc := List.mem_append.mp hc
  · exact .inl (n.whole.isDigit c hc)
  · cases hfraction : n.fraction with
    | none =>
      rw [hfraction] at hc
      cases hc
    | some fraction =>
      rw [hfraction] at hc
      obtain hc | hc := List.mem_cons.mp hc
      · exact .inr hc
      · exact .inl (fraction.isDigit c hc)

end DecimalNumber

/-- A component of a duration: a number, and its designator. -/
abbrev Component := DecimalNumber × Char

def componentsText (components : List Component) : Str :=
  components.flatMap fun f => f.1.text ++ [f.2]

/-- A component that may be left out. -/
def component (unit : Char) (n : Option DecimalNumber) : List Component :=
  (n.map (·, unit)).toList

/-- A duration. -/
structure IsoDuration where
  years : Option DecimalNumber
  months : Option DecimalNumber
  days : Option DecimalNumber
  hours : Option DecimalNumber
  minutes : Option DecimalNumber
  seconds : Option DecimalNumber

namespace IsoDuration

variable (d : IsoDuration)

def dateComponents : List Component :=
  component 'Y' d.years ++ (component 'M' d.months ++ component 'D' d.days)

def timeComponents : List Component :=
  component 'H' d.hours ++ (component 'M' d.minutes ++ component 'S' d.seconds)

/-- How a duration is written; there is a `T` only where a time follows. -/
def text : Str :=
  'P' :: (componentsText d.dateComponents ++
    if d.timeComponents = [] then [] else 'T' :: componentsText d.timeComponents)

/-- A component that is left out counts as zero. -/
def amount (n : Option DecimalNumber) : ℚ := (n.map DecimalNumber.value).getD 0

/-- The seconds that a duration stands for. -/
def totalSeconds : ℚ :=
  31536000 * amount d.years + 2592000 * amount d.months + 86400 * amount d.days
    + 3600 * amount d.hours + 60 * amount d.minutes + amount d.seconds

end IsoDuration

/-- The values that a list of components stands for. -/
def componentValues (components : List Component) : List (ℚ × Char) :=
  components.map fun f => (f.1.value, f.2)

/-- What `next_value` takes for a designator. -/
def isDesignator (c : Char) : Bool := !(c.isDigit || c = '.')

theorem nextValue_component (n : DecimalNumber) {unit : Char} (hunit : isDesignator unit = true)
    (rest : Str) : nextValue (n.text ++ unit :: rest) = some (n.value, rest, unit) := by
  have hall : ∀ c ∈ n.text, (c.isDigit || decide (c = '.')) = true := by
    intro c hc
    obtain hdigit | rfl := n.numberChar_of_mem hc
    · rw [hdigit, Bool.true_or]
    · rfl
  have hstop : (unit.isDigit || decide (unit = '.')) = false := by
    rw [isDesignator, Bool.not_eq_true'] at hunit
    exact hunit
  have hdrop : (unit :: rest).dropWhile (fun c => c.isDigit || decide (c = '.')) = unit :: rest :=
    List.dropWhile_cons_of_neg (ne_true_of_eq_false hstop)
  have htake : (unit :: rest).takeWhile (fun c => c.isDigit || decide (c = '.')) = [] :=
    List.takeWhile_cons_of_neg (ne_true_of_eq_false hstop)
  unfold nextValue
  rw [List.dropWhile_append_of_pos hall, List.takeWhile_append_of_pos hall, hdrop, htake,
    List.append_nil, n.parseDecimal_text]
  rfl

/-- **The components are read** as their values, in their order. -/
theorem durationValues_componentsText {components : List Component}
    (h : ∀ f ∈ components, isDesignator f.2 = true) :
    durationValues (componentsText components).length (componentsText components)
      = componentValues components := by
  induction components with
  | nil => rfl
  | cons f components ih =>
    obtain ⟨hf, hrest⟩ := List.forall_mem_cons.mp h
    have htext : componentsText (f :: components)
        = f.1.text ++ f.2 :: componentsText components := by
      unfold componentsText
      rw [List.flatMap_cons, List.append_assoc, List.singleton_append]
    have hlength : (componentsText components).length
        ≤ (f.1.text ++ componentsText components).length := by
      rw [List.length_append]
      exact Nat.le_add_left _ _
    rw [htext, List.length_append, List.length_cons, ← Nat.add_assoc, ← List.length_append,
      durationValues, nextValue_component f.1 hf]
    dsimp only
    rw [durationValues_of_le hlength, ih hrest]
    rfl

/-- Each designator of a part is that of one component at most. -/
theorem unitValue_components {u v w : Char} (huv : u ≠ v) (huw : u ≠ w) (hvw : v ≠ w)
    (a b c : Option DecimalNumber) :
    unitValue u (componentValues (component u a ++ (component v b ++ component w c)))
        = IsoDuration.amount a ∧
      unitValue v (componentValues (component u a ++ (component v b ++ component w c)))
        = IsoDuration.amount b ∧
      unitValue w (componentValues (component u a ++ (component v b ++ component w c)))
        = IsoDuration.amount c := by
  cases a <;> cases b <;> cases c <;>
    simp [unitValue, componentValues, component, IsoDuration.amount, huv, huw, hvw, huv.symm,
      huw.symm, hvw.symm]

/-! ### Durations as text -/

theorem unit_of_mem_component {unit : Char} {n : Option DecimalNumber} {f : Component}
    (h : f ∈ component unit n) : f.2 = unit := by
  obtain ⟨n', -, rfl⟩ := Option.map_eq_some_iff.mp (Option.mem_toList.mp h)
  rfl

theorem forall_mem_components {u v w : Char} {p : Char → Prop} (hu : p u) (hv : p v) (hw : p w)
    (a b c : Option DecimalNumber) :
    ∀ f ∈ component u a ++ (component v b ++ component w c), p f.2 := by
  intro f hf
  rw [List.mem_append, List.mem_append] at hf
  obtain hf | hf | hf := hf
  · exact unit_of_mem_component hf ▸ hu
  · exact unit_of_mem_component hf ▸ hv
  · exact unit_of_mem_component hf ▸ hw

/-- The characters of components are those of numbers, and the designators. -/
theorem of_mem_componentsText {components : List Component} {p : Char → Prop}
    (hdigit : ∀ c, c.isDigit = true → p c) (hdot : p '.') (hunit : ∀ f ∈ components, p f.2)
    {c : Char} (h : c ∈ componentsText components) : p c := by
  obtain ⟨f, hf, hc⟩ := List.mem_flatMap.mp h
  rw [List.mem_append, List.mem_singleton] at hc
  obtain hc | rfl := hc
  · obtain hc | rfl := f.1.numberChar_of_mem hc
    · exact hdigit c hc
    · exact hdot
  · exact hunit f hf

namespace IsoDuration

variable (d : IsoDuration)

/-- The first `T` is the one before the time. -/
theorem not_mem_dateText : 'T' ∉ componentsText d.dateComponents := by
  intro h
  refine of_mem_componentsText (p := (· ≠ 'T')) ?_ (by decide) ?_ h rfl
  · rintro c hc rfl
    exact absurd hc (by decide)
  · exact forall_mem_components (p := (· ≠ 'T')) (by decide) (by decide) (by decide) _ _ _

/-- There is nothing to trim. -/
theorem trim_text : trim d.text = d.text := by
  have hdate : ∀ f ∈ d.dateComponents, isWhitespace f.2 = false :=
    forall_mem_components (p := (isWhitespace · = false)) rfl rfl rfl _ _ _
  have htime : ∀ f ∈ d.timeComponents, isWhitespace f.2 = false :=
    forall_mem_components (p := (isWhitespace · = false)) rfl rfl rfl _ _ _
  refine trim_eq_self fun c hc => ?_
  rw [text, List.mem_cons, List.mem_append] at hc
  obtain rfl | hc | hc := hc
  · rfl
  · exact of_mem_componentsText (fun _ => not_isWhitespace_of_isDigit) rfl hdate hc
  · split at hc
    · cases hc
    · obtain rfl | hc := List.mem_cons.mp hc
      · rfl
      · exact of_mem_componentsText (fun _ => not_isWhitespace_of_isDigit) rfl htime hc

/-- The two parts are read apart, with no time where none is written. -/
theorem parts_text {tail : Str} (htail : d.text = 'P' :: tail) :
    (splitOnce 'T' tail).getD (tail, [])
      = (componentsText d.dateComponents, componentsText d.timeComponents) := by
  obtain ⟨-, rfl⟩ := List.cons.inj htail
  by_cases hnone : d.timeComponents = []
  · rw [if_pos hnone, hnone, List.append_nil, splitOnce_eq_none_of_not_mem d.not_mem_dateText]
    rfl
  · rw [if_neg hnone, splitOnce_of_not_mem d.not_mem_dateText]
    rfl

/-- **A duration is read** as the seconds that it stands for. -/
theorem parseDuration_text : parseDuration d.text = d.totalSeconds := by
  have hdate : ∀ f ∈ d.dateComponents, isDesignator f.2 = true :=
    forall_mem_components (p := (isDesignator · = true)) rfl rfl rfl _ _ _
  have htime : ∀ f ∈ d.timeComponents, isDesignator f.2 = true :=
    forall_mem_components (p := (isDesignator · = true)) rfl rfl rfl _ _ _
  have hdateValues := durationValues_componentsText hdate
  have htimeValues := durationValues_componentsText htime
  obtain ⟨hyears, hmonths, hdays⟩ : _ ∧ _ ∧ _ :=
    unitValue_components (u := 'Y') (v := 'M') (w := 'D') (by decide) (by decide) (by decide)
      d.years d.months d.days
  obtain ⟨hhours, hminutes, hseconds⟩ : _ ∧ _ ∧ _ :=
    unitValue_components (u := 'H') (v := 'M') (w := 'S') (by decide) (by decide) (by decide)
      d.hours d.minutes d.seconds
  rw [parseDuration_eq d.trim_text (d.parts_text rfl), hdateValues, htimeValues]
  unfold dateComponents timeComponents
  rw [hyears, hmonths, hdays, hhours, hminutes, hseconds, totalSeconds]
  ring

end IsoDuration

/-- **Durations are read as they are written**, and every text is read to its end. -/
theorem durations_read :
    (∀ d : IsoDuration, Returns (runParseDuration d.text) d.totalSeconds) ∧
      ∀ s, Returns (runParseDuration s) (parseDuration s) := by
  constructor
  · intro d
    rw [← d.parseDuration_text]
    exact parseDuration_returns d.text
  · exact parseDuration_returns

end MediaFlow
