import MediaFlow.Telegram.SessionGen

/-!
# Login steps out of order

A step that the login is not ready for is rejected before Telegram hears of it, and should leave the
login as it is. Both handlers take the login out of the map first; `session_verify_handler` puts it
back, and `session_2fa_handler` does not (`unchanged_iff`), so a password that comes before the code
is the end of the login.
-/

open Text

namespace MediaFlow

/-- The token that a step needs. -/
def LoginStep.token (kind : LoginStep) (p : PendingSession) : Option ℕ :=
  match kind with
  | .verify => p.loginToken
  | .twoFactor => p.passwordToken

namespace LoginServer

open Function (update)

variable (s : LoginServer) (kind : LoginStep) (id : Str)

/-- The login is not known, or not in the state that the step requires. -/
def Rejects : Prop := ∀ p, s.pending id = some p → kind.token p = none

/-- A request that is rejected, from its first step to its reply. -/
def reject : Option LoginServer := do
  let s' ← s.step (.take kind id)
  match s'.calls[s.calls.length]? with
  | some ⟨_, .puttingBack _⟩ => s'.step (.putBack s.calls.length)
  | _ => some s'

/-- The request is answered with an error, and the map is the one before. -/
def Unchanged : Prop :=
  ∃ s' reply, s.reject kind id = some s' ∧ s'.calls = s.calls ++ [⟨id, .done reply⟩] ∧
    reply.detail.isSome = true ∧ s'.pending = s.pending

/-! ### What a rejected request does -/

variable {s kind id}

theorem reject_unknown (h : s.pending id = none) :
    s.reject kind id = some { s with calls := s.calls ++ [⟨id, .done .notFound⟩] } := by
  unfold reject
  dsimp only [step]
  rw [h]
  simp

/-- To verify a code that is not asked for: the login goes out of the map and back. -/
theorem reject_verify {p : PendingSession} (h : s.pending id = some p) (hp : p.loginToken = none) :
    s.reject .verify id = some { s with calls := s.calls ++ [⟨id, .done .noCode⟩] } := by
  have hbegin : LoginStep.verify.begin p = .puttingBack p := by
    unfold LoginStep.begin
    dsimp only
    rw [hp]
  have hback : update (update s.pending id none) id (some p) = s.pending := by
    rw [Function.update_idem, ← h, Function.update_eq_self]
  unfold reject
  dsimp only [step]
  rw [h]
  simp [hbegin, setPhase, hback]

/-- To submit a password that is not asked for: the login does not come back. -/
theorem reject_twoFactor {p : PendingSession} (h : s.pending id = some p)
    (hp : p.passwordToken = none) :
    s.reject .twoFactor id = some { s with
      pending := update s.pending id none
      calls := s.calls ++ [⟨id, .done .noChallenge⟩] } := by
  have hbegin : LoginStep.twoFactor.begin p = .done .noChallenge := by
    unfold LoginStep.begin
    dsimp only
    rw [hp]
  unfold reject
  dsimp only [step]
  rw [h]
  simp [hbegin]

/-- **A rejected step changes nothing** exactly if it is to verify a code, or the login is not
known. -/
theorem unchanged_iff (s : LoginServer) (kind : LoginStep) (id : Str) (h : s.Rejects kind id) :
    s.Unchanged kind id ↔ kind = .verify ∨ s.pending id = none := by
  cases hp : s.pending id with
  | none => exact iff_of_true ⟨_, .notFound, reject_unknown hp, rfl, rfl, rfl⟩ (.inr rfl)
  | some p =>
    have htoken := h p hp
    cases kind with
    | verify => exact iff_of_true ⟨_, .noCode, reject_verify hp htoken, rfl, rfl, rfl⟩ (.inl rfl)
    | twoFactor =>
      refine iff_of_false ?_ (by rintro (h | h) <;> cases h)
      rintro ⟨s', reply, hreject, -, -, hpending⟩
      rw [reject_twoFactor hp htoken] at hreject
      cases hreject
      have hnone : update s.pending id none id = s.pending id := congrFun hpending id
      rw [Function.update_self, hp] at hnone
      cases hnone

/-- The code has been verified, and a password is asked for. -/
def awaitsPassword : LoginServer :=
  { new with pending := update (fun _ => none) ['x'] (some ⟨none, some 9, 0⟩) }

theorem unchanged_verify : awaitsPassword.Unchanged .verify ['x'] := by
  refine (unchanged_iff awaitsPassword .verify ['x'] fun p hp => ?_).mpr (.inl rfl)
  obtain rfl : (⟨none, some 9, 0⟩ : PendingSession) = p := Option.some.inj hp
  rfl

/-- A code has been sent. -/
def awaitsCode : LoginServer :=
  { new with pending := update (fun _ => none) ['x'] (some ⟨some 7, none, 0⟩), issued := [['x']] }

/-- A password before the code. -/
theorem not_unchanged_twoFactor :
    loginMachine.run [.codeSent ['x'] 7] = some awaitsCode ∧ awaitsCode.Rejects .twoFactor ['x'] ∧
      ¬ awaitsCode.Unchanged .twoFactor ['x'] := by
  have hpending : awaitsCode.pending ['x'] = some ⟨some 7, none, 0⟩ := rfl
  refine ⟨rfl, fun p hp => ?_, ?_⟩
  · rw [hpending] at hp
    cases hp
    rfl
  · rintro ⟨s', reply, hreject, -, -, hsame⟩
    rw [reject_twoFactor hpending rfl] at hreject
    cases hreject
    have hnone : update awaitsCode.pending ['x'] none ['x'] = awaitsCode.pending ['x'] :=
      congrFun hsame ['x']
    rw [Function.update_self, hpending] at hnone
    cases hnone

end LoginServer

end MediaFlow
