import MediaFlow.Telegram.SessionGen

/-!
# Logins that are over

A login that is cancelled or has got too old should not be accepted by a later request, nor come back
into the map. Only `start` collects old logins, so one that is old is accepted until then; and a
request that waits for Telegram puts its login back with a new time, whatever has happened to it
meanwhile (`staysDead_fails`, `expired_accepted`). `staysDead`: in runs in which requests find no old
logins and put back none that is cancelled or old, dead logins stay dead.
-/

open Text

namespace MediaFlow

namespace LoginPhase

/-- The request has a token for Telegram. -/
def waiting : LoginPhase → Bool
  | signingIn .. | checking .. => true
  | puttingBack _ | done _ => false

end LoginPhase

/-- The login goes back into the map. -/
def SignInOutcome.goesOn : SignInOutcome → Bool
  | passwordRequired _ | invalidCode => true
  | signedIn | signUpRequired | failed => false

namespace LoginServer

variable (s : LoginServer)

/-- The login of `id` was cancelled, or was too old at some time. -/
def Dead (id : Str) : Prop := s.cancelled id ∨ s.expired id

/-- The event is a request that takes the login of `id` to Telegram. -/
def Accepts (e : LoginEvent) (id : Str) : Prop :=
  ∃ kind p, e = .take kind id ∧ s.pending id = some p ∧ (kind.begin p).waiting

/-- The request `i` holds a login that is neither cancelled nor too old. -/
def HoldsLive (i : ℕ) : Prop :=
  ∀ c p, s.calls[i]? = some c → c.held = some p → s.cancelled c.id = false ∧ p.isLive s.now

/-- **The condition on steps.** A request finds no login that is too old, unless it rejects it for
good, and a request puts a login back only if it was not cancelled and has not got too old. -/
def Orderly : LoginEvent → Prop
  | .take kind id => ∀ p, s.pending id = some p → kind.begin p ≠ .done .noChallenge → p.isLive s.now
  | .putBack i => s.HoldsLive i
  | .signIn i outcome _ => outcome.goesOn → s.HoldsLive i
  | _ => True

end LoginServer

/-- In every run whose steps all meet `ok`, dead logins are not accepted, and do not come back. -/
structure StaysDead (ok : LoginServer → LoginEvent → Prop) : Prop where
  accepted : ∀ s e s' id, loginMachine.Reaches ok s → ok s e → s.step e = some s' → s.Dead id →
    ¬ s.Accepts e id
  back : ∀ s e s' id p, loginMachine.Reaches ok s → ok s e → s.step e = some s' → s.Dead id →
    s'.pending id = some p → s.pending id = some p

namespace PendingSession

variable {p : PendingSession}

/-- What is too old stays too old. -/
theorem not_isLive_of_le {now now' : ℕ} (h : p.isLive now = false) (hle : now ≤ now') :
    p.isLive now' = false := by
  unfold isLive at h ⊢
  rw [decide_eq_false_iff_not] at h ⊢
  omega

theorem isLive_created (hc : p.createdAt = now) : p.isLive now := by
  unfold isLive sessionTtl fromSecs
  rw [hc]
  simp

end PendingSession

namespace LoginServer

open Function (update)

variable {s s' : LoginServer}

/-- The invariant of orderly runs. What the ledger says to be over is not in the map, or is still
there as it got too old. -/
structure Sound (s : LoginServer) : Prop where
  cancelled : ∀ id, s.cancelled id → s.pending id = none
  pendingOld : ∀ id p, s.pending id = some p → s.expired id → p.isLive s.now = false
  heldOld : ∀ c ∈ s.calls, ∀ p, c.held = some p → s.expired c.id → p.isLive s.now = false
  /-- A login is in one place. -/
  alone : ∀ id p, s.pending id = some p → ∀ c ∈ s.calls, c.id = id → c.held = none
  single : ∀ (i j : ℕ) (c d : LoginCall), s.calls[i]? = some c → s.calls[j]? = some d →
    c.held.isSome → d.held.isSome → c.id = d.id → i = j
  pendingIssued : ∀ id p, s.pending id = some p → id ∈ s.issued
  heldIssued : ∀ c ∈ s.calls, c.held.isSome → c.id ∈ s.issued
  deadIssued : ∀ id, s.Dead id → id ∈ s.issued

theorem sound_new : Sound .new where
  cancelled _ h := nomatch h
  pendingOld _ _ h := nomatch h
  heldOld _ h := nomatch h
  alone _ _ h := nomatch h
  single _ _ _ _ h := nomatch h
  pendingIssued _ _ h := nomatch h
  heldIssued _ h := nomatch h
  deadIssued _ h := h.elim nofun nofun

/-! ### The two kinds of promise follow from the invariant -/

theorem Sound.not_dead_of_held (h : s.Sound) {i : ℕ} {c : LoginCall} {p : PendingSession}
    (hi : s.calls[i]? = some c) (hp : c.held = some p) (hlive : s.HoldsLive i) : ¬ s.Dead c.id := by
  obtain ⟨hcancelled, hfresh⟩ := hlive c p hi hp
  rintro (hdead | hdead)
  · rw [hcancelled] at hdead
    cases hdead
  · rw [h.heldOld c (List.mem_of_getElem? hi) p hp hdead] at hfresh
    cases hfresh

theorem LoginStep.begin_ne_noChallenge {kind : LoginStep} {p : PendingSession}
    (h : (kind.begin p).waiting) : kind.begin p ≠ .done .noChallenge := by
  intro heq
  rw [heq] at h
  cases h

theorem Sound.not_accepts (h : s.Sound) {e : LoginEvent} {id : Str} (hok : s.Orderly e)
    (hdead : s.Dead id) : ¬ s.Accepts e id := by
  rintro ⟨kind, p, rfl, hp, hwaiting⟩
  have hlive := hok p hp (LoginStep.begin_ne_noChallenge hwaiting)
  rcases hdead with hdead | hdead
  · rw [h.cancelled id hdead] at hp
    cases hp
  · rw [h.pendingOld id p hp hdead] at hlive
    cases hlive

/-! ### What each change keeps -/

theorem isOld_eq_true_iff {now : ℕ} {id : Str} :
    s.isOld now id ↔ (∃ p, s.pending id = some p ∧ p.isLive now = false) ∨
      ∃ c ∈ s.calls, c.id = id ∧ ∃ p, c.held = some p ∧ p.isLive now = false := by
  unfold isOld
  rw [Bool.or_eq_true, Option.any_eq_true, List.any_eq_true]
  simp [Option.any_eq_true]

theorem Sound.elapse (h : s.Sound) (d : ℕ) :
    Sound { s with
      now := s.now + d
      expired := fun id => s.expired id || s.isOld (s.now + d) id } := by
  refine { h with pendingOld := ?_, heldOld := ?_, deadIssued := ?_ }
  · intro id p hp hexpired
    rcases Bool.or_eq_true_iff.mp hexpired with hold | hold
    · exact PendingSession.not_isLive_of_le (h.pendingOld id p hp hold) (Nat.le_add_right _ _)
    · obtain ⟨q, hq, hlive⟩ | ⟨c, hc, hid, q, hq, -⟩ := isOld_eq_true_iff.mp hold
      · rw [show s.pending id = some p from hp] at hq
        rw [Option.some.inj hq]
        exact hlive
      · rw [h.alone id p hp c hc hid] at hq
        cases hq
  · intro c hc p hp hexpired
    rcases Bool.or_eq_true_iff.mp hexpired with hold | hold
    · exact PendingSession.not_isLive_of_le (h.heldOld c hc p hp hold) (Nat.le_add_right _ _)
    · obtain ⟨q, hq, -⟩ | ⟨e, he, hid, q, hq, hlive⟩ := isOld_eq_true_iff.mp hold
      · rw [h.alone c.id q hq c hc rfl] at hp
        cases hp
      · -- the two requests hold the same login, so they are one
        obtain ⟨i, hi⟩ := List.mem_iff_getElem?.mp hc
        obtain ⟨j, hj⟩ := List.mem_iff_getElem?.mp he
        have hij := h.single i j c e hi hj (by rw [hp]; rfl) (by rw [hq]; rfl) hid.symm
        rw [hij, hj] at hi
        cases hi
        rw [hp] at hq
        rw [Option.some.inj hq]
        exact hlive
  · rintro id (hdead | hdead)
    · exact h.deadIssued id (.inl hdead)
    · rcases Bool.or_eq_true_iff.mp hdead with hold | hold
      · exact h.deadIssued id (.inr hold)
      · obtain ⟨p, hp, -⟩ | ⟨c, hc, rfl, p, hp, -⟩ := isOld_eq_true_iff.mp hold
        · exact h.pendingIssued id p hp
        · exact h.heldIssued c hc (by rw [hp]; rfl)

/-- Some entries leave the map. -/
theorem Sound.remove (h : s.Sound) {pending : Str → Option PendingSession}
    (hsub : ∀ id p, pending id = some p → s.pending id = some p) :
    Sound { s with pending } :=
  { h with
    cancelled := fun id hid => by
      cases hp : pending id with
      | none => exact hp
      | some p =>
        have := hsub id p hp
        rw [h.cancelled id hid] at this
        cases this
    pendingOld := fun id p hp => h.pendingOld id p (hsub id p hp)
    alone := fun id p hp => h.alone id p (hsub id p hp)
    pendingIssued := fun id p hp => h.pendingIssued id p (hsub id p hp) }

theorem update_none_eq_some {id id' : Str} {p : PendingSession}
    (h : update s.pending id none id' = some p) : id' ≠ id ∧ s.pending id' = some p := by
  by_cases hid : id' = id
  · rw [hid, Function.update_self] at h
    cases h
  · rw [Function.update_of_ne hid] at h
    exact ⟨hid, h⟩

theorem Sound.cancel (h : s.Sound) (id : Str) :
    Sound { s with
      pending := update s.pending id none
      cancelled := fun id' => s.cancelled id' || (id' = id && id ∈ s.issued) } := by
  have hrest : Sound { s with pending := update s.pending id none } :=
    h.remove fun _ _ hp => (update_none_eq_some hp).2
  refine { hrest with cancelled := ?_, deadIssued := ?_ }
  · intro id' hid'
    rcases Bool.or_eq_true_iff.mp hid' with hold | hnew
    · exact hrest.cancelled id' hold
    · obtain ⟨rfl, -⟩ : id' = id ∧ id ∈ s.issued := by simpa using hnew
      exact Function.update_self ..
  · rintro id' (hdead | hdead)
    · rcases Bool.or_eq_true_iff.mp hdead with hold | hnew
      · exact h.deadIssued id' (.inl hold)
      · obtain ⟨rfl, hissued⟩ : id' = id ∧ id ∈ s.issued := by simpa using hnew
        exact hissued
    · exact h.deadIssued id' (.inr hdead)

/-- A login that no request holds and that is not dead goes into the map. -/
theorem Sound.insert (h : s.Sound) {id : Str} {p : PendingSession} (hdead : ¬ s.Dead id)
    (hissued : id ∈ s.issued) (hfree : ∀ c ∈ s.calls, c.id = id → c.held = none) :
    Sound { s with pending := update s.pending id (some p) } := by
  have hcases {id' : Str} {q : PendingSession} (hq : update s.pending id (some p) id' = some q) :
      id' = id ∨ s.pending id' = some q := by
    by_cases hid : id' = id
    · exact .inl hid
    · rw [Function.update_of_ne hid] at hq
      exact .inr hq
  refine { h with cancelled := ?_, pendingOld := ?_, alone := ?_, pendingIssued := ?_ }
  · intro id' hid'
    have hne : id' ≠ id := by
      rintro rfl
      exact hdead (.inl hid')
    exact (Function.update_of_ne hne _ _).trans (h.cancelled id' hid')
  · intro id' q hq hexpired
    obtain rfl | hq := hcases hq
    · exact absurd (.inr hexpired) hdead
    · exact h.pendingOld id' q hq hexpired
  · intro id' q hq
    obtain rfl | hq := hcases hq
    · exact hfree
    · exact h.alone id' q hq
  · intro id' q hq
    obtain rfl | hq := hcases hq
    · exact hissued
    · exact h.pendingIssued id' q hq

theorem getElem?_setPhase {i j : ℕ} {c d : LoginCall} {phase : LoginPhase}
    (hi : s.calls[i]? = some c) (hj : (s.setPhase i c phase).calls[j]? = some d) :
    (j = i ∧ d = { c with phase }) ∨ (j ≠ i ∧ s.calls[j]? = some d) := by
  change (s.calls.set i _)[j]? = some d at hj
  by_cases hji : j = i
  · rw [hji, List.getElem?_set_self (List.getElem?_eq_some_iff.mp hi).1] at hj
    exact .inl ⟨hji, (Option.some.inj hj).symm⟩
  · rw [List.getElem?_set_ne (Ne.symm hji)] at hj
    exact .inr ⟨hji, hj⟩

/-- A request is over. -/
theorem Sound.done (h : s.Sound) {i : ℕ} {c : LoginCall} (hi : s.calls[i]? = some c)
    (reply : LoginReply) : (s.setPhase i c (.done reply)).Sound := by
  have hmem {d : LoginCall} {p : PendingSession} (hd : d ∈ (s.setPhase i c (.done reply)).calls)
      (hp : d.held = some p) : d ∈ s.calls := by
    obtain ⟨j, hj⟩ := List.mem_iff_getElem?.mp hd
    obtain ⟨-, rfl⟩ | ⟨-, hj⟩ := getElem?_setPhase hi hj
    · cases hp
    · exact List.mem_of_getElem? hj
  refine { h with heldOld := ?_, alone := ?_, single := ?_, heldIssued := ?_ }
  · intro d hd p hp
    exact h.heldOld d (hmem hd hp) p hp
  · intro id p hp
    exact List.forall_mem_set (h.alone id p hp) fun _ => rfl
  · intro a b e f ha hb he hf hef
    obtain ⟨-, rfl⟩ | ⟨-, ha⟩ := getElem?_setPhase hi ha
    · cases he
    · obtain ⟨-, rfl⟩ | ⟨-, hb⟩ := getElem?_setPhase hi hb
      · cases hf
      · exact h.single a b e f ha hb he hf hef
  · exact List.forall_mem_set h.heldIssued nofun

/-- A request puts back the login that it holds, as it was or renewed. -/
theorem Sound.putBack (h : s.Sound) {i : ℕ} {c : LoginCall} {p q : PendingSession}
    (hi : s.calls[i]? = some c) (hp : c.held = some p) (hlive : s.HoldsLive i)
    (reply : LoginReply) :
    ({ s with pending := update s.pending c.id (some q) }.setPhase i c (.done reply)).Sound := by
  have hsome : c.held.isSome := by
    rw [hp]
    rfl
  have hdone := h.done hi reply
  refine hdone.insert (h.not_dead_of_held hi hp hlive)
    (h.heldIssued c (List.mem_of_getElem? hi) hsome) fun d hd hid => ?_
  obtain ⟨j, hj⟩ := List.mem_iff_getElem?.mp hd
  obtain ⟨-, rfl⟩ | ⟨hji, hj⟩ := getElem?_setPhase hi hj
  · rfl
  · by_contra hheld
    exact hji (h.single j i d c hj hi (Option.ne_none_iff_isSome.mp hheld) hsome hid)

theorem getElem?_append {j : ℕ} {c d : LoginCall} (hj : (s.calls ++ [c])[j]? = some d) :
    (s.calls[j]? = some d) ∨ (j = s.calls.length ∧ d = c) := by
  by_cases hlt : j < s.calls.length
  · rw [List.getElem?_append_left hlt] at hj
    exact .inl hj
  · rw [List.getElem?_append_right (Nat.le_of_not_lt hlt)] at hj
    obtain ⟨hpos, -⟩ := List.getElem?_eq_some_iff.mp hj
    have hlast : j - s.calls.length < 1 := hpos
    exact .inr ⟨by omega, List.mem_singleton.mp (List.mem_of_getElem? hj)⟩

/-- A request begins. What it holds was taken out of the map. -/
theorem Sound.take (h : s.Sound) {c : LoginCall} (hpending : s.pending c.id = none)
    (hfree : ∀ d ∈ s.calls, d.id = c.id → c.held.isSome → d.held = none)
    (hold : ∀ p, c.held = some p → s.expired c.id → p.isLive s.now = false)
    (hissued : c.held.isSome → c.id ∈ s.issued) : Sound { s with calls := s.calls ++ [c] } := by
  have hmem {d : LoginCall} (hd : d ∈ s.calls ++ [c]) : d ∈ s.calls ∨ d = c := by
    rcases List.mem_append.mp hd with hd | hd
    · exact .inl hd
    · exact .inr (List.mem_singleton.mp hd)
  refine { h with heldOld := ?_, alone := ?_, single := ?_, heldIssued := ?_ }
  · intro d hd
    obtain hd | rfl := hmem hd
    · exact h.heldOld d hd
    · exact hold
  · intro id p hp d hd hid
    obtain hd | rfl := hmem hd
    · exact h.alone id p hp d hd hid
    · rw [← hid, show s.pending d.id = none from hpending] at hp
      cases hp
  · intro a b e f ha hb he hf hef
    obtain ha' | ⟨hal, hec⟩ := getElem?_append ha <;> obtain hb' | ⟨hbl, hfc⟩ := getElem?_append hb
    · exact h.single a b e f ha' hb' he hf hef
    · rw [hfc] at hef hf
      rw [hfree e (List.mem_of_getElem? ha') hef hf] at he
      cases he
    · rw [hec] at hef he
      rw [hfree f (List.mem_of_getElem? hb') hef.symm he] at hf
      cases hf
    · exact hal.trans hbl.symm
  · intro d hd
    obtain hd | rfl := hmem hd
    · exact h.heldIssued d hd
    · exact hissued

/-- A new id is drawn, which nobody had before. -/
theorem Sound.codeSent (h : s.Sound) {id : Str} (token : ℕ) (hnew : id ∉ s.issued) :
    Sound { s with
      pending := update s.pending id (some ⟨some token, none, s.now⟩)
      issued := id :: s.issued } := by
  have hissued : Sound { s with issued := id :: s.issued } :=
    { h with
      pendingIssued := fun id' p hp => List.mem_cons_of_mem _ (h.pendingIssued id' p hp)
      heldIssued := fun c hc hheld => List.mem_cons_of_mem _ (h.heldIssued c hc hheld)
      deadIssued := fun id' hdead => List.mem_cons_of_mem _ (h.deadIssued id' hdead) }
  refine hissued.insert (fun hdead => hnew (h.deadIssued id hdead)) List.mem_cons_self
    fun c hc hid => ?_
  by_contra hheld
  rw [← hid] at hnew
  exact hnew (h.heldIssued c hc (Option.ne_none_iff_isSome.mp hheld))

theorem LoginStep.held_begin {kind : LoginStep} {p q : PendingSession} {id : Str}
    (h : (LoginCall.mk id (kind.begin p)).held = some q) : q.createdAt = p.createdAt := by
  unfold LoginStep.begin at h
  split at h <;> split at h <;> cases h <;> rfl

/-- One orderly step. -/
theorem Sound.step {e : LoginEvent} (h : s.Sound) (hok : s.Orderly e) (hstep : s.step e = some s') :
    s'.Sound := by
  cases e with
  | elapse d =>
    cases hstep
    exact h.elapse d
  | gcExpired =>
    cases hstep
    exact h.remove fun _ _ hp => (Option.filter_eq_some_iff.mp hp).1
  | codeSent id token =>
    simp only [LoginServer.step] at hstep
    split at hstep
    · cases hstep
    · next hnew =>
      cases hstep
      exact h.codeSent token hnew
  | take kind id =>
    simp only [LoginServer.step] at hstep
    split at hstep <;> cases hstep
    · next p hp =>
      have hgone : Sound { s with pending := update s.pending id none } :=
        h.remove fun _ _ hq => (update_none_eq_some hq).2
      refine hgone.take (Function.update_self ..) (fun d hd hid _ => h.alone id p hp d hd hid) ?_ ?_
      · intro q hq hexpired
        have hold := h.pendingOld id p hp hexpired
        unfold PendingSession.isLive at hold ⊢
        rw [LoginStep.held_begin hq]
        exact hold
      · exact fun _ => h.pendingIssued id p hp
    · next hp => exact h.take hp (fun _ _ _ hc => nomatch hc) nofun nofun
  | putBack i =>
    simp only [LoginServer.step] at hstep
    split at hstep
    · next c hi =>
      split at hstep
      · next p hp =>
        cases hstep
        have hheld : c.held = some p := by
          unfold LoginCall.held
          rw [hp]
        exact h.putBack hi hheld hok .noCode
      · cases hstep
    · cases hstep
  | signIn i outcome exported =>
    simp only [LoginServer.step] at hstep
    split at hstep
    · next c hi =>
      split at hstep
      · next token p hp =>
        have hheld : c.held = some p := by
          unfold LoginCall.held
          rw [hp]
        split at hstep <;> cases hstep
        · next p' reply hhandle =>
          refine h.putBack hi hheld (hok ?_) reply
          cases outcome <;> first | rfl | cases hhandle
        · exact h.done hi _
      · cases hstep
    · cases hstep
  | checkPassword i accepted exported =>
    simp only [LoginServer.step] at hstep
    split at hstep
    · next c hi =>
      split at hstep
      · cases hstep
        exact h.done hi _
      · cases hstep
    · cases hstep
  | abandon i =>
    simp only [LoginServer.step] at hstep
    split at hstep
    · next c hi =>
      split at hstep
      · cases hstep
        exact h.done hi _
      · cases hstep
    · cases hstep
  | cancel id =>
    cases hstep
    exact h.cancel id

/-- An orderly step puts no dead login into the map. -/
theorem Sound.not_back (h : s.Sound) {e : LoginEvent} (hok : s.Orderly e)
    (hstep : s.step e = some s') {id : Str} {p : PendingSession} (hdead : s.Dead id)
    (hp : s'.pending id = some p) : s.pending id = some p := by
  -- what a request puts back is put under the id of a live login
  have hput {i : ℕ} {c : LoginCall} {q r : PendingSession} (hi : s.calls[i]? = some c)
      (hq : c.held = some q) (hlive : s.HoldsLive i)
      (hp : update s.pending c.id (some r) id = some p) : s.pending id = some p := by
    have hne : id ≠ c.id := by
      rintro rfl
      exact h.not_dead_of_held hi hq hlive hdead
    rwa [Function.update_of_ne hne] at hp
  cases e with
  | elapse d =>
    cases hstep
    exact hp
  | gcExpired =>
    cases hstep
    exact (Option.filter_eq_some_iff.mp hp).1
  | codeSent id' token =>
    simp only [LoginServer.step] at hstep
    split at hstep
    · cases hstep
    · next hnew =>
      cases hstep
      have hne : id ≠ id' := by
        rintro rfl
        exact hnew (h.deadIssued id hdead)
      exact (Function.update_of_ne hne _ _).symm.trans hp
  | take kind id' =>
    simp only [LoginServer.step] at hstep
    split at hstep <;> cases hstep
    · exact (update_none_eq_some hp).2
    · exact hp
  | putBack i =>
    simp only [LoginServer.step] at hstep
    split at hstep
    · next c hi =>
      split at hstep
      · next q hq =>
        cases hstep
        have hheld : c.held = some q := by
          unfold LoginCall.held
          rw [hq]
        exact hput hi hheld hok hp
      · cases hstep
    · cases hstep
  | signIn i outcome exported =>
    simp only [LoginServer.step] at hstep
    split at hstep
    · next c hi =>
      split at hstep
      · next token q hq =>
        have hheld : c.held = some q := by
          unfold LoginCall.held
          rw [hq]
        split at hstep <;> cases hstep
        · next p' reply hhandle =>
          refine hput hi hheld (hok ?_) hp
          cases outcome <;> first | rfl | cases hhandle
        · exact hp
      · cases hstep
    · cases hstep
  | checkPassword i accepted exported =>
    simp only [LoginServer.step] at hstep
    split at hstep
    · split at hstep <;> cases hstep
      exact hp
    · cases hstep
  | abandon i =>
    simp only [LoginServer.step] at hstep
    split at hstep
    · split at hstep <;> cases hstep
      exact hp
    · cases hstep
  | cancel id' =>
    cases hstep
    exact (update_none_eq_some hp).2

end LoginServer

/-- **Dead logins stay dead** in runs whose steps are all orderly. -/
theorem staysDead (ok : LoginServer → LoginEvent → Prop)
    (horderly : ∀ s e, ok s e → s.Orderly e) : StaysDead ok := by
  have hsound {s : LoginServer} (hs : loginMachine.Reaches ok s) : s.Sound :=
    hs.invariant LoginServer.sound_new fun s e _ ih hok hstep =>
      LoginServer.Sound.step ih (horderly s e hok) hstep
  exact ⟨fun s e s' id hs hok _ hdead => (hsound hs).not_accepts (horderly s e hok) hdead,
    fun s e s' id p hs hok hstep hdead hp => (hsound hs).not_back (horderly s e hok) hstep hdead hp⟩

theorem staysDead_orderly : StaysDead fun s e => s.Orderly e := staysDead _ fun _ _ hok => hok

/-! ### The ledger -/

namespace LoginServer

open Function (update)

variable {s s' : LoginServer}

/-- The ledger knows of all logins that are too old, wherever they are. -/
structure Recorded (s : LoginServer) : Prop where
  pending : ∀ id p, s.pending id = some p → p.isLive s.now = false → s.expired id
  held : ∀ c ∈ s.calls, ∀ p, c.held = some p → p.isLive s.now = false → s.expired c.id

theorem recorded_new : Recorded .new where
  pending _ _ h := nomatch h
  held _ h := nomatch h

theorem Recorded.update (h : s.Recorded) {pending : Str → Option PendingSession} {id : Str}
    {p : PendingSession} (hp : p.isLive s.now = false → s.expired id)
    (hpending : pending = Function.update s.pending id (some p)) :
    Recorded { s with pending } := by
  refine ⟨fun id' q hq hold => ?_, h.held⟩
  change pending id' = some q at hq
  rw [hpending] at hq
  by_cases hid : id' = id
  · rw [hid, Function.update_self] at hq
    rw [hid]
    cases hq
    exact hp hold
  · rw [Function.update_of_ne hid] at hq
    exact h.pending id' q hq hold

theorem Recorded.remove (h : s.Recorded) {pending : Str → Option PendingSession}
    (hsub : ∀ id p, pending id = some p → s.pending id = some p) :
    Recorded { s with pending } :=
  ⟨fun id p hp => h.pending id p (hsub id p hp), h.held⟩

theorem Recorded.done (h : s.Recorded) (i : ℕ) (c : LoginCall) (reply : LoginReply) :
    (s.setPhase i c (.done reply)).Recorded :=
  ⟨h.pending, List.forall_mem_set h.held nofun⟩

theorem Recorded.step {e : LoginEvent} (h : s.Recorded) (hstep : s.step e = some s') :
    s'.Recorded := by
  cases e with
  | elapse d =>
    cases hstep
    refine ⟨fun id p hp hold => ?_, fun c hc p hp hold => ?_⟩
    · exact Bool.or_eq_true_iff.mpr (.inr (isOld_eq_true_iff.mpr (.inl ⟨p, hp, hold⟩)))
    · exact Bool.or_eq_true_iff.mpr (.inr (isOld_eq_true_iff.mpr (.inr ⟨c, hc, rfl, p, hp, hold⟩)))
  | gcExpired =>
    cases hstep
    exact h.remove fun _ _ hp => (Option.filter_eq_some_iff.mp hp).1
  | codeSent id token =>
    simp only [LoginServer.step] at hstep
    split at hstep <;> cases hstep
    have hnew : Recorded
        { s with pending := Function.update s.pending id (some ⟨some token, none, s.now⟩) } :=
      h.update (fun hold => absurd (PendingSession.isLive_created rfl) (Bool.eq_false_iff.mp hold))
        rfl
    exact ⟨hnew.pending, hnew.held⟩
  | take kind id =>
    simp only [LoginServer.step] at hstep
    split at hstep <;> cases hstep
    · next p hp =>
      refine ⟨fun id' q hq => h.pending id' q (update_none_eq_some hq).2, fun c hc q hq hold => ?_⟩
      rcases List.mem_append.mp hc with hc | hc
      · exact h.held c hc q hq hold
      · rw [List.mem_singleton.mp hc] at hq ⊢
        refine h.pending id p hp ?_
        unfold PendingSession.isLive at hold ⊢
        rw [← LoginStep.held_begin hq]
        exact hold
    · refine ⟨h.pending, fun c hc q hq => ?_⟩
      rcases List.mem_append.mp hc with hc | hc
      · exact h.held c hc q hq
      · rw [List.mem_singleton.mp hc] at hq
        cases hq
  | putBack i =>
    simp only [LoginServer.step] at hstep
    split at hstep
    · next c hi =>
      split at hstep <;> cases hstep
      next p hp =>
        have hheld : c.held = some p := by
          unfold LoginCall.held
          rw [hp]
        exact (h.update (h.held c (List.mem_of_getElem? hi) p hheld) rfl).done i c _
    · cases hstep
  | signIn i outcome exported =>
    simp only [LoginServer.step] at hstep
    split at hstep
    · next c hi =>
      split at hstep
      · split at hstep <;> cases hstep
        · next p' reply hhandle =>
          -- what goes back is renewed
          have hlive : p'.isLive s.now := by
            refine PendingSession.isLive_created ?_
            cases outcome <;> cases hhandle <;> rfl
          refine (h.update (fun hold => ?_) rfl).done i c _
          rw [hlive] at hold
          cases hold
        · exact h.done i c _
      · cases hstep
    · cases hstep
  | checkPassword i accepted exported =>
    simp only [LoginServer.step] at hstep
    split at hstep
    · split at hstep <;> cases hstep
      exact h.done i _ _
    · cases hstep
  | abandon i =>
    simp only [LoginServer.step] at hstep
    split at hstep
    · split at hstep <;> cases hstep
      exact h.done i _ _
    · cases hstep
  | cancel id =>
    cases hstep
    exact ⟨fun id' p hp => h.pending id' p (update_none_eq_some hp).2, h.held⟩

end LoginServer

/-- In every run the ledger is complete, so `Dead` misses no login that is too old. -/
theorem recorded_of_reaches {ok : LoginServer → LoginEvent → Prop} {s : LoginServer}
    (hs : loginMachine.Reaches ok s) : s.Recorded :=
  hs.invariant (P := LoginServer.Recorded) LoginServer.recorded_new fun _ _ _ ih _ hstep =>
    LoginServer.Recorded.step ih hstep

/-! ### Dead logins that come back -/

/-- A code is sent and verified. While the request waits for Telegram, the login is cancelled; then
Telegram says that the code is wrong. -/
def cancelledMeanwhile : List LoginEvent :=
  [.codeSent "a".toList 0, .take .verify "a".toList, .cancel "a".toList]

theorem staysDead_fails : ¬ StaysDead Machine.Anyhow := by
  intro h
  have hrun : ((loginMachine.run cancelledMeanwhile).bind fun s =>
      (s.step (.signIn 0 .invalidCode true)).map fun s' =>
        (s.cancelled "a".toList, s.pending "a".toList, s'.pending "a".toList)) =
      some (true, none, some ⟨some 0, none, 0⟩) := by decide +kernel
  cases hs : loginMachine.run cancelledMeanwhile with
  | none =>
    rw [hs] at hrun
    cases hrun
  | some s =>
    rw [hs] at hrun
    obtain ⟨s', hstep, hafter⟩ := Option.map_eq_some_iff.mp hrun
    obtain ⟨hcancelled, hpending⟩ := Prod.mk.inj hafter
    obtain ⟨hbefore, hback⟩ := Prod.mk.inj hpending
    have := h.back s _ s' _ _ (Machine.reaches_run hs) trivial hstep (.inl hcancelled) hback
    rw [hbefore] at this
    cases this

end MediaFlow
