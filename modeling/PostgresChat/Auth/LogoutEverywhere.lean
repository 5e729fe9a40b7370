import PostgresChat.Auth.SingleUse

/-!
# Logging out everywhere

`logout` without a session revokes all sessions of a user in one UPDATE. A `refresh` that has read
the session of its token as active before that UPDATE, and inserts the new one after it, opens a
session that the UPDATE does not reach. When the UPDATE runs while no `refresh` of the user is on
its way there, nothing is left.
-/

namespace PostgresChat

open Execution

/-- The statement of a call has run, and the call knows. -/
def AuthCallState.executed : AuthCallState → Bool
  | .awaiting _ (some (some _)) | .returned _ => true
  | _ => false

namespace Ledger

/-! ## The property -/

/-- Once a `logout` of the user has returned and no call is under way, every session of the user
that a `refresh` has inserted is revoked. -/
def LogoutWins (l : Ledger) (userId : JsString) : Prop :=
  (∃ call ∈ l.sys.calls, call.request = .logout none userId ∧ call.state.isReturned = true) →
  (∀ call ∈ l.sys.calls, call.state.isReturned = true ∨ call.state = .threw) →
  ∀ c refreshToken, l.Refreshes refreshToken c (fun _ ↦ True) → ∀ session ∈ l.sys.db.sessions,
    l.Inserts c session.id → session.userId = Uuid.parse userId → session.revokedAt ≠ none

/-- Only `refresh` and `logout` are called. -/
def Closing (_ : Ledger) : AuthEvent → Prop
  | .call _ request => ¬ request.Opens
  | _ => True

/-- The UPDATE of `logout` runs while no `refresh` of the user is about to insert a session. -/
def NoneRenewing (lib : AuthLibraries) (userId : JsString) (l : Ledger) : AuthEvent → Prop
  | .settle c .answered _ _ => ∀ call ∈ l.sys.calls[c]?, call.request = .logout none userId →
    ∀ call' ∈ l.sys.calls, ∀ user ∈ call'.state.renewing lib, some user.id ≠ Uuid.parse userId
  | _ => True

instance (request : AuthRequest) : Decidable request.Opens := by
  rcases request with _ | _ | _ | _ <;> dsimp only [AuthRequest.Opens] <;> infer_instance

instance (l : Ledger) (e : AuthEvent) : Decidable (l.Closing e) := by
  rcases e with _ | _ | _ | _ <;> dsimp only [Closing] <;> infer_instance

instance (lib : AuthLibraries) (userId : JsString) (l : Ledger) (e : AuthEvent) :
    Decidable (l.NoneRenewing lib userId e) := by
  rcases e with _ | _ | ⟨_, _ | _ | _, _, _⟩ | _ <;> dsimp only [NoneRenewing] <;> infer_instance

/-! ## The invariant -/

/-- No session of the user is active, and none is about to be inserted. -/
structure Gone (lib : AuthLibraries) (userId : JsString) (l : Ledger) : Prop where
  revoked : ∀ session ∈ l.sys.db.sessions, session.userId = Uuid.parse userId →
    session.revokedAt ≠ none
  quiet : ∀ call ∈ l.sys.calls, ∀ user, call.state.renewing lib = some user →
    some user.id ≠ Uuid.parse userId

/-- After the UPDATE of a `logout` nothing is left. -/
structure Settled (lib : AuthLibraries) (userId : JsString) (l : Ledger) : Prop where
  closing : ∀ call ∈ l.sys.calls, ¬ call.request.Opens
  gone : (∃ call ∈ l.sys.calls, call.request = .logout none userId ∧ call.state.executed = true) →
    l.Gone lib userId

variable {lib : AuthLibraries} {userId : JsString} {l l' : Ledger} {e : AuthEvent}

/-- What holds of every call and of the new state of one call holds of every call afterwards. -/
theorem forall_mem_set {P : AuthCall → Prop} {c : ℕ} {call : AuthCall}
    (h : ∀ call ∈ l.sys.calls, P call) (hnew : P call) :
    ∀ call' ∈ l.sys.calls.set c call, P call' := by
  intro call' hcall'
  rcases List.mem_or_eq_of_mem_set hcall' with hcall' | rfl
  · exact h call' hcall'
  · exact hnew

theorem executed_of_resume {stage : AuthStage} {settled : Option AuthAnswer} {now : ℕ}
    (h : (stage.resume lib now settled).state.executed = true) :
    (AuthCallState.awaiting stage (some settled)).executed = true := by
  cases settled with
  | some answer => rfl
  | none => cases h

/-- Where the UPDATE of a `logout` has run, it has run before, or by the call that goes on. -/
theorem executed_of_set {c : ℕ} {call : AuthCall} {state : AuthCallState}
    (hcalls : l'.sys.calls = l.sys.calls.set c { call with state := state })
    (h : ∃ call ∈ l'.sys.calls, call.request = .logout none userId ∧ call.state.executed = true) :
    (∃ call ∈ l.sys.calls, call.request = .logout none userId ∧ call.state.executed = true) ∨
      call.request = .logout none userId ∧ state.executed = true := by
  obtain ⟨call', hcall', hrequest, hexecuted⟩ := h
  rw [hcalls] at hcall'
  rcases List.mem_or_eq_of_mem_set hcall' with hcall' | rfl
  · exact Or.inl ⟨call', hcall', hrequest, hexecuted⟩
  · exact Or.inr ⟨hrequest, hexecuted⟩

/-- A statement that runs where nothing is left leaves nothing: no session is read as active, so
none is inserted. -/
theorem Gone.performed (h : l.Gone lib userId) {c : ℕ} {call : AuthCall} {stage : AuthStage}
    {fresh : Uuid} {salt : JsString} {answer : AuthAnswer} {settled : Option AuthAnswer}
    (hcall : call ∈ l.sys.calls) (hstate : call.state = .awaiting stage none)
    (hkept : stage.Kept lib l.sys.db.keys call.request) (hopens : ¬ call.request.Opens)
    (hsettled : settled = some answer ∨ settled = none)
    (hperform : (stage.promise call.nodeId).perform lib l.sys.db fresh salt =
      some (l'.sys.db, answer))
    (hcalls : l'.sys.calls =
      l.sys.calls.set c { call with state := .awaiting stage (some settled) }) :
    l'.Gone lib userId := by
  constructor
  · rcases AuthStage.perform_sessions hperform with
      ⟨user, deviceInfo, tokens, matched, hashed, rfl, -, hsessions⟩ | ⟨-, hsessions⟩
    · rw [hsessions]
      intro session hsession
      rcases List.mem_append.mp hsession with hsession | hsession
      · exact h.revoked session hsession
      · obtain rfl := List.mem_singleton.mp hsession
        cases matched with
        | none => exact absurd hkept.1 hopens
        | some matched =>
          exact fun howner ↦ absurd howner (h.quiet call hcall user (by rw [hstate]; rfl))
    · rw [hsessions]
      intro session hsession
      obtain ⟨old, hold, rfl⟩ := List.mem_map.mp hsession
      split
      · rintro - ⟨⟩
      · exact h.revoked old hold
  · rw [hcalls]
    refine forall_mem_set h.quiet fun user hrenewing ↦ ?_
    by_cases hselect : ∃ token user, stage = .refreshSessions token user
    · obtain ⟨token, user', rfl⟩ := hselect
      rcases hsettled with rfl | rfl
      · obtain ⟨-, hanswer⟩ := perform_refreshSessions hperform
        rw [AuthCallState.renewing, Option.ite_none_right_eq_some, hanswer,
          List.any_eq_true] at hrenewing
        obtain ⟨⟨session, hsession, -⟩, hsome⟩ := hrenewing
        obtain rfl := Option.some.inj hsome
        obtain ⟨hmem, howner, hrevoked, -⟩ := AuthDb.mem_activeSessions.mp hsession
        exact fun huser ↦ h.revoked session hmem (howner.trans huser) hrevoked
      · cases hrenewing
    · refine h.quiet call hcall user ?_
      rw [hstate]
      exact renewing_settled (fun token user' hstage ↦ hselect ⟨token, user', hstage⟩) hrenewing

/-- The UPDATE of a `logout` leaves nothing behind. -/
theorem gone_of_logout {c : ℕ} {call : AuthCall} {fresh : Uuid} {salt : JsString}
    {answer : AuthAnswer} {settled : Option AuthAnswer}
    (hquiet : ∀ call ∈ l.sys.calls, ∀ user, call.state.renewing lib = some user →
      some user.id ≠ Uuid.parse userId)
    (hperform :
      ((AuthStage.logout none userId).promise call.nodeId).perform lib l.sys.db fresh salt =
        some (l'.sys.db, answer))
    (hcalls : l'.sys.calls =
      l.sys.calls.set c { call with state := .awaiting (.logout none userId) (some settled) }) :
    l'.Gone lib userId := by
  constructor
  · rcases AuthStage.perform_sessions hperform with
      ⟨user, deviceInfo, tokens, matched, hashed, hstage, -⟩ | ⟨-, hsessions⟩
    · cases hstage
    · rw [hsessions]
      intro session hsession howner hrevoked
      obtain ⟨old, hold, rfl⟩ := List.mem_map.mp hsession
      split at hrevoked
      · cases hrevoked
      · rename_i hrevokes
        rw [if_neg hrevokes] at howner
        refine hrevokes ?_
        cases hparse : Uuid.parse userId with
        | none => simp [AuthStage.promise, AuthPromise.perform, AuthDb.exec, hparse] at hperform
        | some owner =>
          simp [AuthStage.promise, AuthPromise.revokes, AuthQuery.revokes, hparse, howner, hrevoked]
  · rw [hcalls]
    exact forall_mem_set hquiet (by rintro _ ⟨⟩)

/-- **Step lemma.** -/
theorem Settled.step (h : l.Settled lib userId) (hkept : l.Kept lib) (hclosing : l.Closing e)
    (hnone : l.NoneRenewing lib userId e) (heffect : Effect lib l l' e) :
    l'.Settled lib userId := by
  cases heffect with
  | tick ms db calls log =>
    refine ⟨by rw [calls]; exact h.closing, fun hexecuted ↦ ?_⟩
    rw [calls] at hexecuted
    exact ⟨by rw [db]; exact (h.gone hexecuted).revoked,
      by rw [calls]; exact (h.gone hexecuted).quiet⟩
  | call nodeId request db calls log =>
    refine ⟨fun call hcall ↦ ?_, fun hexecuted ↦ ?_⟩
    · rw [calls, List.mem_append, List.mem_singleton] at hcall
      rcases hcall with hcall | rfl
      · exact h.closing call hcall
      · exact hclosing
    · have hgone : l.Gone lib userId := by
        obtain ⟨call, hcall, hrequest, hexecuted⟩ := hexecuted
        rw [calls, List.mem_append, List.mem_singleton] at hcall
        rcases hcall with hcall | rfl
        · exact h.gone ⟨call, hcall, hrequest, hexecuted⟩
        · obtain rfl : request = .logout none userId := hrequest
          cases hexecuted
      refine ⟨by rw [db]; exact hgone.revoked, fun call hcall user hrenewing ↦ ?_⟩
      rw [calls, List.mem_append, List.mem_singleton] at hcall
      rcases hcall with hcall | rfl
      · exact hgone.quiet call hcall user hrenewing
      · rw [renewing_start] at hrenewing
        cases hrenewing
  | @performed c call stage fate fresh salt answer settled hcall hstate hfate perform calls log =>
    have hmem := List.mem_of_getElem? hcall
    have hstage : stage.Kept lib l.sys.db.keys call.request := by
      have hkeptState := hkept.calls c call hcall
      rw [hstate] at hkeptState
      exact hkeptState.1
    refine ⟨?_, fun hexecuted ↦ ?_⟩
    · rw [calls]
      exact forall_mem_set h.closing (h.closing call hmem)
    · rcases executed_of_set calls hexecuted with hbefore | ⟨hrequest, hnow⟩
      · exact (h.gone hbefore).performed hmem hstate hstage (h.closing call hmem)
          (hfate.imp And.right And.right) perform calls
      · -- The UPDATE of the logout is executed in this step. Nobody is renewing then.
        rcases hfate with ⟨rfl, rfl⟩ | ⟨-, rfl⟩
        · have hlogout : stage = .logout none userId := by
            rw [hrequest] at hstage
            cases stage with
            | logout sessionId userId' =>
              obtain ⟨rfl, rfl⟩ := AuthRequest.logout.inj hstage
              rfl
            | sessionHash user deviceInfo tokens matched =>
              cases matched with
              | none => exact False.elim hstage
              | some matched => exact absurd hstage.2.choose_spec.1 (by rintro ⟨⟩)
            | sessionInsert user deviceInfo tokens matched hashed =>
              cases matched with
              | none => exact False.elim hstage.1
              | some matched => exact absurd hstage.1.2.choose_spec.1 (by rintro ⟨⟩)
            | refreshRevoke => exact absurd hstage.2.choose_spec.1 (by rintro ⟨⟩)
            | refreshFind | refreshSessions => cases hstage
            | refreshCompare => cases hstage.1
            | _ => exact False.elim hstage
          subst hlogout
          exact gone_of_logout (fun call' hcall' user hrenewing ↦
            hnone call hcall hrequest call' hcall' user hrenewing) perform calls
        · cases hnow
  | @failed c call stage fate fresh salt hcall hstate hfate db calls log =>
    have hmem := List.mem_of_getElem? hcall
    refine ⟨?_, fun hexecuted ↦ ?_⟩
    · rw [calls]
      exact forall_mem_set h.closing (h.closing call hmem)
    · -- A rejected promise leaves the tables alone, and a rejected call renews nothing.
      rcases executed_of_set calls hexecuted with hbefore | ⟨-, hnow⟩
      · refine ⟨by rw [db]; exact (h.gone hbefore).revoked, ?_⟩
        rw [calls]
        refine forall_mem_set (h.gone hbefore).quiet fun user hrenewing ↦ ?_
        rw [renewing_rejected] at hrenewing
        cases hrenewing
      · cases hnow
  | @resumed c call stage settled hcall hstate db calls log =>
    have hmem := List.mem_of_getElem? hcall
    have hkeptState := hstate ▸ hkept.calls c call hcall
    refine ⟨?_, fun hexecuted ↦ ?_⟩
    · rw [calls]
      exact forall_mem_set h.closing (h.closing call hmem)
    · have hgone : l.Gone lib userId := by
        refine h.gone ?_
        rcases executed_of_set calls hexecuted with hbefore | ⟨hrequest, hnow⟩
        · exact hbefore
        · exact ⟨call, hmem, hrequest, hstate ▸ executed_of_resume hnow⟩
      refine ⟨by rw [db]; exact hgone.revoked, ?_⟩
      rw [calls]
      refine forall_mem_set hgone.quiet fun user hrenewing ↦ hgone.quiet call hmem user ?_
      rwa [renewing_resume _ hkeptState, ← hstate] at hrenewing

theorem settled_start {db : AuthDb} {before : List (Uuid × JsString)} :
    (start db before).Settled lib userId := by
  have hcalls : ∀ call, call ∉ (start db before).sys.calls := fun call ↦ List.not_mem_nil
  constructor
  · exact fun call hcall ↦ absurd hcall (hcalls call)
  · rintro ⟨call, hcall, -⟩
    exact absurd hcall (hcalls call)

/-- **Logging out wins.** In every run of `refresh` and `logout` calls in which the UPDATE of a
`logout` of the user runs while no `refresh` of the user is about to insert a session, nothing that
a `refresh` has inserted survives the `logout`. -/
theorem logout_wins {db : AuthDb} {before : List (Uuid × JsString)} (hissued : Issued lib db before)
    {es : List AuthEvent} (hclosing : Guarded (Ledger.step lib) Closing (start db before) es)
    (hnone : Guarded (Ledger.step lib) (NoneRenewing lib userId) (start db before) es)
    (hrun : run (Ledger.step lib) (start db before) es = some l) : l.LogoutWins userId := by
  have hinvariant : l.Kept lib ∧ l.Settled lib userId := by
    refine guarded_invariant (fun l ↦ l.Kept lib ∧ l.Settled lib userId)
      (fun h hguard hstep ↦ ?_) ⟨hissued.kept, settled_start⟩ (hclosing.and hnone) hrun
    have heffect := effect_of_step hstep
    exact ⟨h.1.step heffect, h.2.step h.1 hguard.1 hguard.2 heffect⟩
  rintro ⟨call, hcall, hrequest, hreturned⟩ - c refreshToken - session hsession - howner
  refine (hinvariant.2.gone ⟨call, hcall, hrequest, ?_⟩).revoked session hsession howner
  cases hstate : call.state with
  | returned => rfl
  | awaiting | threw =>
    rw [hstate] at hreturned
    cases hreturned

/-- A `refresh` that is over is undone by the `logout`. -/
theorem logout_wins_in_turn :
    ∃ l, run (Ledger.step .clear) (start aliceDb [(.ofDigit 5, aliceToken)])
        (.tick 1000 :: .call [] (.refresh aliceToken) :: AuthSystem.answers 0 6 (.ofDigit 1) ++
        .call [] (.logout none Uuid.nil.text) :: AuthSystem.answers 1 1 .nil) = some l ∧
      l.sys.calls.map (·.state.isReturned) = [true, true] ∧ l.LogoutWins Uuid.nil.text := by
  refine exists_run_of_any
    (fun l : Ledger ↦ l.sys.calls.map (·.state.isReturned) = [true, true]) (by decide +kernel) ?_
  intro l hrun hreturned
  exact ⟨hreturned, logout_wins issued_alice (by decide +kernel) (by decide +kernel) hrun⟩

/-- A `refresh` that has read its session inserts the new one after the `logout`. -/
theorem refreshed_after_logout :
    ∃ l, run (Ledger.step .clear) (start aliceDb [(.ofDigit 5, aliceToken)])
        (.tick 1000 :: .call [] (.refresh aliceToken) :: AuthSystem.answers 0 3 .nil ++
        .call [] (.logout none Uuid.nil.text) :: AuthSystem.answers 1 1 .nil ++
        AuthSystem.answers 0 3 (.ofDigit 1)) = some l ∧
      Issued .clear aliceDb [(.ofDigit 5, aliceToken)] ∧ ¬ l.LogoutWins Uuid.nil.text := by
  refine exists_run_of_any (fun l : Ledger ↦
    l.sys.calls.map (fun call ↦ (call.request, call.state.isReturned)) =
      [(.refresh aliceToken, true), (.logout none Uuid.nil.text, true)] ∧
    .inserted (some 0) (.ofDigit 1) (AuthLibraries.clear.signRefreshToken AuthSystem.alice 1) ∈
      l.log ∧
    ∃ session ∈ l.sys.db.sessions, session.id = .ofDigit 1 ∧
      session.userId = Uuid.parse Uuid.nil.text ∧ session.revokedAt = none) (by decide +kernel) ?_
  rintro l - ⟨hcalls, hlog, session, hsession, hid, howner, hrevoked⟩
  refine ⟨issued_alice, fun hwins ↦ ?_⟩
  have hlogout : ∃ call ∈ l.sys.calls,
      call.request = .logout none Uuid.nil.text ∧ call.state.isReturned = true := by
    have hmem : (.logout none Uuid.nil.text, true) ∈
        l.sys.calls.map fun call ↦ (call.request, call.state.isReturned) := by
      rw [hcalls]
      exact List.mem_cons_of_mem _ List.mem_cons_self
    obtain ⟨call, hcall, hpair⟩ := List.mem_map.mp hmem
    exact ⟨call, hcall, Prod.mk.inj hpair⟩
  have hover : ∀ call ∈ l.sys.calls, call.state.isReturned = true ∨ call.state = .threw := by
    intro call hcall
    have hmem : (call.request, call.state.isReturned) ∈
        l.sys.calls.map fun call ↦ (call.request, call.state.isReturned) :=
      List.mem_map_of_mem hcall
    rw [hcalls, List.mem_pair] at hmem
    exact Or.inl (hmem.elim (fun h ↦ (Prod.mk.inj h).2) fun h ↦ (Prod.mk.inj h).2)
  have hrefresh : l.Refreshes aliceToken 0 (fun _ ↦ True) := by
    have hget : (l.sys.calls.map fun call ↦ (call.request, call.state.isReturned))[0]? =
        some (.refresh aliceToken, true) := by
      rw [hcalls]
      rfl
    rw [List.getElem?_map, Option.map_eq_some_iff] at hget
    obtain ⟨call, hcall, hpair⟩ := hget
    exact ⟨call, hcall, (Prod.mk.inj hpair).1, trivial⟩
  exact hwins hlogout hover 0 aliceToken hrefresh session hsession ⟨_, hid ▸ hlog⟩ howner hrevoked

end Ledger

end PostgresChat
