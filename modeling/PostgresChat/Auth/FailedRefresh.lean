import PostgresChat.Auth.SingleUse

/-!
# A refresh that throws

`refresh` writes twice: it inserts the new session, and then it revokes the one it has matched. The
two statements are not in a transaction. When the call throws at any `await` before the INSERT, or
at the INSERT itself, the table is as it was; when it throws at the UPDATE, the new session stays.
-/

namespace PostgresChat

open Execution

/-- An `await` of `refresh`. -/
def AuthStage.ofRefresh : AuthStage → Bool
  | .refreshFind .. | .refreshSessions .. | .refreshCompare .. => true
  | .sessionHash _ _ _ matched | .sessionInsert _ _ _ matched _ => matched.isSome
  | .refreshRevoke .. => true
  | .registerFind .. | .registerHash .. | .registerInsert .. | .loginFind .. | .loginCompare ..
  | .logout .. => false

/-- A state of a `refresh`. -/
def AuthCallState.ofRefresh : AuthCallState → Bool
  | .awaiting stage _ => stage.ofRefresh
  | .returned _ | .threw => true

/-- The promise of a call does not fail where the call has written already: not at an INSERT that
has been executed, and not at the UPDATE. -/
def AuthCall.FailsClean (lib : AuthLibraries) (db : AuthDb) (fate : Fate) (fresh : Uuid)
    (salt : JsString) (call : AuthCall) : Prop :=
  match call.state with
  | .awaiting stage@(.sessionInsert ..) none =>
    fate = .lost → (stage.promise call.nodeId).perform lib db fresh salt = none
  | .awaiting (.refreshRevoke ..) none => fate = .answered
  | _ => True

/-- The events of call `c`, and time passing. -/
def AuthEvent.Of (c : ℕ) : AuthEvent → Prop
  | .tick _ => True
  | .call .. => False
  | .settle c' .. | .resume c' => c' = c

section

variable {lib : AuthLibraries} {now : ℕ} {stage : AuthStage}

theorem ofRefresh_matchSessions (refreshToken : JsString) (user : User) (sessions : List Session) :
    (matchSessions refreshToken user sessions).state.ofRefresh = true := by
  cases sessions <;> rfl

theorem ofRefresh_start (refreshToken : JsString) :
    ((AuthRequest.refresh refreshToken).start lib now).state.ofRefresh = true := by
  rw [AuthRequest.start]
  split
  · rfl
  · split <;> rfl

theorem ofRefresh_resume (h : stage.ofRefresh = true) (settled : Option AuthAnswer) :
    (stage.resume lib now settled).state.ofRefresh = true := by
  cases settled with
  | none => rfl
  | some answer =>
    cases stage with
    | refreshFind refreshToken sub =>
      rw [AuthStage.resume, AuthStage.proceed]
      split <;> rfl
    | refreshSessions refreshToken user => exact ofRefresh_matchSessions _ _ _
    | refreshCompare refreshToken user session rest =>
      rw [AuthStage.resume, AuthStage.proceed]
      split
      · rfl
      · exact ofRefresh_matchSessions _ _ _
    | sessionHash user deviceInfo tokens matched => exact h
    | sessionInsert user deviceInfo tokens matched hashedRefresh =>
      cases matched with
      | none => cases h
      | some matched => rfl
    | refreshRevoke user tokens matched => rfl
    | _ => cases h

/-- A `refresh` that goes on has inserted its session exactly when it had, unless its UPDATE was
rejected. -/
theorem hasInserted_resume_iff (h : stage.ofRefresh = true) {settled : Option AuthAnswer}
    (hrevoked : ∀ user tokens matched, stage = .refreshRevoke user tokens matched →
      settled ≠ none) :
    (stage.resume lib now settled).state.hasInserted =
      (AuthCallState.awaiting stage (some settled)).hasInserted := by
  have hmatch : ∀ refreshToken user sessions,
      (matchSessions refreshToken user sessions).state.hasInserted = false := by
    intro refreshToken user sessions
    cases sessions <;> rfl
  cases settled with
  | none =>
    cases stage with
    | refreshRevoke user tokens matched => exact absurd rfl (hrevoked _ _ _ rfl)
    | _ => rfl
  | some answer =>
    cases stage with
    | refreshFind refreshToken sub =>
      rw [AuthStage.resume, AuthStage.proceed]
      split <;> rfl
    | refreshSessions refreshToken user => exact hmatch _ _ _
    | refreshCompare refreshToken user session rest =>
      rw [AuthStage.resume, AuthStage.proceed]
      split
      · rfl
      · exact hmatch _ _ _
    | sessionInsert user deviceInfo tokens matched hashedRefresh =>
      cases matched with
      | none => cases h
      | some matched => rfl
    | sessionHash | refreshRevoke => rfl
    | _ => cases h

/-- The UPDATE does not fail by itself. -/
theorem perform_refreshRevoke_ne_none {db : AuthDb} {fresh : Uuid} {salt nodeId : JsString}
    (user : User) (tokens : AuthTokens) (matched : Session) :
    ((AuthStage.refreshRevoke user tokens matched).promise nodeId).perform lib db fresh salt ≠
      none := by
  simp [AuthStage.promise, AuthPromise.perform, AuthDb.exec]

/-- No statement of `refresh` but the last one revokes a session. -/
theorem not_revokes_of_ofRefresh (h : stage.ofRefresh = true)
    (hrevoke : ∀ user tokens matched, stage ≠ .refreshRevoke user tokens matched)
    (nodeId : JsString)
    (session : Session) : (stage.promise nodeId).revokes session = false := by
  cases stage with
  | refreshRevoke => exact absurd rfl (hrevoke _ _ _)
  | refreshFind | refreshSessions | refreshCompare | sessionHash | sessionInsert => rfl
  | _ => cases h

end

namespace Ledger

variable {lib : AuthLibraries} {l l' : Ledger} {e : AuthEvent} {c : ℕ}

/-- Call `c` fails, if at all, where it has written nothing. -/
def FailsClean (lib : AuthLibraries) (c : ℕ) (l : Ledger) : AuthEvent → Prop
  | .settle c' fate fresh salt => c' = c → ∀ call ∈ l.sys.calls[c]?,
    call.FailsClean lib l.sys.db fate fresh salt
  | _ => True

instance (c : ℕ) : (e : AuthEvent) → Decidable (e.Of c)
  | .tick _ => isTrue trivial
  | .call .. => isFalse fun h ↦ h
  | .settle c' .. | .resume c' => inferInstanceAs (Decidable (c' = c))

instance (lib : AuthLibraries) (c : ℕ) (l : Ledger) (e : AuthEvent) :
    Decidable (l.FailsClean lib c e) := by
  cases e with
  | settle c' fate fresh salt =>
    have (call : AuthCall) : Decidable (call.FailsClean lib l.sys.db fate fresh salt) := by
      unfold AuthCall.FailsClean
      rcases call.state with ⟨_ | _, _ | _⟩ | _ | _ <;> dsimp only <;> infer_instance
    dsimp only [FailsClean]
    infer_instance
  | tick | call | resume => exact isTrue trivial

/-- No session disappears. -/
theorem length_sessions_le (heffect : Effect lib l l' e) :
    l.sys.db.sessions.length ≤ l'.sys.db.sessions.length := by
  cases heffect with
  | tick _ db => rw [db]
  | call _ _ db | failed _ _ _ db | resumed _ _ db => rw [db]
  | performed _ _ _ perform =>
    have hlength := (AuthStage.keys_grow perform).length_le
    rwa [AuthDb.keys, AuthDb.keys, List.length_map, List.length_map] at hlength

/-- What is known of call `c` in any run: it is a `refresh`, and once it has inserted its session
there are more than there were. -/
def Grown (n c : ℕ) (l : Ledger) : Prop :=
  n ≤ l.sys.db.sessions.length ∧ ∃ call, l.sys.calls[c]? = some call ∧
    call.state.ofRefresh = true ∧ (call.state.hasInserted = true → n < l.sys.db.sessions.length)

/-- The call is in another state. -/
theorem getElem?_calls_set {call : AuthCall} {state : AuthCallState}
    (hcall : l.sys.calls[c]? = some call)
    (hcalls : l'.sys.calls = l.sys.calls.set c { call with state := state }) :
    l'.sys.calls[c]? = some { call with state := state } := by
  rw [hcalls, List.getElem?_set_self (List.getElem?_eq_some_iff.mp hcall).1]

theorem Grown.step {n : ℕ} (h : l.Grown n c) (heffect : Effect lib l l' e) : l'.Grown n c := by
  obtain ⟨hle, call, hcall, hof, hinserted⟩ := h
  have hlength := length_sessions_le heffect
  -- Call `c` is where it was, while another call moves.
  have hother : ∀ {d : ℕ} {call' : AuthCall}, d ≠ c → l'.sys.calls = l.sys.calls.set d call' →
      l'.Grown n c := fun hne hcalls ↦
    ⟨hle.trans hlength, call, by rw [hcalls, List.getElem?_set_ne hne, hcall], hof,
      fun h ↦ (hinserted h).trans_le hlength⟩
  cases heffect with
  | tick _ _ calls =>
    exact ⟨hle.trans hlength, call, by rw [calls, hcall], hof,
      fun h ↦ (hinserted h).trans_le hlength⟩
  | call _ _ _ calls =>
    refine ⟨hle.trans hlength, call, ?_, hof, fun h ↦ (hinserted h).trans_le hlength⟩
    rw [calls]
    exact Lists.getElem?_concat_eq_some.mpr (Or.inl hcall)
  | @performed d call' stage fate fresh salt answer settled hcall' hstate hfate perform calls =>
    by_cases hd : d = c
    · subst hd
      obtain rfl := Option.some.inj (hcall.symm.trans hcall')
      rw [hstate] at hof hinserted
      refine ⟨hle.trans hlength, _, getElem?_calls_set hcall calls, hof, fun h ↦ ?_⟩
      rcases AuthStage.perform_sessions perform with
        ⟨user, deviceInfo, tokens, matched, hashedRefresh, -, -, hsessions⟩ | ⟨hnot, -⟩
      · rw [hsessions, List.length_append, List.length_singleton]
        exact Nat.lt_succ_of_le hle
      · refine (hinserted ?_).trans_le hlength
        cases stage with
        | sessionInsert => exact absurd rfl (hnot _ _ _ _ _)
        | refreshRevoke => rfl
        | _ => cases h
    · exact hother hd calls
  | @failed d call' stage fate fresh salt hcall' hstate hfate db calls =>
    by_cases hd : d = c
    · subst hd
      obtain rfl := Option.some.inj (hcall.symm.trans hcall')
      rw [hstate] at hof hinserted
      refine ⟨hle.trans hlength, _, getElem?_calls_set hcall calls, hof, fun h ↦ ?_⟩
      refine (hinserted ?_).trans_le hlength
      cases stage with
      | refreshRevoke => rfl
      | _ => cases h
    · exact hother hd calls
  | @resumed d call' stage settled hcall' hstate db calls =>
    by_cases hd : d = c
    · subst hd
      obtain rfl := Option.some.inj (hcall.symm.trans hcall')
      rw [hstate] at hof hinserted
      refine ⟨hle.trans hlength, _, getElem?_calls_set hcall calls, ofRefresh_resume hof settled,
        fun h ↦ (hinserted ?_).trans_le hlength⟩
      cases settled with
      | none => cases h
      | some answer => rwa [hasInserted_resume_iff hof (by rintro _ _ _ _ ⟨⟩)] at h
    · exact hother hd calls

/-- **A failure that is not clean** comes when there is a session more. -/
theorem Grown.of_not_failsClean {n : ℕ} (h : l.Grown n c) (heffect : Effect lib l l' e)
    (hmiss : ¬ l.FailsClean lib c e) : n < l'.sys.db.sessions.length := by
  obtain ⟨hle, call, hcall, -, hinserted⟩ := h
  cases e with
  | settle d fate fresh salt =>
    rw [FailsClean, Classical.not_imp] at hmiss
    obtain ⟨rfl, hmiss⟩ := hmiss
    rw [hcall] at hmiss
    simp only [Option.mem_def, Option.some.injEq, forall_eq', AuthCall.FailsClean] at hmiss
    split at hmiss
    · rename_i user deviceInfo tokens matched hashedRefresh hstate
      rw [Classical.not_imp] at hmiss
      obtain ⟨rfl, hperform⟩ := hmiss
      cases heffect with
      | performed hcall' hstate' _ perform =>
        obtain rfl := Option.some.inj (hcall.symm.trans hcall')
        obtain ⟨rfl, -⟩ := AuthCallState.awaiting.inj (hstate.symm.trans hstate')
        rcases AuthStage.perform_sessions perform with
          ⟨_, _, _, _, _, -, -, hsessions⟩ | ⟨hnot, -⟩
        · rw [hsessions, List.length_append, List.length_singleton]
          exact Nat.lt_succ_of_le hle
        · exact absurd rfl (hnot _ _ _ _ _)
      | failed hcall' hstate' hfate =>
        obtain rfl := Option.some.inj (hcall.symm.trans hcall')
        obtain ⟨rfl, -⟩ := AuthCallState.awaiting.inj (hstate.symm.trans hstate')
        rcases hfate with hrefused | hnone
        · cases hrefused
        · exact absurd hnone hperform
    · rename_i hstate
      rw [hstate] at hinserted
      exact (hinserted rfl).trans_le (length_sessions_le heffect)
    · exact absurd trivial hmiss
  | tick | call | resume => exact absurd trivial hmiss

/-! ## Failing cleanly -/

/-- Until call `c` has inserted its session, the table is `sessions`. -/
def Untouched (sessions : List Session) (c : ℕ) (l : Ledger) : Prop :=
  ∃ call, l.sys.calls[c]? = some call ∧ call.state.ofRefresh = true ∧
    (call.state.hasInserted = false → l.sys.db.sessions = sessions) ∧
    ∀ user tokens matched, call.state ≠ .awaiting (.refreshRevoke user tokens matched) (some none)

theorem Untouched.step {sessions : List Session} (h : l.Untouched sessions c)
    (hclean : l.FailsClean lib c e) (hof : e.Of c) (heffect : Effect lib l l' e) :
    l'.Untouched sessions c := by
  obtain ⟨call, hcall, hrefresh, htable, hnot⟩ := h
  cases heffect with
  | tick ms db calls =>
    refine ⟨call, by rw [calls, hcall], hrefresh, fun h ↦ ?_, hnot⟩
    rw [db]
    exact htable h
  | call => exact hof.elim
  | @performed d call' stage fate fresh salt answer settled hcall' hstate hfate perform calls =>
    obtain rfl : d = c := hof
    obtain rfl := Option.some.inj (hcall.symm.trans hcall')
    have hclean := hclean rfl call hcall
    rw [AuthCall.FailsClean, hstate] at hclean
    rw [hstate] at hrefresh htable
    refine ⟨_, getElem?_calls_set hcall calls, hrefresh, fun h ↦ ?_, ?_⟩
    · rcases AuthStage.perform_sessions perform with
        ⟨user, deviceInfo, tokens, matched, hashedRefresh, rfl, -, -⟩ | ⟨hinsert, hsessions⟩
      · -- The INSERT is executed: either its answer comes, or the guard excludes the step.
        rcases hfate with ⟨-, rfl⟩ | ⟨hlost, -⟩
        · cases h
        · rw [hclean hlost] at perform
          cases perform
      · -- A statement before the UPDATE revokes nothing.
        have hrevoke : ∀ user tokens matched, stage ≠ .refreshRevoke user tokens matched := by
          rintro user tokens matched rfl
          cases h
        rw [hsessions, ← AuthDb.map_sessions_of_not_revokes
          (not_revokes_of_ofRefresh hrefresh hrevoke call.nodeId)]
        refine htable ?_
        cases stage with
        | refreshRevoke => exact absurd rfl (hrevoke _ _ _)
        | _ => rfl
    · rintro user tokens matched heq
      obtain ⟨rfl, hnone⟩ := AuthCallState.awaiting.inj heq
      rcases hfate with ⟨-, rfl⟩ | ⟨hlost, -⟩
      · cases Option.some.inj hnone
      · exact absurd (hlost.symm.trans hclean) (by rintro ⟨⟩)
  | @failed d call' stage fate fresh salt hcall' hstate hfate db calls =>
    obtain rfl : d = c := hof
    obtain rfl := Option.some.inj (hcall.symm.trans hcall')
    have hclean := hclean rfl call hcall
    rw [AuthCall.FailsClean, hstate] at hclean
    rw [hstate] at hrefresh htable
    -- Under the guard the UPDATE does not fail.
    have hrevoke : ∀ user tokens matched, stage ≠ .refreshRevoke user tokens matched := by
      rintro user tokens matched rfl
      rcases hfate with hrefused | hnone
      · exact absurd (hrefused.symm.trans hclean) (by rintro ⟨⟩)
      · exact perform_refreshRevoke_ne_none user tokens matched hnone
    refine ⟨_, getElem?_calls_set hcall calls, hrefresh, fun _ ↦ ?_, fun user tokens matched heq ↦
      hrevoke user tokens matched (AuthCallState.awaiting.inj heq).1⟩
    rw [db]
    refine htable ?_
    cases stage with
    | refreshRevoke => exact absurd rfl (hrevoke _ _ _)
    | _ => rfl
  | @resumed d call' stage settled hcall' hstate db calls =>
    obtain rfl : d = c := hof
    obtain rfl := Option.some.inj (hcall.symm.trans hcall')
    rw [hstate] at hrefresh htable hnot
    have hsettled : ∀ user tokens matched, stage = .refreshRevoke user tokens matched →
        settled ≠ none := by
      rintro user tokens matched rfl rfl
      exact hnot user tokens matched rfl
    refine ⟨_, getElem?_calls_set hcall calls, ofRefresh_resume hrefresh settled, fun h ↦ ?_, ?_⟩
    · rw [db]
      rw [hasInserted_resume_iff hrefresh hsettled] at h
      exact htable h
    · intro user tokens matched
      cases hnext : stage.resume lib l.sys.db.now settled <;> rintro ⟨⟩

/-- The state in which the call has started. -/
theorem started {nodeId refreshToken : JsString} {l₁ : Ledger}
    (heffect : Effect lib l l₁ (.call nodeId (.refresh refreshToken))) :
    l₁.sys.db = l.sys.db ∧ l₁.sys.calls[l.sys.calls.length]? = some ⟨nodeId, .refresh refreshToken,
      ((AuthRequest.refresh refreshToken).start lib l.sys.db.now).state⟩ := by
  cases heffect with
  | call _ _ db calls => exact ⟨db, by rw [calls, List.getElem?_concat_length]⟩

/-- **A failed refresh** leaves the sessions as they were exactly when it fails cleanly. -/
theorem sessions_eq_iff_failsClean {nodeId refreshToken : JsString} {es : List AuthEvent}
    {call : AuthCall} (hof : ∀ e ∈ es, e.Of l.sys.calls.length)
    (hrun : run (step lib) l (.call nodeId (.refresh refreshToken) :: es) = some l')
    (hcall : l'.sys.calls[l.sys.calls.length]? = some call) (hthrew : call.state = .threw) :
    l'.sys.db.sessions = l.sys.db.sessions ↔
      Guarded (step lib) (FailsClean lib l.sys.calls.length) l
        (.call nodeId (.refresh refreshToken) :: es) := by
  obtain ⟨l₁, hfirst, hrest⟩ := run_cons_eq_some.mp hrun
  obtain ⟨hdb, hstarted⟩ := started (effect_of_step hfirst)
  have hrefresh :
      ((AuthRequest.refresh refreshToken).start lib l.sys.db.now).state.ofRefresh = true :=
    ofRefresh_start refreshToken
  constructor
  · intro heq
    refine ⟨trivial, fun l₂ hl₂ ↦ ?_⟩
    obtain rfl := Option.some.inj (hfirst.symm.trans hl₂)
    refine guarded_of_unmarked (Grown l.sys.db.sessions.length l.sys.calls.length)
      (fun l ↦ _ < l.sys.db.sessions.length) (fun h hstep ↦ h.step (effect_of_step hstep))
      (fun h hstep ↦ h.of_not_failsClean (effect_of_step hstep))
      (fun h hstep ↦ h.trans_le (length_sessions_le (effect_of_step hstep))) ?_ hrest ?_
    · refine ⟨by rw [hdb], _, hstarted, hrefresh, fun h ↦ ?_⟩
      rw [hasInserted_start] at h
      cases h
    · rw [heq]
      exact lt_irrefl _
  · intro hguard
    have huntouched : l'.Untouched l.sys.db.sessions l.sys.calls.length := by
      refine guarded_invariant (Untouched l.sys.db.sessions l.sys.calls.length)
        (fun h hG hstep ↦ h.step hG.1 hG.2 (effect_of_step hstep)) ?_
        ((hguard.2 l₁ hfirst).and (guarded_of_forall _ hof l₁)) hrest
      refine ⟨_, hstarted, hrefresh, fun _ ↦ by rw [hdb], fun user tokens matched ↦ ?_⟩
      cases hnext : (AuthRequest.refresh refreshToken).start lib l.sys.db.now <;> rintro ⟨⟩
    obtain ⟨call', hcall', -, htable, -⟩ := huntouched
    obtain rfl := Option.some.inj (hcall.symm.trans hcall')
    exact htable (by rw [hthrew]; rfl)

/-- The INSERT is refused: the call throws, and the table is as it was. -/
theorem sessions_eq_iff_failsClean_insert :
    ∃ l, run (step .clear) (start aliceDb [(.ofDigit 5, aliceToken)])
        (.call [] (.refresh aliceToken) :: (AuthSystem.answers 0 4 .nil ++
          [.settle 0 .refused (.ofDigit 1) [], .resume 0])) = some l ∧
      l.sys.calls.map AuthCall.state = [.threw] ∧ l.sys.db.sessions = aliceDb.sessions := by
  refine exists_run_of_any
    (fun l : Ledger ↦ l.sys.calls.map AuthCall.state = [.threw]) (by decide +kernel) ?_
  intro l hrun hthrew
  obtain ⟨call, hcall, hstate⟩ := List.map_eq_singleton_iff.mp hthrew
  refine ⟨hthrew, (sessions_eq_iff_failsClean (by decide) hrun ?_ hstate).mpr (by decide +kernel)⟩
  rw [hcall]
  rfl

/-- The UPDATE is refused: the call throws, and the session it has inserted stays. -/
theorem session_left_by_failed_refresh :
    ∃ l, run (step .clear) (start aliceDb [(.ofDigit 5, aliceToken)])
        (.tick 1000 :: .call [] (.refresh aliceToken) :: (AuthSystem.answers 0 5 (.ofDigit 1) ++
          [.settle 0 .refused .nil [], .resume 0])) = some l ∧
      l.sys.calls.map AuthCall.state = [.threw] ∧ l.sys.db.sessions ≠ aliceDb.sessions :=
  exists_run_of_any (fun l : Ledger ↦ l.sys.calls.map AuthCall.state = [.threw] ∧
    l.sys.db.sessions ≠ aliceDb.sessions) (by decide +kernel) fun _ _ h ↦ h

end Ledger

end PostgresChat
