import PostgresChat.Auth.Sessions
import PostgresChat.Auth.Soundness
import PostgresChat.Auth.Tokens

/-!
# What a refresh revokes

Calls are made one after another. A `refresh` takes the first active session of the user whose hash
accepts its token, and bcrypt cannot tell the tokens of a user from each other (`compare_of_run`),
so it revokes the first active session of the user, whichever that is. When that is the one row that
was inserted for the token, whenever a `refresh` reads the sessions (`FirstIsOwn`), a `refresh` that
returns has revoked exactly this row, and nobody has revoked it before.
-/

namespace PostgresChat

open Execution PastTrace

/-- The call has returned or thrown. -/
def AuthCallState.ended : AuthCallState → Bool
  | .returned _ | .threw => true
  | .awaiting _ _ => false

/-- The call may have revoked sessions. -/
def AuthCallState.pastRevoke : AuthCallState → Bool
  | .awaiting (.refreshRevoke ..) (some _) | .awaiting (.logout ..) (some _) => true
  | .returned _ | .threw => true
  | .awaiting _ _ => false

theorem pastRevoke_none {stage : AuthStage} :
    (AuthCallState.awaiting stage none).pastRevoke = false := by
  cases stage <;> rfl

/-- Only two statements revoke. -/
theorem pastRevoke_of_revokes {stage : AuthStage} {nodeId : JsString} {session : Session}
    (h : (stage.promise nodeId).revokes session = true) (settled : Option AuthAnswer) :
    (AuthCallState.awaiting stage (some settled)).pastRevoke = true := by
  cases stage with
  | refreshRevoke | logout => rfl
  | _ => cases h

theorem pastRevoke_resume {lib : AuthLibraries} {stage : AuthStage} {settled : Option AuthAnswer}
    {now : ℕ} (h : (AuthCallState.awaiting stage (some settled)).pastRevoke = true) :
    (stage.resume lib now settled).state.pastRevoke = true := by
  cases settled with
  | none => rfl
  | some answer =>
    cases stage with
    | refreshRevoke | logout => rfl
    | _ => cases h

/-! ## The property -/

/-- When a `refresh` returns, every row that was inserted for its token before is the one that it
has revoked, and no other call has revoked that row. -/
def PreciseRefresh (pre : List SessionObservation) (o : SessionObservation) : Prop :=
  ∀ c refreshToken, o = .refreshed c refreshToken → ∀ c₀ id, c₀ ≠ some c →
    .inserted c₀ id refreshToken ∈ pre →
      (∀ id', .revoked c id' ∈ pre ↔ id' = id) ∧ ∀ c', .revoked c' id ∈ pre → c' = c

namespace Ledger

/-- Each `refresh` that has returned has revoked exactly the row of its token, which was not revoked
before. -/
def RevokesPrecisely (l : Ledger) : Prop := Each PreciseRefresh l.log

/-- A call is made when the calls before it have ended. -/
def InTurn (l : Ledger) : AuthEvent → Prop
  | .call .. => ∀ call ∈ l.sys.calls, call.state.ended = true
  | _ => True

/-- The rows that were inserted for the token. -/
def rowsFor (l : Ledger) (refreshToken : JsString) : List Uuid :=
  l.log.filterMap fun
    | .inserted _ id token => if token = refreshToken then some id else none
    | _ => none

/-- What the SELECT of a call may find: the first active session is any row for the token. -/
def FindsOwn (l : Ledger) : AuthCallState → Prop
  | .awaiting (.refreshSessions refreshToken user) none => ∀ id ∈ l.rowsFor refreshToken,
    ∀ session ∈ (l.sys.db.activeSessions user.id).head?, session.id = id
  | _ => True

/-- When a `refresh` reads the sessions, the first active one, if there is one, is the only row that
was inserted for its token, if there is one. -/
def FirstIsOwn (l : Ledger) : AuthEvent → Prop
  | .settle c .answered _ _ => ∀ call ∈ l.sys.calls[c]?, l.FindsOwn call.state
  | _ => True

instance (l : Ledger) (e : AuthEvent) : Decidable (l.InTurn e) := by
  rcases e with _ | _ | _ | _ <;> dsimp only [InTurn] <;> infer_instance

instance (l : Ledger) (state : AuthCallState) : Decidable (l.FindsOwn state) := by
  rcases state with ⟨_ | _, _ | _⟩ | _ | _ <;> dsimp only [FindsOwn] <;> infer_instance

instance (l : Ledger) (e : AuthEvent) : Decidable (l.FirstIsOwn e) := by
  rcases e with _ | _ | ⟨_, _ | _ | _, _, _⟩ | _ <;> dsimp only [FirstIsOwn] <;> infer_instance

theorem mem_rowsFor {l : Ledger} {refreshToken : JsString} {id : Uuid} :
    id ∈ l.rowsFor refreshToken ↔ ∃ c, .inserted c id refreshToken ∈ l.log := by
  rw [rowsFor, List.mem_filterMap]
  constructor
  · rintro ⟨o, ho, hsome⟩
    cases o with
    | inserted c id' token =>
      obtain ⟨rfl, hid⟩ := Option.ite_none_right_eq_some.mp hsome
      obtain rfl := Option.some.inj hid
      exact ⟨c, ho⟩
    | revoked | refreshed => cases hsome
  · rintro ⟨c, ho⟩
    exact ⟨_, ho, if_pos rfl⟩

/-! ## What the log tells of the rows -/

/-- The log and the table agree: ids are unique, a row has one entry for its insertion, and a row
with an entry for its revocation is revoked. -/
structure Recorded (l : Ledger) : Prop where
  ids : (l.sys.db.sessions.map Session.id).Nodup
  inserted : ∀ c id refreshToken, .inserted c id refreshToken ∈ l.log →
    id ∈ l.sys.db.sessions.map Session.id
  unique : ∀ c c' id refreshToken refreshToken', .inserted c id refreshToken ∈ l.log →
    .inserted c' id refreshToken' ∈ l.log → refreshToken = refreshToken'
  revoked : ∀ c id, .revoked c id ∈ l.log → id ∈ l.sys.db.sessions.map Session.id ∧
    ∀ session ∈ l.sys.db.sessions, session.id = id → session.revokedAt ≠ none

variable {lib : AuthLibraries} {l l' : Ledger} {e : AuthEvent}

/-- Nothing happens to the rows. -/
theorem Recorded.congr (h : l.Recorded) (hsessions : l'.sys.db.sessions = l.sys.db.sessions)
    (hinserted : ∀ c id t, .inserted c id t ∈ l'.log → .inserted c id t ∈ l.log)
    (hrevoked : ∀ c id, .revoked c id ∈ l'.log → .revoked c id ∈ l.log) : l'.Recorded := by
  refine ⟨by rw [hsessions]; exact h.ids, fun c id t ht ↦ ?_, fun c c' id t t' ht ht' ↦ ?_,
    fun c id hid ↦ ?_⟩
  · rw [hsessions]
    exact h.inserted c id t (hinserted c id t ht)
  · exact h.unique c c' id t t' (hinserted c id t ht) (hinserted c' id t' ht')
  · rw [hsessions]
    exact h.revoked c id (hrevoked c id hid)

/-- A row is inserted. -/
theorem Recorded.insert (h : l.Recorded) {c₀ : ℕ} {session : Session} {token : JsString}
    (hfresh : ∀ old ∈ l.sys.db.sessions, old.id ≠ session.id)
    (hrevokedAt : session.revokedAt = none)
    (hsessions : l'.sys.db.sessions = l.sys.db.sessions ++ [session])
    (hlog : l'.log = l.log ++ [.inserted (some c₀) session.id token]) : l'.Recorded := by
  have hids : l'.sys.db.sessions.map Session.id =
      l.sys.db.sessions.map Session.id ++ [session.id] := by
    rw [hsessions, List.map_append, List.map_singleton]
  have hnew : session.id ∉ l.sys.db.sessions.map Session.id := by
    intro hmem
    obtain ⟨old, hold, hid⟩ := List.mem_map.mp hmem
    exact hfresh old hold hid
  have hcases : ∀ c id t, .inserted c id t ∈ l'.log →
      .inserted c id t ∈ l.log ∨ id = session.id ∧ t = token := by
    intro c id t ht
    rw [hlog, List.mem_append, List.mem_singleton] at ht
    refine ht.imp_right fun ht ↦ ?_
    obtain ⟨-, rfl, rfl⟩ := SessionObservation.inserted.inj ht
    exact ⟨rfl, rfl⟩
  refine ⟨?_, fun c id t ht ↦ ?_, fun c c' id t t' ht ht' ↦ ?_, fun c id hid ↦ ?_⟩
  · rw [hids, List.nodup_append]
    refine ⟨h.ids, List.nodup_singleton _, fun id hid id' hid' ↦ ?_⟩
    rintro rfl
    exact hnew (List.mem_singleton.mp hid' ▸ hid)
  · rw [hids, List.mem_append]
    rcases hcases c id t ht with ht | ⟨rfl, -⟩
    · exact Or.inl (h.inserted c id t ht)
    · exact Or.inr List.mem_cons_self
  · rcases hcases c id t ht with ht | ⟨rfl, rfl⟩ <;>
      rcases hcases c' _ t' ht' with ht' | ⟨hid, rfl⟩
    · exact h.unique c c' id t t' ht ht'
    · exact absurd (h.inserted c id t ht) (hid ▸ hnew)
    · exact absurd (h.inserted c' _ t' ht') hnew
    · rfl
  · rw [hlog, List.mem_append, List.mem_singleton, or_iff_left (by rintro ⟨⟩)] at hid
    obtain ⟨hmem, hrevoked⟩ := h.revoked c id hid
    refine ⟨hids ▸ List.mem_append_left _ hmem, fun old hold hold' ↦ ?_⟩
    rw [hsessions, List.mem_append, List.mem_singleton] at hold
    rcases hold with hold | rfl
    · exact hrevoked old hold hold'
    · exact absurd (hold' ▸ hmem) hnew

/-- Rows are revoked. -/
theorem Recorded.revoke (h : l.Recorded) {c₀ : ℕ} {condition : Session → Bool} {now : ℕ}
    (hsessions : l'.sys.db.sessions = l.sys.db.sessions.map fun session ↦
      if condition session then { session with revokedAt := some now } else session)
    (hlog : l'.log = l.log ++ (l.sys.db.sessions.filter fun session ↦ condition session).map
      fun session ↦ .revoked c₀ session.id) : l'.Recorded := by
  have hids : l'.sys.db.sessions.map Session.id = l.sys.db.sessions.map Session.id := by
    rw [hsessions, List.map_map]
    refine List.map_congr_left fun session _ ↦ ?_
    rw [Function.comp_apply]
    split <;> rfl
  have hinserted : ∀ c id t, .inserted c id t ∈ l'.log → .inserted c id t ∈ l.log := by
    intro c id t ht
    rw [hlog, List.mem_append, or_iff_left (by simp)] at ht
    exact ht
  refine ⟨hids ▸ h.ids, fun c id t ht ↦ hids ▸ h.inserted c id t (hinserted c id t ht),
    fun c c' id t t' ht ht' ↦ h.unique c c' id t t' (hinserted c id t ht) (hinserted c' id t' ht'),
    fun c id hid ↦ ?_⟩
  rw [hids, hsessions]
  rw [hlog, List.mem_append] at hid
  rcases hid with hid | hid
  · obtain ⟨hmem, hrevoked⟩ := h.revoked c id hid
    refine ⟨hmem, fun session hsession hid' ↦ ?_⟩
    obtain ⟨old, hold, rfl⟩ := List.mem_map.mp hsession
    split
    · rintro ⟨⟩
    · rename_i hcondition
      rw [if_neg hcondition] at hid'
      exact hrevoked old hold hid'
  · obtain ⟨revoked, hmem, hentry⟩ := List.mem_map.mp hid
    obtain ⟨-, rfl⟩ := SessionObservation.revoked.inj hentry
    rw [List.mem_filter] at hmem
    refine ⟨List.mem_map_of_mem hmem.1, fun session hsession hid' ↦ ?_⟩
    obtain ⟨old, hold, rfl⟩ := List.mem_map.mp hsession
    -- Ids are unique, so this is the row that the condition holds of.
    have hsame : old.id = revoked.id := by
      rw [← hid']
      split <;> rfl
    obtain rfl := List.inj_on_of_nodup_map h.ids hold hmem.1 hsame
    rw [if_pos hmem.2]
    rintro ⟨⟩

/-- **Step lemma.** -/
theorem Recorded.step (h : l.Recorded) (heffect : Effect lib l l' e) : l'.Recorded := by
  cases heffect with
  | tick ms db calls log =>
    exact h.congr (by rw [db]) (fun _ _ _ ↦ (log ▸ ·)) fun _ _ ↦ (log ▸ ·)
  | call nodeId request db calls log =>
    exact h.congr (by rw [db]) (fun _ _ _ ↦ (log ▸ ·)) fun _ _ ↦ (log ▸ ·)
  | @performed c call stage fate fresh salt answer settled hcall hstate hfate perform calls log =>
    rcases AuthStage.perform_sessions perform with
      ⟨user, deviceInfo, tokens, matched, hashed, rfl, hfresh, hsessions⟩ | ⟨hne, hsessions⟩
    · exact h.insert hfresh rfl hsessions log
    · rw [AuthStage.observed_of_ne_insert hne] at log
      exact h.revoke hsessions log
  | failed hcall hstate hfate db calls log =>
    exact h.congr (by rw [db]) (fun _ _ _ ↦ (log ▸ ·)) fun _ _ ↦ (log ▸ ·)
  | @resumed c call stage settled hcall hstate db calls log =>
    refine h.congr (by rw [db]) (fun c' id t ht ↦ ?_) fun c' id hid ↦ ?_
    · rw [log] at ht
      exact (inserted_mem_append_observed c' id t).mp ht
    · rw [log] at hid
      exact (revoked_mem_append_observed c' id).mp hid

end Ledger

/-! ## The row that a call aims at -/

section

variable (log : List SessionObservation) (c : ℕ) (refreshToken : JsString)

/-- The session is every row that others than call `c` have inserted for the token, and nobody has
revoked it. -/
def Targets (session : Session) : Prop :=
  ∀ c₀ id, c₀ ≠ some c → .inserted c₀ id refreshToken ∈ log →
    session.id = id ∧ ∀ c', .revoked c' id ∉ log

/-- Call `c` has revoked what it aimed at. -/
def HitsTarget : Prop :=
  ∀ c₀ id, c₀ ≠ some c → .inserted c₀ id refreshToken ∈ log →
    (∀ id', .revoked c id' ∈ log ↔ id' = id) ∧ ∀ c', .revoked c' id ∈ log → c' = c

/-- Where a `refresh` of the token stands. -/
def AuthCallState.Aims : AuthCallState → Prop
  | .awaiting (.refreshSessions _ _) (some (some answer)) =>
    ∀ session ∈ answer.sessions.head?, Targets log c refreshToken session
  | .awaiting (.refreshCompare _ _ session _) _ => Targets log c refreshToken session
  | .awaiting (.sessionHash _ _ _ (some session)) _ => Targets log c refreshToken session
  | .awaiting (.sessionInsert _ _ _ (some session) _) _ => Targets log c refreshToken session
  | .awaiting (.refreshRevoke _ _ session) none => Targets log c refreshToken session
  | .awaiting (.refreshRevoke _ _ _) (some (some _)) => HitsTarget log c refreshToken
  | _ => True

variable {log c refreshToken} {log' : List SessionObservation}

theorem Targets.congr {session : Session} (h : Targets log c refreshToken session)
    (hinserted : ∀ c₀ id, c₀ ≠ some c → .inserted c₀ id refreshToken ∈ log' →
      .inserted c₀ id refreshToken ∈ log)
    (hrevoked : ∀ c' id, .revoked c' id ∈ log' → .revoked c' id ∈ log) :
    Targets log' c refreshToken session := by
  intro c₀ id hne hid
  obtain ⟨hsession, hnone⟩ := h c₀ id hne (hinserted c₀ id hne hid)
  exact ⟨hsession, fun c' hc' ↦ hnone c' (hrevoked c' id hc')⟩

theorem HitsTarget.congr (h : HitsTarget log c refreshToken)
    (hinserted : ∀ c₀ id, c₀ ≠ some c → .inserted c₀ id refreshToken ∈ log' →
      .inserted c₀ id refreshToken ∈ log)
    (hrevoked : ∀ c' id, .revoked c' id ∈ log' ↔ .revoked c' id ∈ log) :
    HitsTarget log' c refreshToken := by
  intro c₀ id hne hid
  obtain ⟨hown, hnone⟩ := h c₀ id hne (hinserted c₀ id hne hid)
  exact ⟨fun id' ↦ (hrevoked c id').trans (hown id'),
    fun c' hc' ↦ hnone c' ((hrevoked c' id).mp hc')⟩

/-- What others observe does not matter. -/
theorem AuthCallState.Aims.congr {state : AuthCallState} (h : state.Aims log c refreshToken)
    (hinserted : ∀ c₀ id, c₀ ≠ some c → .inserted c₀ id refreshToken ∈ log' →
      .inserted c₀ id refreshToken ∈ log)
    (hrevoked : ∀ c' id, .revoked c' id ∈ log' ↔ .revoked c' id ∈ log) :
    state.Aims log' c refreshToken := by
  have htargets : ∀ session, Targets log c refreshToken session →
      Targets log' c refreshToken session :=
    fun session hsession ↦ hsession.congr hinserted fun c' id ↦ (hrevoked c' id).mp
  cases state with
  | returned | threw => exact trivial
  | awaiting stage settled =>
    cases stage with
    | refreshSessions =>
      rcases settled with _ | _ | answer
      · exact trivial
      · exact trivial
      · exact fun session hsession ↦ htargets session (h session hsession)
    | refreshCompare => exact htargets _ h
    | sessionHash user deviceInfo tokens matched =>
      cases matched with
      | none => exact trivial
      | some session => exact htargets session h
    | sessionInsert user deviceInfo tokens matched hashed =>
      cases matched with
      | none => exact trivial
      | some session => exact htargets session h
    | refreshRevoke user tokens session =>
      rcases settled with _ | _ | answer
      · exact htargets session h
      · exact trivial
      · exact HitsTarget.congr h hinserted hrevoked
    | _ => exact trivial

/-- A promise that settles leaves a call where it stands, up to the two statements that matter. -/
theorem AuthCallState.Aims.settle {stage : AuthStage} {settled : Option AuthAnswer}
    (h : (AuthCallState.awaiting stage none).Aims log c refreshToken)
    (hselect : ∀ token user, stage ≠ .refreshSessions token user)
    (hrevoke : ∀ user tokens session, stage ≠ .refreshRevoke user tokens session) :
    (AuthCallState.awaiting stage (some settled)).Aims log c refreshToken := by
  cases stage with
  | refreshSessions => exact absurd rfl (hselect _ _)
  | refreshRevoke => exact absurd rfl (hrevoke _ _ _)
  | sessionHash user deviceInfo tokens matched => cases matched <;> exact h
  | sessionInsert user deviceInfo tokens matched hashed => cases matched <;> exact h
  | _ => exact h

theorem aims_rejected {stage : AuthStage}
    (h : (AuthCallState.awaiting stage none).Aims log c refreshToken) :
    (AuthCallState.awaiting stage (some none)).Aims log c refreshToken := by
  cases stage with
  | refreshSessions | refreshRevoke => exact trivial
  | _ => exact h.settle (by rintro _ _ ⟨⟩) (by rintro _ _ _ ⟨⟩)

end

namespace Ledger

variable {lib : AuthLibraries} {l l' : Ledger} {e : AuthEvent}

/-- The row of a token accepts it. -/
theorem Kept.compare_of_targets (hkept : l.Kept lib) (hrecorded : l.Recorded)
    (haccepts : ∀ salt plain, lib.compare plain (lib.hash salt plain) = true) {c : ℕ}
    {c₀ : Option ℕ} {id : Uuid} {refreshToken : JsString} {session : Session}
    (hkey : session.key ∈ l.sys.db.keys) (htargets : Targets l.log c refreshToken session)
    (hne : c₀ ≠ some c) (hid : .inserted c₀ id refreshToken ∈ l.log) :
    lib.compare refreshToken session.refreshToken = true := by
  obtain ⟨rfl, -⟩ := htargets c₀ id hne hid
  obtain ⟨c₁, token, salt, hlog, hhash⟩ := hkept.rows session.key hkey
  obtain rfl : token = refreshToken := hrecorded.unique c₁ c₀ session.id _ _ hlog hid
  rw [show session.refreshToken = lib.hash salt token from hhash]
  exact haccepts salt token

/-- A call goes on to aim at the same row, and returns when it has revoked it. -/
theorem aims_resume (now : ℕ) (hkept : l.Kept lib) (hrecorded : l.Recorded)
    (haccepts : ∀ salt plain, lib.compare plain (lib.hash salt plain) = true) {c : ℕ}
    {refreshToken : JsString} {stage : AuthStage} {settled : Option AuthAnswer}
    (hstate : (AuthCallState.awaiting stage (some settled)).Kept lib l.sys.db.keys
      (.refresh refreshToken))
    (h : (AuthCallState.awaiting stage (some settled)).Aims l.log c refreshToken) :
    (stage.resume lib now settled).state.Aims l.log c refreshToken ∧
      ((stage.resume lib now settled).state.isReturned = true →
        HitsTarget l.log c refreshToken) := by
  have hmatch : ∀ token user sessions,
      (∀ session ∈ sessions.head?, Targets l.log c refreshToken session) →
      (matchSessions token user sessions).state.Aims l.log c refreshToken ∧
        ((matchSessions token user sessions).state.isReturned = true →
          HitsTarget l.log c refreshToken) := by
    intro token user sessions htargets
    cases sessions with
    | nil => exact ⟨trivial, by rintro ⟨⟩⟩
    | cons session rest => exact ⟨htargets session rfl, by rintro ⟨⟩⟩
  cases settled with
  | none => exact ⟨trivial, by rintro ⟨⟩⟩
  | some answer =>
    cases stage with
    | refreshSessions token user => exact hmatch token user _ h
    | refreshCompare token user session rest =>
      obtain ⟨⟨hrequest, hkeys⟩, hanswered⟩ := hstate
      obtain rfl := AuthRequest.refresh.inj hrequest
      rw [AuthStage.resume, AuthStage.proceed]
      split
      · exact ⟨h, by rintro ⟨⟩⟩
      · rename_i hmatches
        refine hmatch _ user rest fun session' _ c₀ id hne hid ↦ absurd ?_ hmatches
        rw [show answer.matches = _ from hanswered answer rfl]
        exact hkept.compare_of_targets hrecorded haccepts (hkeys session List.mem_cons_self)
          h hne hid
    | sessionHash user deviceInfo tokens matched =>
      cases matched with
      | none => exact ⟨trivial, by rintro ⟨⟩⟩
      | some session => exact ⟨h, by rintro ⟨⟩⟩
    | sessionInsert user deviceInfo tokens matched hashed =>
      cases matched with
      | none => exact hstate.1.1.elim
      | some session => exact ⟨h, by rintro ⟨⟩⟩
    | refreshRevoke user tokens session => exact ⟨trivial, fun _ ↦ h⟩
    | logout => cases hstate.1
    | refreshFind token sub =>
      rw [AuthStage.resume, AuthStage.proceed]
      split <;> exact ⟨trivial, by rintro ⟨⟩⟩
    | _ => exact hstate.1.elim

/-- The SELECT finds what the call may aim at. -/
theorem Recorded.targets_of_select (hrecorded : l.Recorded) {c : ℕ} {refreshToken : JsString}
    {user : User} (hown : l.FindsOwn (.awaiting (.refreshSessions refreshToken user) none)) :
    ∀ session ∈ (l.sys.db.activeSessions user.id).head?, Targets l.log c refreshToken session := by
  intro session hsession c₀ id hne hid
  obtain rfl := hown id (mem_rowsFor.mpr ⟨c₀, hid⟩) session hsession
  refine ⟨rfl, fun c' hc' ↦ ?_⟩
  obtain ⟨hmem, -, hactive, -⟩ := AuthDb.mem_activeSessions.mp (List.mem_of_mem_head? hsession)
  exact (hrecorded.revoked c' session.id hc').2 session hmem rfl hactive

/-- The UPDATE hits the row that the call aims at. -/
theorem hitsTarget_of_revoke {c : ℕ} {fresh : Uuid} {refreshToken nodeId : JsString} {user : User}
    {tokens : AuthTokens} {session : Session} (hkey : session.key ∈ l.sys.db.keys)
    (htargets : Targets l.log c refreshToken session) (hnone : ∀ id, .revoked c id ∉ l.log)
    (hlog : l'.log = l.log ++ (AuthStage.refreshRevoke user tokens session).observed c fresh
      l.sys.db nodeId) : HitsTarget l'.log c refreshToken := by
  rw [AuthStage.observed_of_ne_insert (by rintro _ _ _ _ _ ⟨⟩)] at hlog
  have hrevoked : ∀ c' id, .revoked c' id ∈ l'.log ↔
      .revoked c' id ∈ l.log ∨ c' = c ∧ id = session.id := by
    intro c' id
    rw [hlog, List.mem_append, List.mem_map]
    refine or_congr_right ⟨?_, ?_⟩
    · rintro ⟨row, hrow, hentry⟩
      obtain ⟨rfl, rfl⟩ := SessionObservation.revoked.inj hentry
      have hid := List.of_mem_filter hrow
      simp only [AuthStage.promise, AuthPromise.revokes, AuthQuery.revokes, Uuid.parse_text,
        Option.some.injEq, decide_eq_true_eq] at hid
      exact ⟨rfl, hid⟩
    · rintro ⟨rfl, rfl⟩
      obtain ⟨row, hrow, hkey'⟩ := List.mem_map.mp hkey
      have hid : row.id = session.id := congrArg Prod.fst hkey'
      refine ⟨row, List.mem_filter.mpr ⟨hrow, ?_⟩, by rw [hid]⟩
      simp only [AuthStage.promise, AuthPromise.revokes, AuthQuery.revokes, Uuid.parse_text, hid,
        decide_true]
  intro c₀ id hne hid
  rw [hlog, List.mem_append, or_iff_left (by simp)] at hid
  obtain ⟨rfl, hfree⟩ := htargets c₀ id hne hid
  refine ⟨fun id' ↦ ?_, fun c' hc' ↦ ?_⟩
  · rw [hrevoked, or_iff_right (hnone id')]
    exact and_iff_right rfl
  · exact (((hrevoked c' _).mp hc').resolve_left (hfree c')).1

/-! ## The invariant -/

/-- One call is under way at most, every call stands where it should, and what has returned was
precise. -/
structure Sequenced (l : Ledger) : Prop where
  alone : ∀ (c c' : ℕ) (call call' : AuthCall), l.sys.calls[c]? = some call →
    l.sys.calls[c']? = some call' → call.state.ended = false → call'.state.ended = false → c = c'
  revokedBy : ∀ c id, .revoked c id ∈ l.log →
    ∃ call, l.sys.calls[c]? = some call ∧ call.state.pastRevoke = true
  aims : ∀ (c : ℕ) (call : AuthCall) (refreshToken : JsString), l.sys.calls[c]? = some call →
    call.request = .refresh refreshToken → call.state.Aims l.log c refreshToken
  precise : l.RevokesPrecisely

/-- The call that is under way goes on. -/
theorem Sequenced.set (h : l.Sequenced) {c : ℕ} {call : AuthCall} {state : AuthCallState}
    {os : List SessionObservation} (hcall : l.sys.calls[c]? = some call)
    (hended : call.state.ended = false)
    (hcalls : l'.sys.calls = l.sys.calls.set c { call with state := state })
    (hlog : l'.log = l.log ++ os)
    (hpast : call.state.pastRevoke = true → state.pastRevoke = true)
    (hos : ∀ c' id, .revoked c' id ∈ os → c' = c ∧ state.pastRevoke = true)
    (haims : ∀ refreshToken, call.request = .refresh refreshToken →
      state.Aims l'.log c refreshToken)
    (hprecise : ∀ pre o post, os = pre ++ o :: post → PreciseRefresh (l.log ++ pre) o) :
    l'.Sequenced := by
  have hself : l'.sys.calls[c]? = some { call with state := state } := by
    rw [hcalls, List.getElem?_set_self (List.getElem?_eq_some_iff.mp hcall).1]
  -- The other calls have ended.
  have hothers : ∀ (c' : ℕ) (call' : AuthCall), l'.sys.calls[c']? = some call' → c ≠ c' →
      call'.state.ended = true := by
    intro c' call' hcall' hne
    rw [hcalls, List.getElem?_set_ne hne] at hcall'
    by_contra hrunning
    exact hne (h.alone c c' call call' hcall hcall' hended (Bool.not_eq_true _ ▸ hrunning))
  have haway : ∀ (c' : ℕ) (call' : AuthCall), l'.sys.calls[c']? = some call' →
      call'.state.ended = false → c = c' := by
    intro c' call' hcall' hrunning
    by_contra hne
    rw [hothers c' call' hcall' hne] at hrunning
    cases hrunning
  refine ⟨fun c₁ c₂ call₁ call₂ h₁ h₂ hrunning₁ hrunning₂ ↦ ?_, fun c' id hid ↦ ?_,
    fun c' call' refreshToken hcall' hrequest ↦ ?_, ?_⟩
  · rw [← haway c₁ call₁ h₁ hrunning₁, ← haway c₂ call₂ h₂ hrunning₂]
  · rw [hlog, List.mem_append] at hid
    rcases hid with hid | hid
    · obtain ⟨call', hcall', hpast'⟩ := h.revokedBy c' id hid
      by_cases hne : c = c'
      · subst hne
        obtain rfl := Option.some.inj (hcall.symm.trans hcall')
        exact ⟨_, hself, hpast hpast'⟩
      · exact ⟨call', by rw [hcalls, List.getElem?_set_ne hne, hcall'], hpast'⟩
    · obtain ⟨rfl, hpast'⟩ := hos c' id hid
      exact ⟨_, hself, hpast'⟩
  · by_cases hne : c = c'
    · subst hne
      obtain rfl := Option.some.inj (hself.symm.trans hcall')
      exact haims refreshToken hrequest
    · have hended' := hothers c' call' hcall' hne
      cases hstate : call'.state with
      | returned | threw => exact trivial
      | awaiting stage settled =>
        rw [hstate] at hended'
        cases hended'
  · rw [RevokesPrecisely, hlog]
    exact each_append h.precise hprecise

/-- A call is made when the others have ended. -/
theorem Sequenced.call (h : l.Sequenced) {nodeId : JsString} {request : AuthRequest}
    (hended : ∀ call ∈ l.sys.calls, call.state.ended = true)
    (hcalls : l'.sys.calls =
      l.sys.calls ++ [⟨nodeId, request, (request.start lib l.sys.db.now).state⟩])
    (hlog : l'.log = l.log) : l'.Sequenced := by
  have hlast : ∀ (c : ℕ) (call : AuthCall), l'.sys.calls[c]? = some call →
      call.state.ended = false → c = l.sys.calls.length := by
    intro c call hcall hrunning
    rw [hcalls, Lists.getElem?_concat_eq_some] at hcall
    rcases hcall with hcall | ⟨rfl, -⟩
    · rw [hended call (List.mem_of_getElem? hcall)] at hrunning
      cases hrunning
    · rfl
  refine ⟨fun c₁ c₂ call₁ call₂ h₁ h₂ hrunning₁ hrunning₂ ↦ ?_, fun c id hid ↦ ?_,
    fun c call refreshToken hcall hrequest ↦ ?_, ?_⟩
  · rw [hlast c₁ call₁ h₁ hrunning₁, hlast c₂ call₂ h₂ hrunning₂]
  · rw [hlog] at hid
    obtain ⟨call, hcall, hpast⟩ := h.revokedBy c id hid
    exact ⟨call, by rw [hcalls]; exact Lists.getElem?_concat_eq_some.mpr (Or.inl hcall), hpast⟩
  · rw [hcalls, Lists.getElem?_concat_eq_some] at hcall
    rw [hlog]
    rcases hcall with hcall | ⟨-, rfl⟩
    · exact h.aims c call refreshToken hcall hrequest
    · obtain rfl : request = .refresh refreshToken := hrequest
      rw [AuthRequest.start]
      split
      · exact trivial
      · split <;> exact trivial
  · rw [RevokesPrecisely, hlog]
    exact h.precise

/-- A statement runs. -/
theorem Sequenced.performed (h : l.Sequenced) (hkept : l.Kept lib) (hrecorded : l.Recorded) {c : ℕ}
    {call : AuthCall} {stage : AuthStage} {fate : Fate} {fresh : Uuid} {salt : JsString}
    {answer : AuthAnswer} {settled : Option AuthAnswer} (hcall : l.sys.calls[c]? = some call)
    (hstate : call.state = .awaiting stage none)
    (hown : fate = .answered → l.FindsOwn call.state)
    (hfate : fate = .answered ∧ settled = some answer ∨ fate = .lost ∧ settled = none)
    (hperform : (stage.promise call.nodeId).perform lib l.sys.db fresh salt =
      some (l'.sys.db, answer))
    (hcalls : l'.sys.calls =
      l.sys.calls.set c { call with state := .awaiting stage (some settled) })
    (hlog : l'.log = l.log ++ stage.observed c fresh l.sys.db call.nodeId) : l'.Sequenced := by
  have hstage : stage.Kept lib l.sys.db.keys call.request := by
    have hkeptState := hkept.calls c call hcall
    rw [hstate] at hkeptState
    exact hkeptState.1
  have haims := fun refreshToken (hrequest : call.request = .refresh refreshToken) ↦
    hstate ▸ h.aims c call refreshToken hcall hrequest
  have hrunning : call.state.ended = false := by
    rw [hstate]
    rfl
  have hpast : call.state.pastRevoke = true →
      (AuthCallState.awaiting stage (some settled)).pastRevoke = true := by
    rw [hstate, pastRevoke_none]
    rintro ⟨⟩
  by_cases hinsert : ∃ user deviceInfo tokens matched hashed,
      stage = .sessionInsert user deviceInfo tokens matched hashed
  · obtain ⟨user, deviceInfo, tokens, matched, hashed, rfl⟩ := hinsert
    refine h.set hcall hrunning hcalls hlog hpast (fun c' id hid ↦ ?_)
      (fun refreshToken hrequest ↦ ?_) fun pre o post hos ↦ ?_
    · cases List.mem_singleton.mp hid
    · refine ((haims refreshToken hrequest).settle (by rintro _ _ ⟨⟩) (by rintro _ _ _ ⟨⟩)).congr
        (fun c₀ id hne hid ↦ ?_) fun c' id ↦ ?_
      · rw [hlog, List.mem_append] at hid
        refine hid.resolve_right fun hid ↦ hne ?_
        exact (SessionObservation.inserted.inj (List.mem_singleton.mp hid)).1
      · rw [hlog, List.mem_append, or_iff_left]
        intro hid
        cases List.mem_singleton.mp hid
    · obtain ⟨-, rfl⟩ := Lists.of_singleton_eq_append_cons hos
      rintro c' token ⟨⟩
  · have hobserved := hlog
    rw [AuthStage.observed_of_ne_insert fun user deviceInfo tokens matched hashed hstage ↦
      hinsert ⟨user, deviceInfo, tokens, matched, hashed, hstage⟩] at hlog
    have hinserted : ∀ c₀ id t, .inserted c₀ id t ∈ l'.log → .inserted c₀ id t ∈ l.log := by
      intro c₀ id t hid
      rw [hlog, List.mem_append, or_iff_left (by simp)] at hid
      exact hid
    have hentry : ∀ o ∈ (l.sys.db.sessions.filter fun session ↦
        (stage.promise call.nodeId).revokes session).map
          (fun session ↦ SessionObservation.revoked c session.id),
        ∃ session, (stage.promise call.nodeId).revokes session = true ∧
          o = .revoked c session.id := by
      intro o ho
      obtain ⟨session, hsession, rfl⟩ := List.mem_map.mp ho
      exact ⟨session, (List.mem_filter.mp hsession).2, rfl⟩
    refine h.set hcall hrunning hcalls hlog hpast (fun c' id hid ↦ ?_)
      (fun refreshToken hrequest ↦ ?_) fun pre o post hos ↦ ?_
    · obtain ⟨session, hrevokes, ho⟩ := hentry _ hid
      exact ⟨(SessionObservation.revoked.inj ho).1, pastRevoke_of_revokes hrevokes settled⟩
    · have haim := haims refreshToken hrequest
      -- No row is revoked but by the UPDATE of a `refresh`.
      have hsame : (∀ user tokens session, stage ≠ .refreshRevoke user tokens session) →
          ∀ c' id, .revoked c' id ∈ l'.log ↔ .revoked c' id ∈ l.log := by
        intro hne c' id
        rw [hlog, List.mem_append, or_iff_left]
        intro hid
        obtain ⟨session, hrevokes, -⟩ := hentry _ hid
        cases stage with
        | refreshRevoke => exact hne _ _ _ rfl
        | logout => cases hrequest.symm.trans hstage
        | _ => cases hrevokes
      by_cases hrevoke : ∃ user tokens session, stage = .refreshRevoke user tokens session
      · obtain ⟨user, tokens, session, rfl⟩ := hrevoke
        cases settled with
        | none => exact trivial
        | some answer =>
          refine hitsTarget_of_revoke hstage.1 haim (fun id hid ↦ ?_) hobserved
          obtain ⟨call', hcall', hpast'⟩ := h.revokedBy c id hid
          obtain rfl := Option.some.inj (hcall.symm.trans hcall')
          rw [hstate, pastRevoke_none] at hpast'
          cases hpast'
      · have hrevoked := hsame fun user tokens session hstage' ↦
          hrevoke ⟨user, tokens, session, hstage'⟩
        by_cases hselect : ∃ token user, stage = .refreshSessions token user
        · obtain ⟨token, user, rfl⟩ := hselect
          obtain rfl : refreshToken = token := AuthRequest.refresh.inj (hrequest.symm.trans hstage)
          rcases hfate with ⟨rfl, rfl⟩ | ⟨-, rfl⟩
          · obtain ⟨-, hanswer⟩ := perform_refreshSessions hperform
            intro session hsession
            rw [hanswer] at hsession
            exact (hrecorded.targets_of_select (hstate ▸ hown rfl) session hsession).congr
              (fun c₀ id _ ↦ hinserted c₀ id refreshToken) fun c' id ↦ (hrevoked c' id).mp
          · exact trivial
        · refine (haim.settle (fun token user hstage' ↦ hselect ⟨token, user, hstage'⟩)
            fun user tokens session hstage' ↦ hrevoke ⟨user, tokens, session, hstage'⟩).congr
            (fun c₀ id _ ↦ hinserted c₀ id refreshToken) hrevoked
    · obtain ⟨session, -, rfl⟩ := hentry o (hos ▸ List.mem_append_right _ List.mem_cons_self)
      rintro c' token ⟨⟩

/-- The end of a call is all that there is to observe when it goes on. -/
theorem eq_of_observed {next : AuthNext} {request : AuthRequest} {c : ℕ}
    {pre post : List SessionObservation} {o : SessionObservation}
    (h : next.observed c request = pre ++ o :: post) :
    pre = [] ∧ ∃ refreshToken, request = .refresh refreshToken ∧ next.state.isReturned = true ∧
      o = .refreshed c refreshToken := by
  cases request with
  | refresh refreshToken =>
    cases next with
    | returned result =>
      obtain ⟨hpre, ho⟩ := Lists.of_singleton_eq_append_cons h
      exact ⟨hpre, refreshToken, rfl, rfl, ho.symm⟩
    | await | threw => exact absurd h.symm (by simp [AuthNext.observed])
  | register | login | logout => exact absurd h.symm (by simp [AuthNext.observed])

/-- **Step lemma.** -/
theorem Sequenced.step (h : l.Sequenced) (hkept : l.Kept lib) (hrecorded : l.Recorded)
    (haccepts : ∀ salt plain, lib.compare plain (lib.hash salt plain) = true)
    (hturn : l.InTurn e) (hown : l.FirstIsOwn e) (heffect : Effect lib l l' e) :
    l'.Sequenced := by
  cases heffect with
  | tick ms db calls log =>
    refine ⟨by rw [calls]; exact h.alone, by rw [calls, log]; exact h.revokedBy,
      by rw [calls, log]; exact h.aims, ?_⟩
    rw [RevokesPrecisely, log]
    exact h.precise
  | call nodeId request db calls log => exact h.call hturn calls log
  | @performed c call stage fate fresh salt answer settled hcall hstate hfate perform calls log =>
    refine h.performed hkept hrecorded hcall hstate ?_ hfate perform calls log
    rintro rfl
    exact hown call hcall
  | @failed c call stage fate fresh salt hcall hstate hfate db calls log =>
    refine h.set hcall (by rw [hstate]; rfl) calls (log.trans (List.append_nil _).symm) ?_
      (by rintro _ _ ⟨⟩) (fun refreshToken hrequest ↦ ?_) (by simp)
    · rw [hstate, pastRevoke_none]
      rintro ⟨⟩
    · rw [log]
      exact aims_rejected (hstate ▸ h.aims c call refreshToken hcall hrequest)
  | @resumed c call stage settled hcall hstate db calls log =>
    have hkeptState := hstate ▸ hkept.calls c call hcall
    have haims := fun refreshToken (hrequest : call.request = .refresh refreshToken) ↦
      aims_resume l.sys.db.now hkept hrecorded haccepts (hrequest ▸ hkeptState)
        (hstate ▸ h.aims c call refreshToken hcall hrequest)
    refine h.set hcall (by rw [hstate]; rfl) calls log (fun hpast ↦ ?_) (fun c' id hid ↦ ?_)
      (fun refreshToken hrequest ↦ ?_) fun pre o post hos ↦ ?_
    · exact pastRevoke_resume (hstate ▸ hpast)
    · obtain ⟨pre, post, hos⟩ := List.append_of_mem hid
      obtain ⟨-, refreshToken, -, -, ho⟩ := eq_of_observed hos
      cases ho
    · rw [log]
      exact (haims refreshToken hrequest).1.congr
        (fun c₀ id _ ↦ (inserted_mem_append_observed c₀ id refreshToken).mp)
        revoked_mem_append_observed
    · obtain ⟨rfl, refreshToken, hrequest, hreturned, rfl⟩ := eq_of_observed hos
      rintro c' token ho
      obtain ⟨rfl, rfl⟩ := SessionObservation.refreshed.inj ho
      rw [List.append_nil]
      exact (haims refreshToken hrequest).2 hreturned

/-- The rows that there are at the start: their ids are unique, and the log lists each with the one
token that it was inserted for. -/
structure IssuedOnce (lib : AuthLibraries) (db : AuthDb) (before : List (Uuid × JsString)) :
    Prop where
  issued : Issued lib db before
  ids : (db.sessions.map Session.id).Nodup
  rows : ∀ issue ∈ before, issue.1 ∈ db.sessions.map Session.id
  unique : ∀ issue ∈ before, ∀ issue' ∈ before, issue.1 = issue'.1 → issue.2 = issue'.2

theorem IssuedOnce.recorded {db : AuthDb} {before : List (Uuid × JsString)}
    (h : IssuedOnce lib db before) : (start db before).Recorded := by
  have hbefore : ∀ c id t, .inserted c id t ∈ (start db before).log → (id, t) ∈ before := by
    intro c id t ht
    obtain ⟨issue, hissue, hentry⟩ := List.mem_map.mp ht
    obtain ⟨-, rfl, rfl⟩ := SessionObservation.inserted.inj hentry
    exact hissue
  refine ⟨h.ids, fun c id t ht ↦ h.rows _ (hbefore c id t ht), fun c c' id t t' ht ht' ↦
    h.unique _ (hbefore c id t ht) _ (hbefore c' id t' ht') rfl, fun c id hid ↦ ?_⟩
  obtain ⟨issue, -, hentry⟩ := List.mem_map.mp hid
  cases hentry

end Ledger

/-! ## Any token of the user

Why the condition is needed: whatever calls run, a session accepts each token of its user. -/

/-- The tokens of a session that is being opened are signed for its user. -/
def AuthCallState.Signs (lib : AuthLibraries) : AuthCallState → Prop
  | .awaiting (.sessionHash user _ tokens _) _ | .awaiting (.sessionInsert user _ tokens _ _) _ =>
    ∃ iat, tokens = lib.tokens user iat
  | _ => True

section

variable {lib : AuthLibraries} {now : ℕ}

theorem signs_matchSessions (refreshToken : JsString) (user : User) (sessions : List Session) :
    (matchSessions refreshToken user sessions).state.Signs lib := by
  cases sessions <;> exact trivial

theorem signs_start (request : AuthRequest) : (request.start lib now).state.Signs lib := by
  cases request with
  | register | login | logout => exact trivial
  | refresh refreshToken =>
    rw [AuthRequest.start]
    split
    · exact trivial
    · split <;> exact trivial

theorem signs_resume {stage : AuthStage} {settled : Option AuthAnswer}
    (h : (AuthCallState.awaiting stage (some settled)).Signs lib) :
    (stage.resume lib now settled).state.Signs lib := by
  cases settled with
  | none => exact trivial
  | some answer =>
    rw [AuthStage.resume]
    cases stage with
    | registerFind | registerInsert | loginCompare =>
      rw [AuthStage.proceed]
      split
      · exact ⟨_, rfl⟩
      · exact trivial
    | loginFind | refreshFind =>
      rw [AuthStage.proceed]
      split <;> exact trivial
    | refreshSessions => exact signs_matchSessions _ _ _
    | refreshCompare =>
      rw [AuthStage.proceed]
      split
      · exact ⟨_, rfl⟩
      · exact signs_matchSessions _ _ _
    | sessionHash => exact h
    | sessionInsert user deviceInfo tokens matched => cases matched <;> exact trivial
    | registerHash | refreshRevoke | logout => exact trivial

end

namespace Ledger

/-- The invariant: a session holds the hash of a refresh token of its user. -/
structure Minted (lib : AuthLibraries) (l : Ledger) : Prop where
  rows : ∀ key ∈ l.sys.db.keys, ∃ user iat salt, key.2.1 = some user.id ∧
    key.2.2 = lib.hash salt (lib.signRefreshToken user iat)
  calls : ∀ call ∈ l.sys.calls, call.state.Signs lib

theorem Minted.step (h : l.Minted lib) (hkept : l.Kept lib) (heffect : Effect lib l l' e) :
    l'.Minted lib := by
  have hset : ∀ {c : ℕ} {call : AuthCall} {state : AuthCallState}, state.Signs lib →
      l'.sys.calls = l.sys.calls.set c { call with state := state } →
      ∀ call ∈ l'.sys.calls, call.state.Signs lib := by
    intro c call state hstate hcalls call' hcall'
    rw [hcalls] at hcall'
    rcases List.mem_or_eq_of_mem_set hcall' with hcall' | rfl
    · exact h.calls call' hcall'
    · exact hstate
  cases heffect with
  | tick ms db calls log => exact ⟨by rw [db]; exact h.rows, by rw [calls]; exact h.calls⟩
  | call nodeId request db calls log =>
    refine ⟨by rw [db]; exact h.rows, fun call hcall ↦ ?_⟩
    rw [calls, List.mem_append, List.mem_singleton] at hcall
    rcases hcall with hcall | rfl
    · exact h.calls call hcall
    · exact signs_start request
  | @performed c call stage fate fresh salt answer settled hcall hstate hfate perform calls log =>
    have hsigns := hstate ▸ h.calls call (List.mem_of_getElem? hcall)
    have hstage := (hstate ▸ hkept.calls c call hcall :
      (AuthCallState.awaiting stage none).Kept lib l.sys.db.keys call.request).1
    refine ⟨fun key hkey ↦ ?_, hset ?_ calls⟩
    · rcases AuthStage.perform_sessions perform with
        ⟨user, deviceInfo, tokens, matched, hashed, rfl, -, hsessions⟩ | ⟨-, hsessions⟩
      · rw [AuthDb.keys, hsessions, List.map_append, List.mem_append] at hkey
        rcases hkey with hkey | hkey
        · exact h.rows key hkey
        · -- The new row has the hash of the token that the call has signed.
          obtain ⟨iat, rfl⟩ := hsigns
          obtain ⟨-, salt, rfl⟩ := hstage
          obtain rfl := List.mem_singleton.mp hkey
          exact ⟨user, iat, salt, rfl, rfl⟩
      · exact h.rows key (AuthDb.keys_of_sessions_eq_map hsessions ▸ hkey)
    · cases stage <;> exact hsigns
  | @failed c call stage fate fresh salt hcall hstate hfate db calls log =>
    have hsigns := hstate ▸ h.calls call (List.mem_of_getElem? hcall)
    refine ⟨by rw [db]; exact h.rows, hset ?_ calls⟩
    cases stage <;> exact hsigns
  | @resumed c call stage settled hcall hstate db calls log =>
    have hsigns := hstate ▸ h.calls call (List.mem_of_getElem? hcall)
    exact ⟨by rw [db]; exact h.rows, hset (signs_resume hsigns) calls⟩

/-- **Any token fits.** In every run that starts without sessions, a session accepts each refresh
token that is signed for its user, for whichever session that was. -/
theorem compare_of_run (hjwt : lib.SignsJwt) (hbcrypt : lib.Bcrypt) {db : AuthDb}
    (hnone : db.sessions = []) {es : List AuthEvent}
    (hrun : run (Ledger.step lib) (start db []) es = some l) {session : Session}
    (hsession : session ∈ l.sys.db.sessions) {user : User} (huser : session.userId = some user.id)
    (iat : ℕ) : lib.compare (lib.signRefreshToken user iat) session.refreshToken = true := by
  have hissued : Issued lib db [] := fun session hsession ↦ by
    rw [hnone] at hsession
    cases hsession
  have hinvariant : l.Kept lib ∧ l.Minted lib := by
    refine run_invariant (fun l ↦ l.Kept lib ∧ l.Minted lib) (fun h hstep ↦ ?_)
      ⟨hissued.kept, fun key hkey ↦ ?_, by rintro _ ⟨⟩⟩ hrun
    · have heffect := effect_of_step hstep
      exact ⟨h.1.step heffect, h.2.step h.1 heffect⟩
    · rw [start, AuthDb.keys, hnone] at hkey
      cases hkey
  obtain ⟨owner, iat', salt, howner, hhash⟩ :=
    hinvariant.2.rows session.key (List.mem_map_of_mem hsession)
  rw [show session.refreshToken = _ from hhash]
  exact compare_signRefreshToken hjwt hbcrypt (Option.some.inj (huser.symm.trans howner)) _ _ _

end Ledger

/-! ## Examples -/

namespace AuthLibraries

end AuthLibraries

namespace Ledger

end Ledger

end PostgresChat
