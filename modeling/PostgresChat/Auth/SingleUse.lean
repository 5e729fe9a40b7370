import PostgresChat.Auth.Sessions
import PostgresChat.Auth.Soundness

/-!
# One use of a refresh token

`refresh` reads the active sessions, inserts the new session and revokes the one it has matched, in
three statements of their own. A call holds the session of its token from the first to the last of
them. Two calls that hold it at the same time both hand out tokens; when no call reads the sessions
while another holds that of the same token (`Alone`), at most one does.
-/

namespace PostgresChat

open Execution

/-- bcrypt accepts exactly the text that was hashed. -/
def AuthLibraries.Exact (lib : AuthLibraries) : Prop :=
  ∀ salt plain plain', lib.compare plain' (lib.hash salt plain) = decide (plain' = plain)

/-- The call has read the session of its token as active, and has not revoked it. -/
def AuthCallState.holds (lib : AuthLibraries) : AuthCallState → Bool
  | .awaiting (.sessionInsert _ _ _ (some _) _) (some (some _)) => true
  | .awaiting (.refreshRevoke ..) none => true
  | state => (state.renewing lib).isSome

/-- The call may have inserted a session. -/
def AuthCallState.pastInsert : AuthCallState → Bool
  | .awaiting (.sessionInsert ..) (some _) | .awaiting (.refreshRevoke ..) _ => true
  | .returned _ | .threw => true
  | .awaiting _ _ => false

/-- The entries do not give one token to two rows. -/
def SessionObservation.Apart : SessionObservation → SessionObservation → Prop
  | .inserted _ id refreshToken, .inserted _ id' refreshToken' =>
    refreshToken = refreshToken' → id = id'
  | _, _ => True

instance (o o' : SessionObservation) : Decidable (o.Apart o') := by
  rcases o with _ | _ | _ <;> rcases o' with _ | _ | _ <;> dsimp only [SessionObservation.Apart] <;>
    infer_instance

/-- A `refresh` has inserted its session. -/
def AuthCallState.hasInserted : AuthCallState → Bool
  | .awaiting (.sessionInsert ..) (some (some _)) | .awaiting (.refreshRevoke ..) _ => true
  | .returned _ => true
  | _ => false

section

variable {lib : AuthLibraries} {request : AuthRequest} {now : ℕ}

/-- Up to the INSERT, holding a session is renewing it. -/
theorem holds_of_ne {stage : AuthStage} {settled : Option (Option AuthAnswer)}
    (hinsert : ∀ user deviceInfo tokens matched hashedRefresh,
      stage ≠ .sessionInsert user deviceInfo tokens matched hashedRefresh)
    (hrevoke : ∀ user tokens matched, stage ≠ .refreshRevoke user tokens matched) :
    (AuthCallState.awaiting stage settled).holds lib =
      ((AuthCallState.awaiting stage settled).renewing lib).isSome := by
  cases stage with
  | sessionInsert => exact absurd rfl (hinsert _ _ _ _ _)
  | refreshRevoke => exact absurd rfl (hrevoke _ _ _)
  | _ => rfl

theorem holds_start : (request.start lib now).state.holds lib = false := by
  cases request with
  | register | login | logout => rfl
  | refresh refreshToken =>
    rw [AuthRequest.start]
    split
    · rfl
    · split <;> rfl

theorem holds_rejected {stage : AuthStage} :
    (AuthCallState.awaiting stage (some none)).holds lib = false := by
  have hrenewing : (AuthCallState.awaiting stage (some none)).renewing lib = none :=
    renewing_rejected
  cases stage with
  | sessionInsert user deviceInfo tokens matched hashedRefresh => cases matched <;> rfl
  | _ => exact congrArg Option.isSome hrenewing

/-- A call that continues goes on holding. -/
theorem holds_resume {keys : List (Uuid × Option Uuid × JsString)} {stage : AuthStage}
    {settled : Option AuthAnswer}
    (h : (AuthCallState.awaiting stage (some settled)).Kept lib keys request) :
    (stage.resume lib now settled).state.holds lib =
      (AuthCallState.awaiting stage (some settled)).holds lib := by
  have hrenewing := congrArg Option.isSome (renewing_resume now h)
  have hmatch : ∀ refreshToken user sessions,
      (matchSessions refreshToken user sessions).state.holds lib =
        ((matchSessions refreshToken user sessions).state.renewing lib).isSome := by
    intro refreshToken user sessions
    cases sessions <;> rfl
  cases settled with
  | none =>
    rw [holds_rejected]
    rfl
  | some answer =>
    cases stage with
    | refreshSessions refreshToken user => exact (hmatch _ _ _).trans hrenewing
    | refreshCompare refreshToken user session rest =>
      rw [AuthStage.resume, AuthStage.proceed] at hrenewing ⊢
      split at hrenewing
      · rename_i hmatches
        rw [if_pos hmatches]
        exact hrenewing
      · rename_i hmatches
        rw [if_neg hmatches]
        exact (hmatch _ _ _).trans hrenewing
    | sessionHash user deviceInfo tokens matched => cases matched <;> rfl
    | sessionInsert user deviceInfo tokens matched hashedRefresh => cases matched <;> rfl
    | registerFind | registerInsert | loginFind | loginCompare | refreshFind =>
      rw [AuthStage.resume, AuthStage.proceed]
      split <;> rfl
    | registerHash | refreshRevoke | logout => rfl

theorem hasInserted_of_returned {state : AuthCallState} (h : state.isReturned = true) :
    state.hasInserted = true := by
  cases state with
  | returned => rfl
  | awaiting | threw => cases h

theorem pastInsert_resume {stage : AuthStage} {settled : Option AuthAnswer}
    (h : (AuthCallState.awaiting stage (some settled)).pastInsert = true) :
    (stage.resume lib now settled).state.pastInsert = true := by
  cases settled with
  | none => rfl
  | some answer =>
    cases stage with
    | sessionInsert user deviceInfo tokens matched hashedRefresh => cases matched <;> rfl
    | refreshRevoke => rfl
    | _ => cases h

/-- A `refresh` comes behind its INSERT only through it. -/
theorem hasInserted_of_resume {keys : List (Uuid × Option Uuid × JsString)} {stage : AuthStage}
    {settled : Option AuthAnswer} {refreshToken : JsString}
    (hkept : (AuthCallState.awaiting stage (some settled)).Kept lib keys request)
    (hrequest : request = .refresh refreshToken)
    (h : (stage.resume lib now settled).state.hasInserted = true) :
    (AuthCallState.awaiting stage (some settled)).hasInserted = true := by
  have hmatch : ∀ refreshToken user sessions,
      (matchSessions refreshToken user sessions).state.hasInserted = false := by
    intro refreshToken user sessions
    cases sessions <;> rfl
  cases settled with
  | none => cases h
  | some answer =>
    cases stage with
    | sessionInsert | refreshRevoke => rfl
    | logout sessionId userId =>
      have hlogout : request = .logout sessionId userId := hkept.1
      rw [hrequest] at hlogout
      cases hlogout
    | refreshSessions => exact absurd h (by rw [AuthStage.resume, AuthStage.proceed, hmatch]; simp)
    | refreshCompare refreshToken user session rest =>
      rw [AuthStage.resume, AuthStage.proceed] at h
      split at h
      · cases h
      · rw [hmatch] at h
        cases h
    | registerFind | registerInsert | loginFind | loginCompare | refreshFind =>
      rw [AuthStage.resume, AuthStage.proceed] at h
      split at h <;> cases h
    | registerHash | sessionHash => cases h

theorem hasInserted_start : (request.start lib now).state.hasInserted = false := by
  cases request with
  | register | login | logout => rfl
  | refresh refreshToken =>
    rw [AuthRequest.start]
    split
    · rfl
    · split <;> rfl

end

namespace Ledger

/-! ## The property -/

/-- No two rows were inserted for the same token. -/
def Distinct (l : Ledger) : Prop :=
  ∀ c c' id id' refreshToken, .inserted c id refreshToken ∈ l.log →
    .inserted c' id' refreshToken ∈ l.log → id = id'

/-- Call `c` is a `refresh` of the token, in a state like this. -/
def Refreshes (l : Ledger) (refreshToken : JsString) (c : ℕ) (P : AuthCallState → Prop) : Prop :=
  ∃ call, l.sys.calls[c]? = some call ∧ call.request = .refresh refreshToken ∧ P call.state

/-- Call `c` has inserted the session. -/
def Inserts (l : Ledger) (c : ℕ) (id : Uuid) : Prop :=
  ∃ refreshToken, .inserted (some c) id refreshToken ∈ l.log

/-- Of the calls that present the token one returns at most, and one session at most is inserted by
them. -/
structure UsedOnce (l : Ledger) (refreshToken : JsString) : Prop where
  returned : ∀ c c', l.Refreshes refreshToken c (·.isReturned) →
    l.Refreshes refreshToken c' (·.isReturned) → c = c'
  inserted : ∀ c c' id id', l.Refreshes refreshToken c (fun _ ↦ True) →
    l.Refreshes refreshToken c' (fun _ ↦ True) → l.Inserts c id → l.Inserts c' id' → id = id'

/-- What the statement of a `refresh` of the token may come to in a state: the sessions are read
only while no other call holds the session of the token, and none fails between its INSERT and its
UPDATE. -/
def Undisturbed (lib : AuthLibraries) (refreshToken : JsString) (l : Ledger) (fate : Fate) :
    AuthCallState → Prop
  | .awaiting (.refreshSessions _ _) none => fate = .answered →
    ∀ call ∈ l.sys.calls, call.request = .refresh refreshToken → call.state.holds lib = false
  | .awaiting (.sessionInsert ..) none => fate ≠ .lost
  | .awaiting (.refreshRevoke ..) none => fate ≠ .refused
  | _ => True

def Alone (lib : AuthLibraries) (refreshToken : JsString) (l : Ledger) : AuthEvent → Prop
  | .settle c fate _ _ => ∀ call ∈ l.sys.calls[c]?, call.request = .refresh refreshToken →
    l.Undisturbed lib refreshToken fate call.state
  | _ => True

theorem distinct_iff {l : Ledger} : l.Distinct ↔ ∀ o ∈ l.log, ∀ o' ∈ l.log, o.Apart o' := by
  constructor
  · intro h o ho o' ho'
    cases o <;> cases o' <;> first | trivial | skip
    rintro rfl
    exact h _ _ _ _ _ ho ho'
  · exact fun h c c' id id' refreshToken ho ho' ↦ h _ ho _ ho' rfl

instance (l : Ledger) : Decidable l.Distinct := decidable_of_iff _ distinct_iff.symm

instance (lib : AuthLibraries) (refreshToken : JsString) (l : Ledger) (fate : Fate)
    (state : AuthCallState) : Decidable (l.Undisturbed lib refreshToken fate state) := by
  rcases state with ⟨_ | _, _ | _⟩ | _ | _ <;> dsimp only [Undisturbed] <;> infer_instance

instance (lib : AuthLibraries) (refreshToken : JsString) (l : Ledger) (e : AuthEvent) :
    Decidable (l.Alone lib refreshToken e) := by
  rcases e with _ | _ | _ | _ <;> dsimp only [Alone] <;> infer_instance

/-! ## The invariant -/

section

variable (lib : AuthLibraries) (refreshToken : JsString) (l : Ledger)

/-- Call `c` presents the token, and holds its session or has inserted one. -/
def Engaged (c : ℕ) : Prop :=
  l.Refreshes refreshToken c (·.holds lib) ∨
    l.Refreshes refreshToken c (fun _ ↦ True) ∧ ∃ id, l.Inserts c id

/-- A session of the token has not been revoked. -/
def Open : Prop :=
  ∃ session ∈ l.sys.db.sessions, lib.compare refreshToken session.refreshToken = true ∧
    session.revokedAt = none

/-- The invariant. At most one call is engaged; once it no longer holds the session, the session is
revoked. -/
structure Single : Prop where
  past : ∀ c id, l.Inserts c id →
    ∃ call, l.sys.calls[c]? = some call ∧ call.state.pastInsert = true
  once : ∀ c id id', l.Inserts c id → l.Inserts c id' → id = id'
  inserted : ∀ c, l.Refreshes refreshToken c (·.hasInserted) → ∃ id, l.Inserts c id
  one : ∀ c c', l.Engaged lib refreshToken c → l.Engaged lib refreshToken c' → c = c'
  known : ∀ c, l.Engaged lib refreshToken c →
    ∃ key ∈ l.sys.db.keys, lib.compare refreshToken key.2.2 = true
  closed : ∀ c, l.Engaged lib refreshToken c → ¬ l.Refreshes refreshToken c (·.holds lib) →
    ¬ l.Open lib refreshToken

end

variable {lib : AuthLibraries} {refreshToken : JsString} {l l' : Ledger} {e : AuthEvent}

theorem refreshes_set {c₀ c : ℕ} {call : AuthCall} {state : AuthCallState}
    {P : AuthCallState → Prop} (hcall : l.sys.calls[c₀]? = some call)
    (hcalls : l'.sys.calls = l.sys.calls.set c₀ { call with state := state }) :
    l'.Refreshes refreshToken c P ↔ c₀ ≠ c ∧ l.Refreshes refreshToken c P ∨
      c₀ = c ∧ call.request = .refresh refreshToken ∧ P state := by
  constructor
  · rintro ⟨call', hcall', hrequest, hP⟩
    rw [hcalls] at hcall'
    rcases Lists.of_getElem?_set hcall' with ⟨hne, hcall'⟩ | ⟨rfl, rfl⟩
    · exact Or.inl ⟨hne, call', hcall', hrequest, hP⟩
    · exact Or.inr ⟨rfl, hrequest, hP⟩
  · rintro (⟨hne, call', hcall', hrequest, hP⟩ | ⟨rfl, hrequest, hP⟩)
    · exact ⟨call', by rw [hcalls, List.getElem?_set_ne hne, hcall'], hrequest, hP⟩
    · refine ⟨{ call with state := state }, ?_, hrequest, hP⟩
      rw [hcalls, List.getElem?_set_self (List.getElem?_eq_some_iff.mp hcall).1]

theorem inserts_congr {c : ℕ} {id : Uuid}
    (hlog : ∀ c id t, .inserted c id t ∈ l'.log ↔ .inserted c id t ∈ l.log) :
    l'.Inserts c id ↔ l.Inserts c id :=
  exists_congr fun t ↦ hlog (some c) id t

/-- Nothing happens to calls and sessions. -/
theorem Single.congr (h : l.Single lib refreshToken) (hcalls : l'.sys.calls = l.sys.calls)
    (hlog : l'.log = l.log) (hsessions : l'.sys.db.sessions = l.sys.db.sessions) :
    l'.Single lib refreshToken := by
  obtain ⟨⟨db, calls, log⟩, log'⟩ := l
  obtain ⟨⟨db', calls', log₂⟩, log₂'⟩ := l'
  dsimp only at hcalls hlog hsessions
  subst hcalls hlog
  have hkeys : db'.keys = db.keys := by rw [AuthDb.keys, hsessions, AuthDb.keys]
  refine ⟨h.past, h.once, h.inserted, h.one, fun c hc ↦ ?_, fun c hc hnot ↦ ?_⟩
  · rw [hkeys]
    exact h.known c hc
  · rw [Open, hsessions]
    exact h.closed c hc hnot

/-- A call goes on, and nobody becomes engaged. -/
theorem Single.set (h : l.Single lib refreshToken) {c₀ : ℕ} {call : AuthCall}
    {state : AuthCallState} (hcall : l.sys.calls[c₀]? = some call)
    (hcalls : l'.sys.calls = l.sys.calls.set c₀ { call with state := state })
    (hlog : ∀ c id t, .inserted c id t ∈ l'.log ↔ .inserted c id t ∈ l.log)
    (hkeys : l.sys.db.keys ⊆ l'.sys.db.keys)
    (hopen : l'.Open lib refreshToken → l.Open lib refreshToken)
    (hpast : call.state.pastInsert = true → state.pastInsert = true)
    (hinserted : call.request = .refresh refreshToken → state.hasInserted = true →
      call.state.hasInserted = true)
    (hholds : call.request = .refresh refreshToken → state.holds lib = true →
      call.state.holds lib = true)
    (hdrops : call.request = .refresh refreshToken → call.state.holds lib = true →
      state.holds lib = true ∨ call.state.pastInsert = false ∨ ¬ l'.Open lib refreshToken) :
    l'.Single lib refreshToken := by
  have hengaged : ∀ c, l'.Engaged lib refreshToken c → l.Engaged lib refreshToken c := by
    rintro c (hc | ⟨hc, hinserts⟩)
    · rcases (refreshes_set hcall hcalls).mp hc with ⟨-, hc⟩ | ⟨rfl, hrequest, hstate⟩
      · exact Or.inl hc
      · exact Or.inl ⟨call, hcall, hrequest, hholds hrequest hstate⟩
    · simp only [inserts_congr hlog] at hinserts
      rcases (refreshes_set hcall hcalls).mp hc with ⟨-, hc⟩ | ⟨rfl, hrequest, -⟩
      · exact Or.inr ⟨hc, hinserts⟩
      · exact Or.inr ⟨⟨call, hcall, hrequest, trivial⟩, hinserts⟩
  refine ⟨fun c id hc ↦ ?_, fun c id id' hid hid' ↦ ?_, fun c hc ↦ ?_, fun c c' hc hc' ↦ ?_,
    fun c hc ↦ ?_, fun c hc hnot ↦ ?_⟩
  · obtain ⟨call', hcall', hpast'⟩ := h.past c id ((inserts_congr hlog).mp hc)
    by_cases hne : c₀ = c
    · subst hne
      obtain rfl := Option.some.inj (hcall.symm.trans hcall')
      exact ⟨_, by rw [hcalls, List.getElem?_set_self (List.getElem?_eq_some_iff.mp hcall).1],
        hpast hpast'⟩
    · exact ⟨call', by rw [hcalls, List.getElem?_set_ne hne, hcall'], hpast'⟩
  · exact h.once c id id' ((inserts_congr hlog).mp hid) ((inserts_congr hlog).mp hid')
  · simp only [inserts_congr hlog]
    refine h.inserted c ?_
    rcases (refreshes_set hcall hcalls).mp hc with ⟨-, hc⟩ | ⟨rfl, hrequest, hstate⟩
    · exact hc
    · exact ⟨call, hcall, hrequest, hinserted hrequest hstate⟩
  · exact h.one c c' (hengaged c hc) (hengaged c' hc')
  · obtain ⟨key, hkey, hcompare⟩ := h.known c (hengaged c hc)
    exact ⟨key, hkeys hkey, hcompare⟩
  · refine fun ho ↦ h.closed c (hengaged c hc) ?_ (hopen ho)
    -- A call that no longer holds the session has not inserted one, so it is not engaged.
    rintro ⟨call', hcall', hrequest, hstate⟩
    by_cases hne : c₀ = c
    · subst hne
      obtain rfl := Option.some.inj (hcall.symm.trans hcall')
      rcases hdrops hrequest hstate with hstate' | hpast' | hclosed
      · exact hnot ((refreshes_set hcall hcalls).mpr (Or.inr ⟨rfl, hrequest, hstate'⟩))
      · rcases hc with hc | ⟨-, id, hid⟩
        · exact hnot hc
        · obtain ⟨call'', hcall'', hpast''⟩ := h.past c₀ id ((inserts_congr hlog).mp hid)
          obtain rfl := Option.some.inj (hcall.symm.trans hcall'')
          rw [hpast'] at hpast''
          cases hpast''
      · exact hclosed ho
    · exact hnot ((refreshes_set hcall hcalls).mpr
        (Or.inl ⟨hne, call', hcall', hrequest, hstate⟩))

/-- A call that is made has nothing yet. -/
theorem Single.call (h : l.Single lib refreshToken) {nodeId : JsString} {request : AuthRequest}
    (hdb : l'.sys.db = l.sys.db)
    (hcalls : l'.sys.calls =
      l.sys.calls ++ [⟨nodeId, request, (request.start lib l.sys.db.now).state⟩])
    (hlog : l'.log = l.log) : l'.Single lib refreshToken := by
  have hrefreshes : ∀ c (P : AuthCallState → Prop), ¬ P (request.start lib l.sys.db.now).state →
      l'.Refreshes refreshToken c P → l.Refreshes refreshToken c P := by
    rintro c P hnot ⟨call, hcall, hrequest, hP⟩
    rw [hcalls, Lists.getElem?_concat_eq_some] at hcall
    rcases hcall with hcall | ⟨-, rfl⟩
    · exact ⟨call, hcall, hrequest, hP⟩
    · exact absurd hP hnot
  have hold : ∀ (c : ℕ) (call : AuthCall), l.sys.calls[c]? = some call →
      l'.sys.calls[c]? = some call := by
    intro c call hcall
    rw [hcalls]
    exact Lists.getElem?_concat_eq_some.mpr (Or.inl hcall)
  have hinserts : ∀ c id, l'.Inserts c id ↔ l.Inserts c id := by
    intro c id
    rw [Inserts, hlog, Inserts]
  have hholds : ∀ c, l'.Refreshes refreshToken c (·.holds lib) →
      l.Refreshes refreshToken c (·.holds lib) :=
    fun c ↦ hrefreshes c _ (by rw [holds_start]; exact Bool.false_ne_true)
  have hengaged : ∀ c, l'.Engaged lib refreshToken c → l.Engaged lib refreshToken c := by
    rintro c (hc | ⟨⟨call, hcall, hrequest, -⟩, id, hid⟩)
    · exact Or.inl (hholds c hc)
    · rw [hinserts] at hid
      obtain ⟨call', hcall', -⟩ := h.past c id hid
      obtain rfl := Option.some.inj (hcall.symm.trans (hold c call' hcall'))
      exact Or.inr ⟨⟨_, hcall', hrequest, trivial⟩, id, hid⟩
  refine ⟨fun c id hc ↦ ?_, fun c id id' hid hid' ↦ ?_, fun c hc ↦ ?_, fun c c' hc hc' ↦ ?_,
    fun c hc ↦ ?_, fun c hc hnot ↦ ?_⟩
  · obtain ⟨call, hcall, hpast⟩ := h.past c id ((hinserts c id).mp hc)
    exact ⟨call, hold c call hcall, hpast⟩
  · exact h.once c id id' ((hinserts c id).mp hid) ((hinserts c id').mp hid')
  · simp only [hinserts]
    exact h.inserted c (hrefreshes c _ (by rw [hasInserted_start]; exact Bool.false_ne_true) hc)
  · exact h.one c c' (hengaged c hc) (hengaged c' hc')
  · rw [hdb]
    exact h.known c (hengaged c hc)
  · rw [Open, hdb]
    refine h.closed c (hengaged c hc) ?_
    rintro ⟨call, hcall, hrequest, hstate⟩
    exact hnot ⟨call, hold c call hcall, hrequest, hstate⟩

/-- A row whose hash accepts the token was inserted for it. -/
theorem Kept.inserted_of_compare (hkept : l.Kept lib) (hexact : lib.Exact)
    {key : Uuid × Option Uuid × JsString} (hkey : key ∈ l.sys.db.keys)
    (hcompare : lib.compare refreshToken key.2.2 = true) :
    ∃ c, .inserted c key.1 refreshToken ∈ l.log := by
  obtain ⟨c, token, salt, hlog, hhash⟩ := hkept.rows key hkey
  rw [hhash, hexact, decide_eq_true_eq] at hcompare
  exact ⟨c, hcompare ▸ hlog⟩

theorem Distinct.of_grows (h : l'.Distinct) (hlog : l.log <+: l'.log) : l.Distinct :=
  fun c c' id id' t ht ht' ↦ h c c' id id' t (hlog.subset ht) (hlog.subset ht')

/-- The UPDATE of a `refresh` closes its token: no other row was inserted for it. -/
theorem Kept.not_open_of_revoked (hkept : l.Kept lib) (hexact : lib.Exact)
    (hdistinct : l.Distinct) {matched : Session} {nodeId : JsString} {user : User}
    {tokens : AuthTokens} (hkey : matched.key ∈ l.sys.db.keys)
    (hcompare : lib.compare refreshToken matched.refreshToken = true)
    (hsessions : l'.sys.db.sessions = l.sys.db.sessions.map fun session ↦
      if ((AuthStage.refreshRevoke user tokens matched).promise nodeId).revokes session then
        { session with revokedAt := some l.sys.db.now }
      else session) : ¬ l'.Open lib refreshToken := by
  rintro ⟨session, hsession, hcompare', hrevoked⟩
  rw [hsessions, List.mem_map] at hsession
  obtain ⟨old, hold, rfl⟩ := hsession
  have hcompare'' : lib.compare refreshToken old.refreshToken = true := by
    split at hcompare' <;> exact hcompare'
  obtain ⟨c, hlog⟩ := hkept.inserted_of_compare hexact (List.mem_map_of_mem hold) hcompare''
  obtain ⟨c', hlog'⟩ := hkept.inserted_of_compare hexact hkey hcompare
  have hid : old.id = matched.id := hdistinct c c' _ _ _ hlog hlog'
  rw [if_pos] at hrevoked
  · cases hrevoked
  · simp only [AuthStage.promise, AuthPromise.revokes, AuthQuery.revokes, Uuid.parse_text, hid,
      decide_true]

/-- A call that has read the sessions becomes engaged only if nobody is. -/
theorem Single.select (h : l.Single lib refreshToken) {c₀ : ℕ} {call : AuthCall}
    {state : AuthCallState} (hcall : l.sys.calls[c₀]? = some call)
    (hcalls : l'.sys.calls = l.sys.calls.set c₀ { call with state := state })
    (hdb : l'.sys.db = l.sys.db) (hlog : l'.log = l.log)
    (hpast : call.state.pastInsert = false) (hinserted : state.hasInserted = false)
    (hopen : l.Open lib refreshToken)
    (hnone : ∀ c, ¬ l.Refreshes refreshToken c (·.holds lib)) (hholds : state.holds lib = true) :
    l'.Single lib refreshToken := by
  have hfree : ∀ c, ¬ l.Engaged lib refreshToken c := fun c hc ↦ h.closed c hc (hnone c) hopen
  have hinserts : ∀ c id, l'.Inserts c id ↔ l.Inserts c id := by
    intro c id
    rw [Inserts, hlog, Inserts]
  have hengaged : ∀ c, l'.Engaged lib refreshToken c → c = c₀ := by
    rintro c (hc | ⟨hc, hid⟩)
    · rcases (refreshes_set hcall hcalls).mp hc with ⟨-, hc⟩ | ⟨rfl, -⟩
      · exact absurd hc (hnone c)
      · rfl
    · simp only [hinserts] at hid
      rcases (refreshes_set hcall hcalls).mp hc with ⟨-, hc⟩ | ⟨rfl, -⟩
      · exact absurd (Or.inr ⟨hc, hid⟩) (hfree c)
      · rfl
  refine ⟨fun c id hc ↦ ?_, fun c id id' hid hid' ↦ ?_, fun c hc ↦ ?_, fun c c' hc hc' ↦ ?_,
    fun c hc ↦ ?_, fun c hc hnot ↦ ?_⟩
  · obtain ⟨call', hcall', hpast'⟩ := h.past c id ((hinserts c id).mp hc)
    refine ⟨call', ?_, hpast'⟩
    rw [hcalls, List.getElem?_set_ne, hcall']
    rintro rfl
    obtain rfl := Option.some.inj (hcall.symm.trans hcall')
    rw [hpast] at hpast'
    cases hpast'
  · exact h.once c id id' ((hinserts c id).mp hid) ((hinserts c id').mp hid')
  · simp only [hinserts]
    rcases (refreshes_set hcall hcalls).mp hc with ⟨-, hc⟩ | ⟨-, -, hstate⟩
    · exact h.inserted c hc
    · rw [hinserted] at hstate
      cases hstate
  · rw [hengaged c hc, hengaged c' hc']
  · obtain ⟨session, hsession, hcompare, -⟩ := hopen
    exact ⟨session.key, hdb ▸ List.mem_map_of_mem hsession, hcompare⟩
  · obtain rfl := hengaged c hc
    rcases hc with hc | ⟨hc, -⟩
    · exact absurd hc hnot
    · rcases (refreshes_set hcall hcalls).mp hc with ⟨hne, -⟩ | ⟨-, hrequest, -⟩
      · exact absurd rfl hne
      · exact absurd ((refreshes_set hcall hcalls).mpr (Or.inr ⟨rfl, hrequest, hholds⟩)) hnot

/-- A session is inserted. When a call that presents the token inserts it, the call holds the
session of the token before and after. -/
theorem Single.insert (h : l.Single lib refreshToken) (hkept : l.Kept lib) (hexact : lib.Exact)
    {c₀ : ℕ} {call : AuthCall} {state : AuthCallState} {session : Session} {token salt : JsString}
    (hcall : l.sys.calls[c₀]? = some call)
    (hcalls : l'.sys.calls = l.sys.calls.set c₀ { call with state := state })
    (hsessions : l'.sys.db.sessions = l.sys.db.sessions ++ [session])
    (hlog : l'.log = l.log ++ [.inserted (some c₀) session.id token])
    (hfresh : ∀ old ∈ l.sys.db.sessions, old.id ≠ session.id)
    (hhash : session.refreshToken = lib.hash salt token) (hdistinct : l'.Distinct)
    (hpast : call.state.pastInsert = false) (hpast' : state.pastInsert = true)
    (hholds : call.request = .refresh refreshToken →
      call.state.holds lib = true ∧ state.holds lib = true) : l'.Single lib refreshToken := by
  have hnone : ∀ id, ¬ l.Inserts c₀ id := by
    intro id hid
    obtain ⟨call', hcall', hpast''⟩ := h.past c₀ id hid
    obtain rfl := Option.some.inj (hcall.symm.trans hcall')
    rw [hpast] at hpast''
    cases hpast''
  have hinserts : ∀ c id, l'.Inserts c id ↔ l.Inserts c id ∨ c = c₀ ∧ id = session.id := by
    intro c id
    rw [Inserts, hlog, Inserts]
    constructor
    · rintro ⟨t, ht⟩
      rcases List.mem_append.mp ht with ht | ht
      · exact Or.inl ⟨t, ht⟩
      · obtain ⟨hc, rfl, -⟩ := SessionObservation.inserted.inj (List.mem_singleton.mp ht)
        exact Or.inr ⟨Option.some.inj hc, rfl⟩
    · rintro (⟨t, ht⟩ | ⟨rfl, rfl⟩)
      · exact ⟨t, List.mem_append_left _ ht⟩
      · exact ⟨token, List.mem_append_right _ List.mem_cons_self⟩
  have hengaged : ∀ c, l'.Engaged lib refreshToken c → l.Engaged lib refreshToken c := by
    rintro c (hc | ⟨hc, id, hid⟩)
    · rcases (refreshes_set hcall hcalls).mp hc with ⟨-, hc⟩ | ⟨rfl, hrequest, -⟩
      · exact Or.inl hc
      · exact Or.inl ⟨call, hcall, hrequest, (hholds hrequest).1⟩
    · rcases (refreshes_set hcall hcalls).mp hc with ⟨hne, hc⟩ | ⟨rfl, hrequest, -⟩
      · rcases (hinserts c id).mp hid with hid | ⟨rfl, -⟩
        · exact Or.inr ⟨hc, id, hid⟩
        · exact absurd rfl hne
      · exact Or.inl ⟨call, hcall, hrequest, (hholds hrequest).1⟩
  have hkeys : l'.sys.db.keys = l.sys.db.keys ++ [session.key] := by
    rw [AuthDb.keys, hsessions, List.map_append]
    rfl
  refine ⟨fun c id hc ↦ ?_, fun c id id' hid hid' ↦ ?_, fun c hc ↦ ?_, fun c c' hc hc' ↦ ?_,
    fun c hc ↦ ?_, fun c hc hnot ↦ ?_⟩
  · rcases (hinserts c id).mp hc with hc | ⟨rfl, rfl⟩
    · obtain ⟨call', hcall', hpast''⟩ := h.past c id hc
      refine ⟨call', ?_, hpast''⟩
      rw [hcalls, List.getElem?_set_ne, hcall']
      rintro rfl
      exact hnone id hc
    · exact ⟨{ call with state := state },
        by rw [hcalls, List.getElem?_set_self (List.getElem?_eq_some_iff.mp hcall).1], hpast'⟩
  · rcases (hinserts c id).mp hid with hid | ⟨rfl, rfl⟩ <;>
      rcases (hinserts _ id').mp hid' with hid' | ⟨hc, rfl⟩
    · exact h.once c id id' hid hid'
    · exact absurd (hc ▸ hid) (hnone id)
    · exact absurd hid' (hnone id')
    · rfl
  · simp only [hinserts]
    rcases (refreshes_set hcall hcalls).mp hc with ⟨-, hc⟩ | ⟨rfl, -⟩
    · obtain ⟨id, hid⟩ := h.inserted c hc
      exact ⟨id, Or.inl hid⟩
    · exact ⟨session.id, Or.inr ⟨rfl, rfl⟩⟩
  · exact h.one c c' (hengaged c hc) (hengaged c' hc')
  · obtain ⟨key, hkey, hcompare⟩ := h.known c (hengaged c hc)
    exact ⟨key, hkeys ▸ List.mem_append_left _ hkey, hcompare⟩
  · have hclosed : ¬ l.Open lib refreshToken := by
      refine h.closed c (hengaged c hc) ?_
      rintro ⟨call', hcall', hrequest, hstate⟩
      refine hnot ((refreshes_set hcall hcalls).mpr ?_)
      by_cases hne : c₀ = c
      · subst hne
        obtain rfl := Option.some.inj (hcall.symm.trans hcall')
        exact Or.inr ⟨rfl, hrequest, (hholds hrequest).2⟩
      · exact Or.inl ⟨hne, call', hcall', hrequest, hstate⟩
    rintro ⟨session', hsession', hcompare, hrevoked⟩
    rw [hsessions, List.mem_append, List.mem_singleton] at hsession'
    rcases hsession' with hold | rfl
    · exact hclosed ⟨session', hold, hcompare, hrevoked⟩
    -- The new session would be a second one for the token.
    · obtain ⟨key, hkey, hcompare'⟩ := h.known c (hengaged c hc)
      obtain ⟨c', hlog'⟩ := hkept.inserted_of_compare hexact hkey hcompare'
      rw [hhash, hexact, decide_eq_true_eq] at hcompare
      subst hcompare
      obtain ⟨old, hold, rfl⟩ := List.mem_map.mp hkey
      refine hfresh old hold (hdistinct c' (some c₀) _ _ refreshToken ?_ ?_)
      · exact hlog ▸ List.mem_append_left _ hlog'
      · exact hlog ▸ List.mem_append_right _ List.mem_cons_self

/-- **Step lemma.** -/
theorem Single.step (h : l.Single lib refreshToken) (hkept : l.Kept lib) (hexact : lib.Exact)
    (halone : l.Alone lib refreshToken e) (heffect : Effect lib l l' e) (hdistinct : l'.Distinct) :
    l'.Single lib refreshToken := by
  cases heffect with
  | tick ms db calls log => exact h.congr calls log (by rw [db])
  | call nodeId request db calls log => exact h.call db calls log
  | @performed c call stage fate fresh salt answer settled hcall hstate hfate perform calls log =>
    have hkeptState : (AuthCallState.awaiting stage none).Kept lib l.sys.db.keys call.request :=
      hstate ▸ hkept.calls c call hcall
    have hundisturbed : call.request = .refresh refreshToken →
        l.Undisturbed lib refreshToken fate (.awaiting stage none) :=
      fun hrequest ↦ hstate ▸ halone call hcall hrequest
    rcases AuthStage.perform_sessions perform with
      ⟨user, deviceInfo, tokens, matched, hashed, rfl, hfresh, hsessions⟩ | ⟨hne, hsessions⟩
    · -- The INSERT of a session.
      obtain ⟨hmatched, salt', rfl⟩ := hkeptState.1
      refine h.insert hkept hexact hcall calls hsessions log hfresh rfl hdistinct
        (by rw [hstate]; rfl) rfl fun hrequest ↦ ?_
      cases matched with
      | none =>
        have hopens : call.request.Opens := hmatched
        rw [hrequest] at hopens
        exact hopens.elim
      | some matched =>
        rcases hfate with ⟨-, rfl⟩ | ⟨rfl, -⟩
        · exact ⟨by rw [hstate]; rfl, rfl⟩
        · exact absurd rfl (hundisturbed hrequest)
    · -- Any other statement inserts nothing, and opens no session again.
      have hlog : ∀ c id t, .inserted c id t ∈ l'.log ↔ .inserted c id t ∈ l.log := by
        intro c' id t
        rw [log, AuthStage.observed_of_ne_insert hne, List.mem_append, or_iff_left]
        simp
      have hopen : l'.Open lib refreshToken → l.Open lib refreshToken := by
        rintro ⟨session, hsession, hcompare, hrevoked⟩
        rw [hsessions, List.mem_map] at hsession
        obtain ⟨old, hold, rfl⟩ := hsession
        split at hcompare
        · rename_i hrevokes
          rw [if_pos hrevokes] at hrevoked
          cases hrevoked
        · rename_i hrevokes
          rw [if_neg hrevokes] at hrevoked
          exact ⟨old, hold, hcompare, hrevoked⟩
      by_cases hselect : call.request = .refresh refreshToken ∧
          (AuthCallState.awaiting stage (some settled)).holds lib = true ∧
          ∃ token user, stage = .refreshSessions token user
      · -- The SELECT has found the session: no other `refresh` may hold it now.
        obtain ⟨hrequest, hholds, token, user, rfl⟩ := hselect
        obtain rfl : token = refreshToken :=
          AuthRequest.refresh.inj (hkeptState.1.symm.trans hrequest)
        rcases hfate with ⟨rfl, rfl⟩ | ⟨-, rfl⟩
        · obtain ⟨hdb, hanswer⟩ := perform_refreshSessions perform
          refine h.select hcall calls hdb ?_ (by rw [hstate]; rfl) rfl ?_ ?_ hholds
          · rw [log]
            simp [AuthStage.observed, AuthStage.promise, AuthPromise.revokes, AuthQuery.revokes]
          · have hany : ∃ session ∈ l.sys.db.activeSessions user.id,
                lib.compare token session.refreshToken = true := by
              simpa [AuthCallState.holds, AuthCallState.renewing, hanswer] using hholds
            obtain ⟨session, hsession, hcompare⟩ := hany
            obtain ⟨hmem, -, hrevoked, -⟩ := AuthDb.mem_activeSessions.mp hsession
            exact ⟨session, hmem, hcompare, hrevoked⟩
          · rintro c' ⟨call', hcall', hrequest', hholds'⟩
            have hfree := hundisturbed hrequest rfl call' (List.mem_of_getElem? hcall') hrequest'
            rw [hfree] at hholds'
            cases hholds'
        · rw [holds_rejected] at hholds
          cases hholds
      · -- No call takes hold of the session.
        refine h.set hcall calls hlog (AuthStage.keys_grow perform).subset hopen (fun hpast ↦ ?_)
          (fun _ hinserted ↦ ?_) (fun hrequest hholds ↦ ?_) fun hrequest _ ↦ Or.inr ?_
        · rw [hstate] at hpast
          cases stage <;> first | rfl | cases hpast
        · rw [hstate]
          cases stage with
          | sessionInsert => exact absurd rfl (hne _ _ _ _ _)
          | refreshRevoke => rfl
          | _ => cases hinserted
        · rw [hstate]
          cases stage with
          | sessionInsert => exact absurd rfl (hne _ _ _ _ _)
          | refreshRevoke => rfl
          | refreshSessions token user =>
            obtain rfl : token = refreshToken :=
              AuthRequest.refresh.inj (hkeptState.1.symm.trans hrequest)
            exact absurd ⟨hrequest, hholds, token, user, rfl⟩ hselect
          | _ =>
            rw [holds_of_ne hne (by rintro _ _ _ ⟨⟩)] at hholds ⊢
            obtain ⟨user, huser⟩ := Option.isSome_iff_exists.mp hholds
            exact Option.isSome_of_eq_some (renewing_settled (by rintro _ _ ⟨⟩) huser)
        · cases stage with
          | sessionInsert => exact absurd rfl (hne _ _ _ _ _)
          -- After the UPDATE the session is not open any more.
          | refreshRevoke user tokens matched =>
            obtain ⟨hkey, token, htoken, hcompare⟩ :
              call.request.Matched lib l.sys.db.keys (some matched) := hkeptState.1
            obtain rfl := AuthRequest.refresh.inj (htoken.symm.trans hrequest)
            exact Or.inr (hkept.not_open_of_revoked hexact (hdistinct.of_grows (log_grows
              (.performed hcall hstate hfate perform calls log))) hkey hcompare hsessions)
          | _ => exact Or.inl (by rw [hstate]; rfl)
  | @failed c call stage fate fresh salt hcall hstate hfate db calls log =>
    refine h.set hcall calls (by rw [log]; exact fun _ _ _ ↦ Iff.rfl) (db ▸ List.Subset.refl _)
      (fun ho ↦ by rw [Open, ← db]; exact ho) (fun hpast ↦ ?_) (fun _ hinserted ↦ ?_)
      (fun _ hholds ↦ ?_) fun hrequest _ ↦ Or.inr ?_
    · rw [hstate] at hpast
      cases stage <;> first | rfl | cases hpast
    · rw [hstate]
      cases stage <;> first | rfl | cases hinserted
    · rw [holds_rejected] at hholds
      cases hholds
    · rw [hstate]
      cases stage with
      | refreshRevoke user tokens matched =>
        have hundisturbed := halone call hcall hrequest
        rw [hstate] at hundisturbed
        rcases hfate with rfl | hperform
        · exact absurd rfl hundisturbed
        · simp [AuthStage.promise, AuthPromise.perform, AuthDb.exec] at hperform
      | _ => exact Or.inl rfl
  | @resumed c call stage settled hcall hstate db calls log =>
    have hkeptState := hstate ▸ hkept.calls c call hcall
    refine h.set hcall calls (log ▸ inserted_mem_append_observed)
      (db ▸ List.Subset.refl _) (fun ho ↦ by rw [Open, ← db]; exact ho) (fun hpast ↦ ?_)
      (fun hrequest hinserted ↦ ?_) (fun _ hholds ↦ ?_) fun _ hholds ↦ Or.inl ?_
    · exact pastInsert_resume (hstate ▸ hpast)
    · rw [hstate]
      exact hasInserted_of_resume hkeptState hrequest hinserted
    · rwa [holds_resume hkeptState, ← hstate] at hholds
    · rwa [holds_resume hkeptState, ← hstate]

theorem single_start {db : AuthDb} {before : List (Uuid × JsString)} :
    (start db before).Single lib refreshToken := by
  have hnone : ∀ c id, ¬ (start db before).Inserts c id := by
    rintro c id ⟨token, htoken⟩
    obtain ⟨issue, -, hissue⟩ := List.mem_map.mp htoken
    cases hissue
  have hcalls : ∀ c (P : AuthCallState → Prop),
      ¬ (start db before).Refreshes refreshToken c P := by
    rintro c P ⟨call, hcall, -⟩
    cases hcall
  have hengaged : ∀ c, ¬ (start db before).Engaged lib refreshToken c := by
    rintro c (hc | ⟨hc, -⟩) <;> exact hcalls c _ hc
  exact ⟨fun c id hid ↦ absurd hid (hnone c id), fun c id id' hid ↦ absurd hid (hnone c id),
    fun c hc ↦ absurd hc (hcalls c _), fun c c' hc ↦ absurd hc (hengaged c),
    fun c hc ↦ absurd hc (hengaged c), fun c hc ↦ absurd hc (hengaged c)⟩

/-- **At most one use.** bcrypt accepts exactly the token that was hashed, and no two sessions are
inserted for one token. In every run in which a `refresh` of the token reads the sessions only while
no other holds the session of the token, and none fails between its INSERT and its UPDATE, at most
one returns, and at most one session is inserted by them. -/
theorem refreshed_at_most_once (hexact : lib.Exact) {db : AuthDb} {before : List (Uuid × JsString)}
    (hissued : Issued lib db before) {es : List AuthEvent}
    (halone : Guarded (Ledger.step lib) (Alone lib refreshToken) (start db before) es)
    (hrun : run (Ledger.step lib) (start db before) es = some l) (hdistinct : l.Distinct) :
    l.UsedOnce refreshToken := by
  have hinvariant : l.Kept lib ∧ (l.Distinct → l.Single lib refreshToken) := by
    refine guarded_invariant (fun l ↦ l.Kept lib ∧ (l.Distinct → l.Single lib refreshToken))
      (fun {l e l'} h hguard hstep ↦ ?_) ⟨hissued.kept, fun _ ↦ single_start⟩ halone hrun
    have heffect := effect_of_step hstep
    refine ⟨h.1.step heffect, fun hdistinct ↦ ?_⟩
    have hsingle := h.2 (hdistinct.of_grows (log_grows heffect))
    exact hsingle.step h.1 hexact hguard heffect hdistinct
  have hsingle := hinvariant.2 hdistinct
  have hengaged : ∀ c id, l.Refreshes refreshToken c (fun _ ↦ True) → l.Inserts c id →
      l.Engaged lib refreshToken c := fun c id hc hid ↦ Or.inr ⟨hc, id, hid⟩
  constructor
  · have hreturned : ∀ c, l.Refreshes refreshToken c (·.isReturned) →
        l.Engaged lib refreshToken c := by
      rintro c ⟨call, hcall, hrequest, hreturned⟩
      obtain ⟨id, hid⟩ :=
        hsingle.inserted c ⟨call, hcall, hrequest, hasInserted_of_returned hreturned⟩
      exact hengaged c id ⟨call, hcall, hrequest, trivial⟩ hid
    exact fun c c' hc hc' ↦ hsingle.one c c' (hreturned c hc) (hreturned c' hc')
  · intro c c' id id' hc hc' hid hid'
    obtain rfl := hsingle.one c c' (hengaged c id hc hid) (hengaged c' id' hc' hid')
    exact hsingle.once c id id' hid hid'

/-! ## Examples -/

theorem clear_exact : AuthLibraries.clear.Exact := fun _ _ _ ↦ rfl

/-- The refresh token of a session that has been opened at second 0. -/
def aliceToken : JsString := AuthLibraries.clear.signRefreshToken AuthSystem.alice 0

def aliceSession : Session :=
  ⟨.ofDigit 5, some .nil, aliceToken, none, 0, 2592000000, none⟩

def aliceDb : AuthDb := { users := [AuthSystem.alice], sessions := [aliceSession] }

theorem issued_alice : Issued .clear aliceDb [(.ofDigit 5, aliceToken)] := by
  intro session hsession
  obtain rfl := List.mem_singleton.mp hsession
  exact ⟨aliceToken, [], List.mem_cons_self, rfl⟩

/-- Two calls, one after the other: the second throws. -/
theorem refreshed_at_most_once_in_turn :
    ∃ l, run (Ledger.step .clear) (start aliceDb [(.ofDigit 5, aliceToken)])
        (.tick 1000 :: .call [] (.refresh aliceToken) :: AuthSystem.answers 0 6 (.ofDigit 1) ++
        .tick 1000 :: .call [] (.refresh aliceToken) :: AuthSystem.answers 1 2 (.ofDigit 2)) =
          some l ∧
      l.sys.calls.map (·.state.isReturned) = [true, false] ∧ l.UsedOnce aliceToken := by
  refine exists_run_of_any (fun l : Ledger ↦ l.Distinct ∧
    l.sys.calls.map (·.state.isReturned) = [true, false]) (by decide +kernel) ?_
  rintro l hrun ⟨hdistinct, hreturned⟩
  exact ⟨hreturned, refreshed_at_most_once clear_exact issued_alice (by decide +kernel)
    hrun hdistinct⟩

/-- Two calls read the sessions before either revokes: both return. -/
theorem refreshed_twice :
    ∃ l, run (Ledger.step .clear) (start aliceDb [(.ofDigit 5, aliceToken)])
        (.tick 1000 :: .call [] (.refresh aliceToken) :: .call [] (.refresh aliceToken) ::
        AuthSystem.answers 0 3 .nil ++ .tick 1000 :: AuthSystem.answers 1 3 .nil ++
        AuthSystem.answers 0 3 (.ofDigit 1) ++ AuthSystem.answers 1 3 (.ofDigit 2)) = some l ∧
      Issued .clear aliceDb [(.ofDigit 5, aliceToken)] ∧ l.Distinct ∧ ¬ l.UsedOnce aliceToken := by
  refine exists_run_of_any (fun l : Ledger ↦ l.Distinct ∧
    l.sys.calls.map (fun call ↦ (call.request, call.state.isReturned)) =
      [(.refresh aliceToken, true), (.refresh aliceToken, true)]) (by decide +kernel) ?_
  rintro l - ⟨hdistinct, hcalls⟩
  refine ⟨issued_alice, hdistinct, fun honce ↦ ?_⟩
  have hreturned : ∀ c < 2, l.Refreshes aliceToken c (·.isReturned) := by
    intro c hc
    have hget : (l.sys.calls.map fun call ↦ (call.request, call.state.isReturned))[c]? =
        some (.refresh aliceToken, true) := by
      rw [hcalls]
      obtain rfl | rfl : c = 0 ∨ c = 1 := by omega
      · rfl
      · rfl
    rw [List.getElem?_map, Option.map_eq_some_iff] at hget
    obtain ⟨call, hcall, hpair⟩ := hget
    exact ⟨call, hcall, (Prod.mk.inj hpair).1, (Prod.mk.inj hpair).2⟩
  exact absurd (honce.returned 0 1 (hreturned 0 (by omega)) (hreturned 1 (by omega))) (by omega)

end Ledger

end PostgresChat
