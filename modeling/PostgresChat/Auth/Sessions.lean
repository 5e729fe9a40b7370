import PostgresChat.Auth.Service
import PostgresChat.Lib.Lists

/-!
# Sessions and the calls that write them

The tables do not tell for which refresh token a row of `sessions` was inserted, nor which call has
revoked it. A `Ledger` is the system together with a log of this; no step reads the log
(`Ledger.run_sys`).

What every call knows is an invariant (`Ledger.Kept`): a hash that is about to be inserted is one of
the token it is inserted for, and a session that `refresh` has matched is a row of the table whose
hash accepts the token it was given.
-/

namespace PostgresChat

open Execution

/-! ## The log -/

inductive SessionObservation where
  /-- The row was inserted for the refresh token; by call `c`, or by a call before the start. -/
  | inserted (c : Option ℕ) (session : Uuid) (refreshToken : JsString)
  /-- Call `c` has set `revoked_at` of the row. -/
  | revoked (c : ℕ) (session : Uuid)
  /-- Call `c`, a `refresh` of the token, has returned. -/
  | refreshed (c : ℕ) (refreshToken : JsString)
  deriving DecidableEq

/-- The row meets the `WHERE` of an UPDATE on `sessions`. -/
def AuthQuery.revokes (session : Session) : AuthQuery → Bool
  | .revokeSession id => some session.id = Uuid.parse id
  | .revokeSessionOf id userId =>
    some session.id = Uuid.parse id ∧
      session.userId.any fun owner ↦ some owner = Uuid.parse userId
  | .revokeSessionsOf userId =>
    (session.userId.any fun owner ↦ some owner = Uuid.parse userId) ∧ session.revokedAt = none
  | _ => false

def AuthPromise.revokes (session : Session) : AuthPromise → Bool
  | .query q => q.revokes session
  | .hash _ | .compare .. => false

/-- What there is to observe when the statement awaited by call `c` runs on `db`. -/
def AuthStage.observed (c : ℕ) (fresh : Uuid) (db : AuthDb) (nodeId : JsString)
    (stage : AuthStage) : List SessionObservation :=
  match stage with
  | .sessionInsert _ _ tokens _ _ => [.inserted (some c) fresh tokens.refreshToken]
  | _ => (db.sessions.filter fun session ↦ (stage.promise nodeId).revokes session).map fun session ↦
      .revoked c session.id

/-- What there is to observe when call `c` goes on. -/
def AuthNext.observed (c : ℕ) (request : AuthRequest) (next : AuthNext) : List SessionObservation :=
  match request, next with
  | .refresh refreshToken, .returned _ => [.refreshed c refreshToken]
  | _, _ => []

structure Ledger where
  sys : AuthSystem
  log : List SessionObservation := []

namespace Ledger

/-- What there is to observe at an event. -/
def observed (lib : AuthLibraries) (l : Ledger) : AuthEvent → List SessionObservation
  | .tick _ | .call .. => []
  | .settle c fate fresh salt =>
    match l.sys.calls[c]? with
    | some ⟨nodeId, _, .awaiting stage none⟩ =>
      if fate = .refused ∨ (stage.promise nodeId).perform lib l.sys.db fresh salt = none then []
      else stage.observed c fresh l.sys.db nodeId
    | _ => []
  | .resume c =>
    match l.sys.calls[c]? with
    | some ⟨_, request, .awaiting stage (some settled)⟩ =>
      (stage.resume lib l.sys.db.now settled).observed c request
    | _ => []

def step (lib : AuthLibraries) (l : Ledger) (e : AuthEvent) : Option Ledger :=
  (l.sys.step lib e).map fun sys ↦ ⟨sys, l.log ++ l.observed lib e⟩

/-- No call has been made yet; the rows that there are have been inserted for the tokens that the
log lists. -/
def start (db : AuthDb) (before : List (Uuid × JsString)) : Ledger where
  sys := { db := db }
  log := before.map fun issue ↦ .inserted none issue.1 issue.2

/-- What a step does. -/
inductive Effect (lib : AuthLibraries) (l l' : Ledger) : AuthEvent → Prop
  | tick (ms : ℕ) (db : l'.sys.db = { l.sys.db with now := l.sys.db.now + ms })
      (calls : l'.sys.calls = l.sys.calls) (log : l'.log = l.log) : Effect lib l l' (.tick ms)
  | call (nodeId : JsString) (request : AuthRequest) (db : l'.sys.db = l.sys.db)
      (calls : l'.sys.calls =
        l.sys.calls ++ [⟨nodeId, request, (request.start lib l.sys.db.now).state⟩])
      (log : l'.log = l.log) : Effect lib l l' (.call nodeId request)
  /-- The statement runs, or bcrypt computes; the answer may be lost. -/
  | performed {c : ℕ} {call : AuthCall} {stage : AuthStage} {fate : Fate} {fresh : Uuid}
      {salt : JsString} {answer : AuthAnswer} {settled : Option AuthAnswer}
      (hcall : l.sys.calls[c]? = some call) (hstate : call.state = .awaiting stage none)
      (hfate : fate = .answered ∧ settled = some answer ∨ fate = .lost ∧ settled = none)
      (perform : (stage.promise call.nodeId).perform lib l.sys.db fresh salt =
        some (l'.sys.db, answer))
      (calls : l'.sys.calls =
        l.sys.calls.set c { call with state := .awaiting stage (some settled) })
      (log : l'.log = l.log ++ stage.observed c fresh l.sys.db call.nodeId) :
      Effect lib l l' (.settle c fate fresh salt)
  | failed {c : ℕ} {call : AuthCall} {stage : AuthStage} {fate : Fate} {fresh : Uuid}
      {salt : JsString} (hcall : l.sys.calls[c]? = some call)
      (hstate : call.state = .awaiting stage none)
      (hfate : fate = .refused ∨
        (stage.promise call.nodeId).perform lib l.sys.db fresh salt = none)
      (db : l'.sys.db = l.sys.db)
      (calls : l'.sys.calls = l.sys.calls.set c { call with state := .awaiting stage (some none) })
      (log : l'.log = l.log) : Effect lib l l' (.settle c fate fresh salt)
  | resumed {c : ℕ} {call : AuthCall} {stage : AuthStage} {settled : Option AuthAnswer}
      (hcall : l.sys.calls[c]? = some call) (hstate : call.state = .awaiting stage (some settled))
      (db : l'.sys.db = l.sys.db)
      (calls : l'.sys.calls = l.sys.calls.set c
        { call with state := (stage.resume lib l.sys.db.now settled).state })
      (log : l'.log = l.log ++ (stage.resume lib l.sys.db.now settled).observed c call.request) :
      Effect lib l l' (.resume c)

variable {lib : AuthLibraries} {l l' : Ledger} {e : AuthEvent}

theorem effect_of_step (hstep : l.step lib e = some l') : Effect lib l l' e := by
  obtain ⟨sys, hsys, rfl⟩ := Option.map_eq_some_iff.mp hstep
  cases e with
  | tick ms =>
    obtain rfl := Option.some.inj hsys
    exact .tick ms rfl rfl (List.append_nil _)
  | call nodeId request =>
    obtain rfl := Option.some.inj hsys
    exact .call nodeId request rfl rfl (List.append_nil _)
  | settle c fate fresh salt =>
    obtain ⟨⟨nodeId, request, state⟩, hcall, hsettle⟩ := Option.bind_eq_some_iff.mp hsys
    rcases state with ⟨stage, _ | settled⟩ | result | _
    · obtain rfl := Option.some.inj hsettle
      have hobserved : l.observed lib (.settle c fate fresh salt) =
          if fate = .refused ∨ (stage.promise nodeId).perform lib l.sys.db fresh salt = none then []
          else stage.observed c fresh l.sys.db nodeId := by
        rw [observed, hcall]
      cases hperform : (stage.promise nodeId).perform lib l.sys.db fresh salt with
      | none =>
        rw [if_pos (Or.inr hperform)] at hobserved
        refine .failed hcall rfl (Or.inr hperform) ?_ ?_ (by rw [hobserved, List.append_nil])
        · cases fate <;> simp only [AuthSystem.settle, hperform]
        · cases fate <;> simp only [AuthSystem.settle, hperform]
      | some res =>
        obtain ⟨db, answer⟩ := res
        have hran : fate ≠ .refused → l.observed lib (.settle c fate fresh salt) =
            stage.observed c fresh l.sys.db nodeId := by
          intro hfate
          rw [hobserved, if_neg]
          rintro (h | h)
          · exact hfate h
          · rw [hperform] at h
            cases h
        cases fate with
        | refused =>
          exact .failed hcall rfl (Or.inl rfl) rfl rfl
            (by rw [hobserved, if_pos (Or.inl rfl), List.append_nil])
        | answered =>
          have hdb : (stage.promise nodeId).perform lib l.sys.db fresh salt = some
              ((l.sys.settle lib c ⟨nodeId, request, .awaiting stage none⟩ stage .answered fresh
                salt).db, answer) := by simp only [AuthSystem.settle, hperform]
          refine .performed hcall rfl (Or.inl ⟨rfl, rfl⟩) hdb ?_ (by rw [hran (by rintro ⟨⟩)])
          simp only [AuthSystem.settle, hperform]
        | lost =>
          have hdb : (stage.promise nodeId).perform lib l.sys.db fresh salt = some
              ((l.sys.settle lib c ⟨nodeId, request, .awaiting stage none⟩ stage .lost fresh
                salt).db, answer) := by simp only [AuthSystem.settle, hperform]
          refine .performed hcall rfl (Or.inr ⟨rfl, rfl⟩) hdb ?_ (by rw [hran (by rintro ⟨⟩)])
          simp only [AuthSystem.settle, hperform]
    all_goals cases hsettle
  | resume c =>
    obtain ⟨⟨nodeId, request, state⟩, hcall, hresume⟩ := Option.bind_eq_some_iff.mp hsys
    rcases state with ⟨stage, _ | settled⟩ | result | _
    case awaiting.some =>
      obtain rfl := Option.some.inj hresume
      exact .resumed hcall rfl rfl rfl (by rw [observed, hcall])
    all_goals cases hresume

end Ledger

/-! ## What statements do to the sessions -/

/-- The columns of a session that no statement changes. -/
def Session.key (session : Session) : Uuid × Option Uuid × JsString :=
  (session.id, session.userId, session.refreshToken)

/-- The rows that `refresh` reads. -/
def AuthDb.activeSessions (db : AuthDb) (owner : Uuid) : List Session :=
  db.sessions.filter fun session ↦
    session.userId = some owner ∧ session.revokedAt = none ∧ db.now < session.expiresAt

def AuthDb.keys (db : AuthDb) : List (Uuid × Option Uuid × JsString) := db.sessions.map Session.key

section

variable {lib : AuthLibraries} {db db' : AuthDb} {fresh : Uuid} {salt nodeId : JsString}
  {q : AuthQuery} {rows : AuthRows} {stage : AuthStage} {answer : AuthAnswer}

theorem AuthDb.mem_activeSessions {owner : Uuid} {session : Session} :
    session ∈ db.activeSessions owner ↔ session ∈ db.sessions ∧
      session.userId = some owner ∧ session.revokedAt = none ∧ db.now < session.expiresAt := by
  rw [activeSessions, List.mem_filter, decide_eq_true_eq]

theorem AuthDb.key_mem_keys_of_mem_activeSessions {owner : Uuid} {session : Session}
    (h : session ∈ db.activeSessions owner) : session.key ∈ db.keys :=
  List.mem_map_of_mem (mem_activeSessions.mp h).1

theorem any_some_eq {userId : Option Uuid} {owner : Uuid} :
    (userId.any fun id ↦ id = owner) = decide (userId = some owner) := by
  cases userId <;> simp

theorem AuthDb.map_sessions_of_not_revokes {condition : Session → Bool}
    (h : ∀ session, condition session = false) :
    db.sessions = db.sessions.map fun session ↦
      if condition session then { session with revokedAt := some db.now } else session := by
  refine (List.map_id'' (fun session ↦ ?_) _).symm
  rw [h]
  rfl

/-- A statement adds one row, or sets `revoked_at` where its `WHERE` tells it to. -/
theorem AuthDb.exec_sessions (h : db.exec fresh q = some (db', rows)) :
    (∃ userId hashedRefresh deviceInfo owner,
      q = .insertSession userId hashedRefresh deviceInfo ∧ Uuid.parse userId = some owner ∧
      (∀ session ∈ db.sessions, session.id ≠ fresh) ∧
      db'.sessions = db.sessions ++
        [⟨fresh, some owner, hashedRefresh, some deviceInfo, db.now, db.sessionExpiry, none⟩]) ∨
    (∀ userId hashedRefresh deviceInfo, q ≠ .insertSession userId hashedRefresh deviceInfo) ∧
      db'.sessions = db.sessions.map fun session ↦
        if q.revokes session then { session with revokedAt := some db.now } else session := by
  cases q <;> simp only [exec, Option.bind_eq_bind, Option.bind_eq_some_iff, Option.guard_eq_some',
    Option.pure_def, Option.some.injEq, Prod.mk.injEq] at h
  case findByEmail =>
    obtain ⟨_, _, rfl, -⟩ := h
    exact Or.inr ⟨by rintro _ _ _ ⟨⟩, map_sessions_of_not_revokes fun _ ↦ rfl⟩
  case findById =>
    obtain ⟨_, _, rfl, -⟩ := h
    exact Or.inr ⟨by rintro _ _ _ ⟨⟩, map_sessions_of_not_revokes fun _ ↦ rfl⟩
  case insertUser =>
    obtain ⟨_, _, _, _, rfl, -⟩ := h
    exact Or.inr ⟨by rintro _ _ _ ⟨⟩, map_sessions_of_not_revokes fun _ ↦ rfl⟩
  case selectSessions =>
    obtain ⟨_, _, rfl, -⟩ := h
    exact Or.inr ⟨by rintro _ _ _ ⟨⟩, map_sessions_of_not_revokes fun _ ↦ rfl⟩
  case insertSession userId hashedRefresh deviceInfo =>
    obtain ⟨owner, howner, _, -, _, -, _, hfresh, rfl, -⟩ := h
    exact Or.inl ⟨_, _, _, owner, rfl, howner, fun session hsession ↦ (hfresh session hsession).1,
      rfl⟩
  case revokeSession id =>
    obtain ⟨sessionId, hid, rfl, -⟩ := h
    refine Or.inr ⟨by rintro _ _ _ ⟨⟩, List.map_congr_left fun session _ ↦ ?_⟩
    simp only [AuthQuery.revokes, hid, Option.some.injEq]
  case revokeSessionOf id userId =>
    obtain ⟨sessionId, hid, owner, howner, rfl, -⟩ := h
    refine Or.inr ⟨by rintro _ _ _ ⟨⟩, List.map_congr_left fun session _ ↦ ?_⟩
    simp only [AuthQuery.revokes, hid, howner, any_some_eq, Option.some.injEq, decide_eq_true_eq]
  case revokeSessionsOf userId =>
    obtain ⟨owner, howner, rfl, -⟩ := h
    refine Or.inr ⟨by rintro _ _ _ ⟨⟩, List.map_congr_left fun session _ ↦ ?_⟩
    simp only [AuthQuery.revokes, howner, any_some_eq, Option.some.injEq, decide_eq_true_eq]

theorem AuthStage.observed_of_ne_insert (h : ∀ user deviceInfo tokens matched hashedRefresh,
      stage ≠ .sessionInsert user deviceInfo tokens matched hashedRefresh) (c : ℕ) :
    stage.observed c fresh db nodeId =
      (db.sessions.filter fun session ↦ (stage.promise nodeId).revokes session).map
        fun session ↦ .revoked c session.id := by
  cases stage with
  | sessionInsert => exact absurd rfl (h _ _ _ _ _)
  | _ => rfl

/-- What the statement awaited by a call does to the sessions. -/
theorem AuthStage.perform_sessions
    (h : (stage.promise nodeId).perform lib db fresh salt = some (db', answer)) :
    (∃ user deviceInfo tokens matched hashedRefresh,
      stage = .sessionInsert user deviceInfo tokens matched hashedRefresh ∧
      (∀ session ∈ db.sessions, session.id ≠ fresh) ∧
      db'.sessions = db.sessions ++ [⟨fresh, some user.id, hashedRefresh,
        some (deviceInfo.getD nodeId), db.now, db.sessionExpiry, none⟩]) ∨
    (∀ user deviceInfo tokens matched hashedRefresh,
        stage ≠ .sessionInsert user deviceInfo tokens matched hashedRefresh) ∧
      db'.sessions = db.sessions.map fun session ↦
        if (stage.promise nodeId).revokes session then { session with revokedAt := some db.now }
        else session := by
  cases hpromise : stage.promise nodeId with
  | hash plain =>
    rw [hpromise] at h
    obtain ⟨rfl, -⟩ := Prod.mk.inj (Option.some.inj h)
    refine Or.inr ⟨?_, AuthDb.map_sessions_of_not_revokes fun _ ↦ rfl⟩
    rintro user deviceInfo tokens matched hashedRefresh rfl
    cases hpromise
  | compare plain hashed =>
    rw [hpromise] at h
    obtain ⟨rfl, -⟩ := Prod.mk.inj (Option.some.inj h)
    refine Or.inr ⟨?_, AuthDb.map_sessions_of_not_revokes fun _ ↦ rfl⟩
    rintro user deviceInfo tokens matched hashedRefresh rfl
    cases hpromise
  | query q =>
    rw [hpromise] at h
    obtain ⟨⟨db'', rows⟩, hexec, hres⟩ := Option.map_eq_some_iff.mp h
    obtain ⟨rfl, -⟩ := Prod.mk.inj hres
    rcases AuthDb.exec_sessions hexec with
      ⟨userId, hashedRefresh, deviceInfo, owner, rfl, howner, hfresh, hsessions⟩ |
      ⟨hinsert, hsessions⟩
    · cases stage with
      | sessionInsert user info tokens matched hashed =>
        obtain ⟨rfl, rfl, rfl⟩ := AuthQuery.insertSession.inj (AuthPromise.query.inj hpromise)
        rw [Uuid.parse_text, Option.some.injEq] at howner
        subst howner
        exact Or.inl ⟨user, info, tokens, matched, _, rfl, hfresh, hsessions⟩
      | logout sessionId owner' =>
        cases sessionId with
        | none => cases hpromise
        | some sessionId =>
          rw [promise] at hpromise
          split at hpromise <;> cases hpromise
      | _ => cases hpromise
    · refine Or.inr ⟨?_, hsessions⟩
      rintro user info tokens matched hashed rfl
      exact hinsert _ _ _ (AuthPromise.query.inj hpromise).symm

theorem AuthDb.keys_of_sessions_eq_map {condition : Session → Bool} {now : ℕ}
    (h : db'.sessions = db.sessions.map fun session ↦
      if condition session then { session with revokedAt := some now } else session) :
    db'.keys = db.keys := by
  rw [AuthDb.keys, h, List.map_map]
  refine List.map_congr_left fun session _ ↦ ?_
  rw [Function.comp_apply]
  split <;> rfl

/-- No row disappears. -/
theorem AuthStage.keys_grow
    (h : (stage.promise nodeId).perform lib db fresh salt = some (db', answer)) :
    db.keys <+: db'.keys := by
  rcases AuthStage.perform_sessions h with
    ⟨user, deviceInfo, tokens, matched, hashedRefresh, -, -, hsessions⟩ | ⟨-, hsessions⟩
  · rw [AuthDb.keys, AuthDb.keys, hsessions, List.map_append]
    exact List.prefix_append _ _
  · exact AuthDb.keys_of_sessions_eq_map hsessions ▸ List.prefix_rfl

end

/-! ## What a call knows -/

/-- The calls that open a session without closing one. -/
def AuthRequest.Opens : AuthRequest → Prop
  | .register .. | .login .. => True
  | .refresh _ | .logout .. => False

/-- What is known of the session that a call has matched: if any, it is a row of the table whose
hash accepts the token that the call was given. -/
def AuthRequest.Matched (lib : AuthLibraries) (keys : List (Uuid × Option Uuid × JsString))
    (request : AuthRequest) : Option Session → Prop
  | none => request.Opens
  | some session => session.key ∈ keys ∧ ∃ refreshToken, request = .refresh refreshToken ∧
      lib.compare refreshToken session.refreshToken = true

section

variable (lib : AuthLibraries) (keys : List (Uuid × Option Uuid × JsString)) (request : AuthRequest)

/-- What a call that awaits at the stage knows. -/
def AuthStage.Kept : AuthStage → Prop
  | .registerFind .. | .registerHash .. | .registerInsert .. | .loginFind .. | .loginCompare .. =>
    request.Opens
  | .refreshFind refreshToken _ | .refreshSessions refreshToken _ => request = .refresh refreshToken
  | .refreshCompare refreshToken _ session rest =>
    request = .refresh refreshToken ∧ ∀ session' ∈ session :: rest, session'.key ∈ keys
  | .sessionHash _ _ _ matched => request.Matched lib keys matched
  | .sessionInsert _ _ tokens matched hashedRefresh =>
    request.Matched lib keys matched ∧ ∃ salt, hashedRefresh = lib.hash salt tokens.refreshToken
  | .refreshRevoke _ _ matched => request.Matched lib keys (some matched)
  | .logout sessionId userId => request = .logout sessionId userId

/-- What the answer tells it. -/
def AuthStage.Answered (answer : AuthAnswer) : AuthStage → Prop
  | .refreshSessions _ _ => ∀ session ∈ answer.sessions, session.key ∈ keys
  | .refreshCompare refreshToken _ session _ =>
    answer.matches = lib.compare refreshToken session.refreshToken
  | .sessionHash _ _ tokens _ => ∃ salt, answer.hashed = lib.hash salt tokens.refreshToken
  | _ => True

/-- What a call knows in a state. -/
def AuthCallState.Kept : AuthCallState → Prop
  | .awaiting stage settled =>
    stage.Kept lib keys request ∧
      ∀ answer, settled = some (some answer) → stage.Answered lib keys answer
  | .returned _ | .threw => True

variable {lib keys request} {keys' : List (Uuid × Option Uuid × JsString)} {stage : AuthStage}
  {answer : AuthAnswer} {now : ℕ} {user : User}

theorem AuthRequest.Matched.mono {matched : Option Session} (hkeys : keys ⊆ keys')
    (h : request.Matched lib keys matched) : request.Matched lib keys' matched := by
  cases matched with
  | none => exact h
  | some session => exact ⟨hkeys h.1, h.2⟩

theorem AuthStage.Kept.mono (hkeys : keys ⊆ keys') (h : stage.Kept lib keys request) :
    stage.Kept lib keys' request := by
  cases stage with
  | refreshCompare => exact ⟨h.1, fun session hsession ↦ hkeys (h.2 session hsession)⟩
  | sessionHash => exact AuthRequest.Matched.mono hkeys h
  | refreshRevoke user tokens matched =>
    show AuthRequest.Matched lib keys' request (some matched)
    exact AuthRequest.Matched.mono hkeys h
  | sessionInsert => exact ⟨h.1.mono hkeys, h.2⟩
  | _ => exact h

theorem AuthStage.Answered.mono (hkeys : keys ⊆ keys') (h : stage.Answered lib keys answer) :
    stage.Answered lib keys' answer := by
  cases stage with
  | refreshSessions => exact fun session hsession ↦ hkeys (h session hsession)
  | _ => exact h

theorem AuthCallState.Kept.mono {state : AuthCallState} (hkeys : keys ⊆ keys')
    (h : state.Kept lib keys request) : state.Kept lib keys' request := by
  cases state with
  | awaiting stage settled =>
    exact ⟨h.1.mono hkeys, fun answer hsettled ↦ (h.2 answer hsettled).mono hkeys⟩
  | returned | threw => exact trivial

theorem kept_await (h : stage.Kept lib keys request) :
    (AuthNext.await stage).state.Kept lib keys request :=
  ⟨h, by rintro _ ⟨⟩⟩

theorem kept_matchSessions {refreshToken : JsString} {sessions : List Session}
    (hrequest : request = .refresh refreshToken) (h : ∀ session ∈ sessions, session.key ∈ keys) :
    (matchSessions refreshToken user sessions).state.Kept lib keys request := by
  cases sessions with
  | nil => exact trivial
  | cons session rest => exact kept_await ⟨hrequest, h⟩

theorem kept_start : (request.start lib now).state.Kept lib keys request := by
  cases request with
  | register | login | logout => exact kept_await (by trivial)
  | refresh refreshToken =>
    rw [AuthRequest.start]
    split
    · exact trivial
    · split
      · exact trivial
      · exact kept_await rfl

/-- **Continuing.** -/
theorem kept_proceed (h : stage.Kept lib keys request)
    (hanswer : stage.Answered lib keys answer) :
    (stage.proceed lib now answer).state.Kept lib keys request := by
  cases stage with
  | registerFind username email password =>
    rw [AuthStage.proceed]
    split <;> exact kept_await h
  | registerHash username email password => exact kept_await h
  | registerInsert username email passwordHash =>
    rw [AuthStage.proceed]
    split
    · exact kept_await h
    · exact trivial
  | loginFind email password deviceInfo =>
    rw [AuthStage.proceed]
    split
    · exact kept_await h
    · exact trivial
  | loginCompare password deviceInfo user =>
    rw [AuthStage.proceed]
    split
    · exact kept_await h
    · exact trivial
  | refreshFind refreshToken sub =>
    rw [AuthStage.proceed]
    split
    · exact kept_await h
    · exact trivial
  | refreshSessions refreshToken user => exact kept_matchSessions h hanswer
  | refreshCompare refreshToken user session rest =>
    rw [AuthStage.proceed]
    split
    · rename_i hmatches
      have hcompare := (show answer.matches = _ from hanswer).symm.trans hmatches
      exact kept_await ⟨h.2 session List.mem_cons_self, refreshToken, h.1, hcompare⟩
    · exact kept_matchSessions h.1 fun session' hrest ↦ h.2 session' (List.mem_cons_of_mem _ hrest)
  | sessionHash user deviceInfo tokens matched => exact kept_await ⟨h, hanswer⟩
  | sessionInsert user deviceInfo tokens matched hashedRefresh =>
    cases matched with
    | none => exact trivial
    | some matched => exact kept_await h.1
  | refreshRevoke user tokens matched => exact trivial
  | logout sessionId userId => exact trivial

theorem perform_refreshSessions {db db' : AuthDb} {fresh : Uuid} {salt nodeId : JsString}
    {refreshToken : JsString}
    (h : ((AuthStage.refreshSessions refreshToken user).promise nodeId).perform lib db fresh salt =
      some (db', answer)) :
    db' = db ∧ answer.sessions = db.activeSessions user.id := by
  obtain ⟨rfl, rfl⟩ :
      db = db' ∧ AuthAnswer.rows (.sessions (db.activeSessions user.id)) = answer := by
    simpa [AuthStage.promise, AuthPromise.perform, AuthDb.exec, AuthDb.activeSessions] using h
  exact ⟨rfl, rfl⟩

/-- An answer tells the call what it is taken to tell. -/
theorem answered_of_perform {db db' : AuthDb} {fresh : Uuid} {salt nodeId : JsString}
    (h : (stage.promise nodeId).perform lib db fresh salt = some (db', answer)) :
    stage.Answered lib db'.keys answer := by
  cases stage with
  | refreshSessions refreshToken user =>
    obtain ⟨rfl, hsessions⟩ := perform_refreshSessions h
    intro session hsession
    rw [hsessions] at hsession
    exact AuthDb.key_mem_keys_of_mem_activeSessions hsession
  | refreshCompare refreshToken user session rest =>
    obtain ⟨-, rfl⟩ := Prod.mk.inj (Option.some.inj h)
    rfl
  | sessionHash user deviceInfo tokens matched =>
    obtain ⟨-, rfl⟩ := Prod.mk.inj (Option.some.inj h)
    exact ⟨salt, rfl⟩
  | _ => exact trivial

end

namespace Ledger

variable {lib : AuthLibraries} {l l' : Ledger} {e : AuthEvent}

/-- The invariant: the log accounts for every row, and every call knows what it is taken to know. -/
structure Kept (lib : AuthLibraries) (l : Ledger) : Prop where
  rows : ∀ key ∈ l.sys.db.keys, ∃ c refreshToken salt,
    .inserted c key.1 refreshToken ∈ l.log ∧ key.2.2 = lib.hash salt refreshToken
  calls : ∀ (c : ℕ) (call : AuthCall), l.sys.calls[c]? = some call →
    call.state.Kept lib l.sys.db.keys call.request

/-- Every row that there is at the start was inserted for a token that the log lists. -/
def Issued (lib : AuthLibraries) (db : AuthDb) (before : List (Uuid × JsString)) : Prop :=
  ∀ session ∈ db.sessions, ∃ refreshToken salt, (session.id, refreshToken) ∈ before ∧
    session.refreshToken = lib.hash salt refreshToken

theorem Issued.kept {db : AuthDb} {before : List (Uuid × JsString)} (h : Issued lib db before) :
    (start db before).Kept lib := by
  refine ⟨fun key hkey ↦ ?_, by rintro c call ⟨⟩⟩
  obtain ⟨session, hsession, rfl⟩ := List.mem_map.mp hkey
  obtain ⟨refreshToken, salt, hbefore, hhash⟩ := h session hsession
  exact ⟨none, refreshToken, salt, List.mem_map_of_mem hbefore, hhash⟩

/-- The log only grows. -/
theorem log_grows (heffect : Effect lib l l' e) : l.log <+: l'.log := by
  cases heffect with
  | tick _ _ _ log | call _ _ _ _ log | failed _ _ _ _ _ log => exact log ▸ List.prefix_rfl
  | performed _ _ _ _ _ log | resumed _ _ _ _ log => exact log ▸ List.prefix_append _ _

/-- All that a call adds to the log when it goes on is its own end. -/
theorem inserted_mem_append_observed {next : AuthNext} {request : AuthRequest} {c : ℕ}
    (issuer : Option ℕ) (id : Uuid) (token : JsString) :
    .inserted issuer id token ∈ l.log ++ next.observed c request ↔
      .inserted issuer id token ∈ l.log := by
  rw [List.mem_append, or_iff_left]
  cases request <;> cases next <;> simp [AuthNext.observed]

theorem revoked_mem_append_observed {next : AuthNext} {request : AuthRequest} {c : ℕ} (c' : ℕ)
    (id : Uuid) : .revoked c' id ∈ l.log ++ next.observed c request ↔ .revoked c' id ∈ l.log := by
  rw [List.mem_append, or_iff_left]
  cases request <;> cases next <;> simp [AuthNext.observed]

theorem Kept.step (h : l.Kept lib) (heffect : Effect lib l l' e) : l'.Kept lib := by
  cases heffect with
  | tick ms db calls log =>
    have hkeys : l'.sys.db.keys = l.sys.db.keys := by rw [db]; rfl
    exact ⟨by rw [hkeys, log]; exact h.rows, by rw [hkeys, calls]; exact h.calls⟩
  | call nodeId request db calls log =>
    refine ⟨by rw [db, log]; exact h.rows, fun c call hcall ↦ ?_⟩
    rw [calls, Lists.getElem?_concat_eq_some] at hcall
    rw [db]
    rcases hcall with hcall | ⟨-, rfl⟩
    · exact h.calls c call hcall
    · exact kept_start
  | @performed c call stage fate fresh salt answer settled hcall hstate hfate perform calls log =>
    obtain ⟨hstage, -⟩ : (AuthCallState.awaiting stage none).Kept lib l.sys.db.keys call.request :=
      hstate ▸ h.calls c call hcall
    have hkeys := (AuthStage.keys_grow perform).subset
    refine ⟨fun key hkey ↦ ?_, fun i call' hcall' ↦ ?_⟩
    · have hold : key ∈ l.sys.db.keys → ∃ c refreshToken salt,
          .inserted c key.1 refreshToken ∈ l'.log ∧ key.2.2 = lib.hash salt refreshToken := by
        intro hkey
        obtain ⟨c, refreshToken, salt, hlog, hhash⟩ := h.rows key hkey
        exact ⟨c, refreshToken, salt, log ▸ List.mem_append_left _ hlog, hhash⟩
      rcases AuthStage.perform_sessions perform with
        ⟨user, deviceInfo, tokens, matched, hashed, rfl, -, hsessions⟩ | ⟨-, hsessions⟩
      · rw [AuthDb.keys, hsessions, List.map_append, List.mem_append] at hkey
        rcases hkey with hkey | hkey
        · exact hold hkey
        · obtain ⟨-, salt, rfl⟩ := hstage
          obtain rfl := List.mem_singleton.mp hkey
          exact ⟨some c, tokens.refreshToken, salt,
            log ▸ List.mem_append_right _ List.mem_cons_self, rfl⟩
      · exact hold (AuthDb.keys_of_sessions_eq_map hsessions ▸ hkey)
    · rw [calls] at hcall'
      rcases Lists.of_getElem?_set hcall' with ⟨-, hcall'⟩ | ⟨rfl, rfl⟩
      · exact (h.calls i call' hcall').mono hkeys
      · refine ⟨hstage.mono hkeys, fun answer' hanswer ↦ ?_⟩
        rcases hfate with ⟨-, rfl⟩ | ⟨-, rfl⟩
        · obtain rfl := Option.some.inj (Option.some.inj hanswer)
          exact answered_of_perform perform
        · cases Option.some.inj hanswer
  | @failed c call stage fate fresh salt hcall hstate hfate db calls log =>
    obtain ⟨hstage, -⟩ : (AuthCallState.awaiting stage none).Kept lib l.sys.db.keys call.request :=
      hstate ▸ h.calls c call hcall
    refine ⟨by rw [db, log]; exact h.rows, fun i call' hcall' ↦ ?_⟩
    rw [calls] at hcall'
    rw [db]
    rcases Lists.of_getElem?_set hcall' with ⟨-, hcall'⟩ | ⟨rfl, rfl⟩
    · exact h.calls i call' hcall'
    · exact ⟨hstage, by rintro _ ⟨⟩⟩
  | @resumed c call stage settled hcall hstate db calls log =>
    obtain ⟨hstage, hanswered⟩ : (AuthCallState.awaiting stage (some settled)).Kept lib
      l.sys.db.keys call.request := hstate ▸ h.calls c call hcall
    refine ⟨fun key hkey ↦ ?_, fun i call' hcall' ↦ ?_⟩
    · rw [db] at hkey
      obtain ⟨c, refreshToken, salt, hlog, hhash⟩ := h.rows key hkey
      exact ⟨c, refreshToken, salt, log ▸ List.mem_append_left _ hlog, hhash⟩
    · rw [calls] at hcall'
      rw [db]
      rcases Lists.of_getElem?_set hcall' with ⟨-, hcall'⟩ | ⟨rfl, rfl⟩
      · exact h.calls i call' hcall'
      · cases settled with
        | none => exact trivial
        | some answer => exact kept_proceed hstage (hanswered answer rfl)

end Ledger

/-! ## Renewals -/

/-- The call has returned. -/
def AuthCallState.isReturned : AuthCallState → Bool
  | .returned _ => true
  | _ => false

/-- The user for whom the call is about to insert a session, when it is a `refresh` that has read
the session of its token as active. -/
def AuthCallState.renewing (lib : AuthLibraries) : AuthCallState → Option User
  | .awaiting (.refreshSessions refreshToken user) (some (some answer)) =>
    if answer.sessions.any fun session ↦ lib.compare refreshToken session.refreshToken then
      some user
    else none
  | .awaiting (.refreshCompare refreshToken user session rest) settled =>
    if settled ≠ some none ∧
      (session :: rest).any fun session ↦ lib.compare refreshToken session.refreshToken then
      some user
    else none
  | .awaiting (.sessionHash user _ _ (some _)) settled =>
      if settled ≠ some none then some user else none
  | .awaiting (.sessionInsert user _ _ (some _) _) none => some user
  | _ => none

section

variable {lib : AuthLibraries} {keys : List (Uuid × Option Uuid × JsString)}
  {request : AuthRequest} {stage : AuthStage} {settled : Option AuthAnswer} {user : User} {now : ℕ}

theorem renewing_matchSessions (refreshToken : JsString) (sessions : List Session) :
    (matchSessions refreshToken user sessions).state.renewing lib =
      if sessions.any fun session ↦ lib.compare refreshToken session.refreshToken then some user
      else none := by
  cases sessions with
  | nil => rfl
  | cons session rest =>
    rw [matchSessions, AuthNext.state, AuthCallState.renewing]
    simp only [ne_eq, reduceCtorEq, not_false_eq_true, true_and]

theorem renewing_start : (request.start lib now).state.renewing lib = none := by
  cases request with
  | register | login | logout => rfl
  | refresh refreshToken =>
    rw [AuthRequest.start]
    split
    · rfl
    · split <;> rfl

/-- A promise that was rejected ends it. -/
theorem renewing_rejected : (AuthCallState.awaiting stage (some none)).renewing lib = none := by
  cases stage with
  | sessionHash user deviceInfo tokens matched =>
    cases matched with
    | none => rfl
    | some matched => rw [AuthCallState.renewing, if_neg (by simp)]
  | sessionInsert user deviceInfo tokens matched hashedRefresh => cases matched <;> rfl
  | refreshCompare => rw [AuthCallState.renewing, if_neg (by simp)]
  | _ => rfl

/-- Only the SELECT of the sessions starts a renewal. -/
theorem renewing_settled (h : ∀ refreshToken user, stage ≠ .refreshSessions refreshToken user)
    (hrenewing : (AuthCallState.awaiting stage (some settled)).renewing lib = some user) :
    (AuthCallState.awaiting stage none).renewing lib = some user := by
  cases stage with
  | refreshSessions refreshToken user => exact absurd rfl (h refreshToken user)
  | refreshCompare refreshToken user' session rest =>
    rw [AuthCallState.renewing, Option.ite_none_right_eq_some] at hrenewing ⊢
    exact ⟨⟨by rintro ⟨⟩, hrenewing.1.2⟩, hrenewing.2⟩
  | sessionHash user' deviceInfo tokens matched =>
    cases matched with
    | none => cases hrenewing
    | some matched =>
      rw [AuthCallState.renewing, Option.ite_none_right_eq_some] at hrenewing ⊢
      exact ⟨by rintro ⟨⟩, hrenewing.2⟩
  | sessionInsert user' deviceInfo tokens matched hashedRefresh => cases matched <;> cases hrenewing
  | _ => cases hrenewing

/-- A call that continues goes on with its renewal. -/
theorem renewing_resume (now : ℕ)
    (h : (AuthCallState.awaiting stage (some settled)).Kept lib keys request) :
    (stage.resume lib now settled).state.renewing lib =
      (AuthCallState.awaiting stage (some settled)).renewing lib := by
  cases settled with
  | none =>
    rw [renewing_rejected]
    rfl
  | some answer =>
    cases stage with
    | refreshSessions refreshToken user => exact renewing_matchSessions refreshToken answer.sessions
    | refreshCompare refreshToken user session rest =>
      have hanswer : answer.matches = lib.compare refreshToken session.refreshToken :=
        h.2 answer rfl
      rw [AuthStage.resume, AuthStage.proceed, AuthCallState.renewing, List.any_cons, ← hanswer]
      cases answer.matches with
      | true => rfl
      | false =>
        rw [if_neg Bool.false_ne_true, renewing_matchSessions]
        simp
    | sessionHash user deviceInfo tokens matched => cases matched <;> rfl
    | sessionInsert user deviceInfo tokens matched hashedRefresh => cases matched <;> rfl
    | registerFind | registerInsert | loginFind | loginCompare | refreshFind =>
      rw [AuthStage.resume, AuthStage.proceed]
      split <;> rfl
    | registerHash | refreshRevoke | logout => rfl

end

end PostgresChat
