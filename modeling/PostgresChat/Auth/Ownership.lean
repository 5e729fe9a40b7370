import PostgresChat.Auth.Sessions
import PostgresChat.Auth.Soundness

/-!
# Whose sessions a call touches

A row of `sessions` belongs to an account. Only `revoked_at` of it ever changes, and whatever calls
run side by side, it is set by a call that names this account: a `logout` with the account's id,
which the guard in front of it has read from an access token, or a `refresh` whose token verifies
and names the account (`MayClose`). In the same way a row is added by a call that has verified the
account's password or names it by a refresh token, or that registers an e-mail address which is the
account's (`MayOpen`).

`refresh` revokes by the id of the row alone. That the row is one of the account rests on where the
id comes from: the row was read among the account's active ones, and ids are not used twice.
-/

namespace PostgresChat

open Execution

/-! ## Credentials -/

/-- The text verifies, at some time, as a refresh token whose subject is `sub`. -/
def AuthLibraries.Names (lib : AuthLibraries) (refreshToken sub : JsString) : Prop :=
  ∃ seconds payload, lib.verify lib.refreshSecret refreshToken seconds = some payload ∧
    payload.type = some refreshType ∧ payload.sub = sub

/-- What a request needs to open a session of the account. -/
inductive MayOpen (lib : AuthLibraries) (users : List User) : AuthRequest → Uuid → Prop
  /-- The account has the e-mail address; it may have had it before, with another password. -/
  | register {username email password : JsString} {user : User} (stored : user ∈ users)
      (address : user.email = email) :
      MayOpen lib users (.register username email password) user.id
  | login {email password : JsString} {deviceInfo : Option JsString} {user : User}
      (stored : user ∈ users) (address : user.email = email)
      (verified : lib.compare password user.password = true) :
      MayOpen lib users (.login email password deviceInfo) user.id
  | refresh {refreshToken sub : JsString} {owner : Uuid} (names : lib.Names refreshToken sub)
      (parsed : Uuid.parse sub = some owner) : MayOpen lib users (.refresh refreshToken) owner

/-- What a request needs to close a session of the account. -/
inductive MayClose (lib : AuthLibraries) : AuthRequest → Uuid → Prop
  | logout {sessionId : Option JsString} {userId : JsString} {owner : Uuid}
      (parsed : Uuid.parse userId = some owner) : MayClose lib (.logout sessionId userId) owner
  | refresh {refreshToken sub : JsString} {owner : Uuid} (names : lib.Names refreshToken sub)
      (parsed : Uuid.parse sub = some owner) : MayClose lib (.refresh refreshToken) owner

theorem MayOpen.mono {lib : AuthLibraries} {users users' : List User} {request : AuthRequest}
    {owner : Uuid} (husers : users ⊆ users') (h : MayOpen lib users request owner) :
    MayOpen lib users' request owner := by
  cases h with
  | register stored address => exact .register (husers stored) address
  | login stored address verified => exact .login (husers stored) address verified
  | refresh names parsed => exact .refresh names parsed

/-! ## What a call knows of the account it works for -/

/-- The rows of `sessions` by id and owner. -/
def AuthDb.owners (db : AuthDb) : List (Uuid × Option Uuid) :=
  db.sessions.map fun session ↦ (session.id, session.userId)

section

variable (lib : AuthLibraries) (users : List User) (owners : List (Uuid × Option Uuid))
  (request : AuthRequest)

/-- The session is a row of the account. -/
def Session.Of (owner : Uuid) (session : Session) : Prop :=
  session.userId = some owner ∧ (session.id, session.userId) ∈ owners

/-- What a call that awaits at the stage has to go by. -/
def AuthStage.Entitled : AuthStage → Prop
  | .registerFind username email password | .registerHash username email password =>
    request = .register username email password
  | .registerInsert username email _ => ∃ password, request = .register username email password
  | .loginFind email password deviceInfo => request = .login email password deviceInfo
  | .loginCompare password _ user =>
    ∃ email deviceInfo, request = .login email password deviceInfo ∧ user ∈ users ∧
      user.email = email
  | .refreshFind refreshToken sub => request = .refresh refreshToken ∧ lib.Names refreshToken sub
  | .refreshSessions _ user => MayOpen lib users request user.id ∧ MayClose lib request user.id
  | .refreshCompare _ user session rest =>
    MayOpen lib users request user.id ∧ MayClose lib request user.id ∧
      ∀ session' ∈ session :: rest, session'.Of owners user.id
  | .sessionHash user _ _ matched | .sessionInsert user _ _ matched _ =>
    MayOpen lib users request user.id ∧
      ∀ session ∈ matched, MayClose lib request user.id ∧ session.Of owners user.id
  | .refreshRevoke user _ matched => MayClose lib request user.id ∧ matched.Of owners user.id
  | .logout sessionId userId => request = .logout sessionId userId

/-- What the answer adds to it. -/
def AuthStage.Informed (answer : AuthAnswer) : AuthStage → Prop
  | .registerFind _ email _ | .registerInsert _ email _ | .loginFind email _ _ =>
    ∀ user ∈ answer.user?, user ∈ users ∧ user.email = email
  | .loginCompare password _ user =>
    answer.matches = true → lib.compare password user.password = true
  | .refreshFind _ sub => ∀ user ∈ answer.user?, Uuid.parse sub = some user.id
  | .refreshSessions _ user => ∀ session ∈ answer.sessions, session.Of owners user.id
  | _ => True

def AuthCallState.Entitled : AuthCallState → Prop
  | .awaiting stage settled =>
    stage.Entitled lib users owners request ∧
      ∀ answer, settled = some (some answer) → stage.Informed lib users owners answer
  | .returned _ | .threw => True

variable {lib users owners request} {users' : List User} {owners' : List (Uuid × Option Uuid)}
  {stage : AuthStage} {answer : AuthAnswer} {now : ℕ} {user : User}

theorem Session.Of.mono {owner : Uuid} {session : Session} (howners : owners ⊆ owners')
    (h : session.Of owners owner) : session.Of owners' owner := ⟨h.1, howners h.2⟩

theorem AuthStage.Entitled.mono (husers : users ⊆ users') (howners : owners ⊆ owners')
    (h : stage.Entitled lib users owners request) :
    stage.Entitled lib users' owners' request := by
  cases stage with
  | loginCompare =>
    obtain ⟨email, deviceInfo, hrequest, hstored, haddress⟩ := h
    exact ⟨email, deviceInfo, hrequest, husers hstored, haddress⟩
  | refreshSessions => exact ⟨h.1.mono husers, h.2⟩
  | refreshCompare =>
    exact ⟨h.1.mono husers, h.2.1, fun session hsession ↦ (h.2.2 session hsession).mono howners⟩
  | sessionHash | sessionInsert =>
    exact ⟨h.1.mono husers, fun session hsession ↦
      ⟨(h.2 session hsession).1, (h.2 session hsession).2.mono howners⟩⟩
  | refreshRevoke => exact ⟨h.1, h.2.mono howners⟩
  | registerFind | registerHash | registerInsert | loginFind | refreshFind | logout => exact h

theorem AuthStage.Informed.mono (husers : users ⊆ users') (howners : owners ⊆ owners')
    (h : stage.Informed lib users owners answer) : stage.Informed lib users' owners' answer := by
  cases stage with
  | registerFind | registerInsert | loginFind =>
    exact fun user huser ↦ ⟨husers (h user huser).1, (h user huser).2⟩
  | refreshSessions => exact fun session hsession ↦ (h session hsession).mono howners
  | _ => exact h

theorem AuthCallState.Entitled.mono {state : AuthCallState} (husers : users ⊆ users')
    (howners : owners ⊆ owners') (h : state.Entitled lib users owners request) :
    state.Entitled lib users' owners' request := by
  cases state with
  | awaiting stage settled =>
    exact ⟨h.1.mono husers howners, fun answer hsettled ↦
      (h.2 answer hsettled).mono husers howners⟩
  | returned | threw => exact trivial

theorem entitled_await (h : stage.Entitled lib users owners request) :
    (AuthNext.await stage).state.Entitled lib users owners request := ⟨h, by rintro _ ⟨⟩⟩

theorem entitled_matchSessions {refreshToken : JsString} {sessions : List Session}
    (hopen : MayOpen lib users request user.id) (hclose : MayClose lib request user.id)
    (h : ∀ session ∈ sessions, session.Of owners user.id) :
    (matchSessions refreshToken user sessions).state.Entitled lib users owners request := by
  cases sessions with
  | nil => exact trivial
  | cons session rest => exact entitled_await ⟨hopen, hclose, h⟩

theorem entitled_start : (request.start lib now).state.Entitled lib users owners request := by
  cases request with
  | register | login | logout => exact entitled_await rfl
  | refresh refreshToken =>
    rw [AuthRequest.start]
    split
    · exact trivial
    · rename_i payload hverify
      split
      · exact trivial
      · rename_i htype
        exact entitled_await ⟨rfl, _, payload, hverify, not_not.mp htype, rfl⟩

/-- **Continuing.** What a call has to go by at the next `await`. -/
theorem entitled_proceed (h : stage.Entitled lib users owners request)
    (hanswer : stage.Informed lib users owners answer) :
    (stage.proceed lib now answer).state.Entitled lib users owners request := by
  cases stage with
  | registerFind username email password =>
    obtain rfl : request = _ := h
    rw [AuthStage.proceed]
    cases huser : answer.user? with
    | none => exact entitled_await rfl
    | some user =>
      obtain ⟨hstored, haddress⟩ := hanswer user huser
      exact entitled_await ⟨.register hstored haddress, by rintro _ ⟨⟩⟩
  | registerHash username email password => exact entitled_await ⟨password, h⟩
  | registerInsert username email passwordHash =>
    obtain ⟨password, rfl⟩ := h
    rw [AuthStage.proceed]
    cases huser : answer.user? with
    | none => exact trivial
    | some user =>
      obtain ⟨hstored, haddress⟩ := hanswer user huser
      exact entitled_await ⟨.register hstored haddress, by rintro _ ⟨⟩⟩
  | loginFind email password deviceInfo =>
    rw [AuthStage.proceed]
    cases huser : answer.user? with
    | none => exact trivial
    | some user =>
      obtain ⟨hstored, haddress⟩ := hanswer user huser
      exact entitled_await ⟨email, deviceInfo, h, hstored, haddress⟩
  | loginCompare password deviceInfo user =>
    obtain ⟨email, deviceInfo', rfl, hstored, haddress⟩ := h
    rw [AuthStage.proceed]
    split
    · rename_i hmatches
      exact entitled_await ⟨.login hstored haddress (hanswer hmatches), by rintro _ ⟨⟩⟩
    · exact trivial
  | refreshFind refreshToken sub =>
    obtain ⟨rfl, hnames⟩ := h
    rw [AuthStage.proceed]
    cases huser : answer.user? with
    | none => exact trivial
    | some user =>
      have hparsed := hanswer user huser
      exact entitled_await ⟨.refresh hnames hparsed, .refresh hnames hparsed⟩
  | refreshSessions refreshToken user => exact entitled_matchSessions h.1 h.2 hanswer
  | refreshCompare refreshToken user session rest =>
    obtain ⟨hopen, hclose, hsessions⟩ := h
    rw [AuthStage.proceed]
    split
    · refine entitled_await ⟨hopen, ?_⟩
      rintro _ ⟨⟩
      exact ⟨hclose, hsessions session List.mem_cons_self⟩
    · exact entitled_matchSessions hopen hclose fun session' hrest ↦
        hsessions session' (List.mem_cons_of_mem _ hrest)
  | sessionHash user deviceInfo tokens matched => exact entitled_await h
  | sessionInsert user deviceInfo tokens matched hashedRefresh =>
    cases matched with
    | none => exact trivial
    | some matched => exact entitled_await (h.2 matched rfl)
  | refreshRevoke user tokens matched => exact trivial
  | logout sessionId userId => exact trivial

theorem AuthDb.of_of_mem_activeSessions {db : AuthDb} {owner : Uuid} {session : Session}
    (h : session ∈ db.activeSessions owner) : session.Of db.owners owner := by
  obtain ⟨hmem, howner, -⟩ := AuthDb.mem_activeSessions.mp h
  exact ⟨howner, List.mem_map_of_mem hmem⟩

/-- An answer tells the call what it is taken to tell. -/
theorem informed_of_perform {db db' : AuthDb} {fresh : Uuid} {salt nodeId : JsString}
    (h : (stage.promise nodeId).perform lib db fresh salt = some (db', answer)) :
    stage.Informed lib db'.users db'.owners answer := by
  have hfound : ∀ {db₀ : AuthDb} {email : JsString} {user : User},
      user ∈ (db₀.users.filter fun user ↦ user.email = email).head? →
      user ∈ db₀.users ∧ user.email = email := by
    intro db₀ email user huser
    obtain ⟨hmem, haddress⟩ := List.mem_filter.mp (List.mem_of_mem_head? huser)
    exact ⟨hmem, of_decide_eq_true haddress⟩
  cases stage with
  | registerFind username email password =>
    obtain ⟨-, rfl, rfl⟩ := AuthPromise.perform_findByEmail h
    exact fun user huser ↦ hfound huser
  | registerInsert username email passwordHash =>
    simp only [AuthStage.promise, AuthPromise.perform, AuthDb.exec, Option.map_eq_some_iff,
      Option.bind_eq_bind, Option.bind_eq_some_iff, Option.pure_def, Option.some.injEq] at h
    obtain ⟨res, ⟨-, -, -, -, rfl⟩, hres⟩ := h
    obtain ⟨rfl, rfl⟩ := Prod.mk.inj hres
    intro user huser
    obtain rfl := Option.some.inj huser
    exact ⟨List.mem_append_right _ List.mem_cons_self, rfl⟩
  | loginFind email password deviceInfo =>
    obtain ⟨-, rfl, rfl⟩ := AuthPromise.perform_findByEmail h
    exact fun user huser ↦ hfound huser
  | loginCompare password deviceInfo user =>
    obtain ⟨-, rfl⟩ := Prod.mk.inj (Option.some.inj h)
    exact id
  | refreshFind refreshToken sub =>
    obtain ⟨id, hid, rfl, rfl⟩ : ∃ id, Uuid.parse sub = some id ∧ db = db' ∧
        AuthAnswer.rows (.users (db.users.filter fun user ↦ user.id = id)) = answer := by
      simpa [AuthStage.promise, AuthPromise.perform, AuthDb.exec, Option.bind_eq_some_iff] using h
    intro user huser
    have hmem := List.of_mem_filter (List.mem_of_mem_head? huser)
    rw [hid, of_decide_eq_true hmem]
  | refreshSessions refreshToken user =>
    obtain ⟨rfl, hsessions⟩ := perform_refreshSessions h
    intro session hsession
    rw [hsessions] at hsession
    exact AuthDb.of_of_mem_activeSessions hsession
  | _ => exact trivial

/-- A row is revoked on behalf of its account. -/
theorem mayClose_of_revokes {db : AuthDb} (hids : (db.sessions.map Session.id).Nodup)
    (h : stage.Entitled lib users db.owners request) {nodeId : JsString} {session : Session}
    (hrow : session ∈ db.sessions) (hrevokes : (stage.promise nodeId).revokes session = true) :
    ∃ owner, session.userId = some owner ∧ MayClose lib request owner := by
  cases stage with
  | refreshRevoke user tokens matched =>
    obtain ⟨hclose, howner, hmem⟩ := h
    have hid : session.id = matched.id := by
      simpa [AuthStage.promise, AuthPromise.revokes, AuthQuery.revokes] using hrevokes
    obtain ⟨session', hrow', heq⟩ := List.mem_map.mp hmem
    obtain ⟨hid', huserId⟩ := Prod.mk.inj heq
    obtain rfl : session = session' :=
      List.inj_on_of_nodup_map hids hrow hrow' (hid.trans hid'.symm)
    exact ⟨user.id, huserId.trans howner, hclose⟩
  | logout sessionId userId =>
    obtain rfl : request = _ := h
    have howner : (session.userId.any fun owner ↦ some owner = Uuid.parse userId) = true := by
      cases sessionId with
      | none =>
        simp only [AuthStage.promise, AuthPromise.revokes, AuthQuery.revokes,
          decide_eq_true_eq] at hrevokes
        exact hrevokes.1
      | some id =>
        simp only [AuthStage.promise] at hrevokes
        split at hrevokes
        · simp only [AuthPromise.revokes, AuthQuery.revokes, decide_eq_true_eq] at hrevokes
          exact hrevokes.1
        · simp only [AuthPromise.revokes, AuthQuery.revokes, decide_eq_true_eq] at hrevokes
          exact hrevokes.2
    obtain ⟨owner, hget, hparsed⟩ := (Option.any_eq_true _ _).mp howner
    exact ⟨owner, hget, .logout (of_decide_eq_true hparsed).symm⟩
  | _ => cases hrevokes

end

/-! ## The system -/

/-- All columns but `revoked_at`. -/
def Session.fixed (session : Session) : Session := { session with revokedAt := none }

def AuthSystem.requests (a : AuthSystem) : List AuthRequest := a.calls.map AuthCall.request

/-- A row is one there was at the start, or was added on behalf of its account. -/
def AuthSystem.Opened (lib : AuthLibraries) (a : AuthSystem) (session : Session) : Prop :=
  ∃ owner, session.userId = some owner ∧
    ∃ request ∈ a.requests, MayOpen lib a.db.users request owner

/-- A row was revoked on behalf of its account. -/
def AuthSystem.Closed (lib : AuthLibraries) (a : AuthSystem) (session : Session) : Prop :=
  ∃ owner, session.userId = some owner ∧ ∃ request ∈ a.requests, MayClose lib request owner

/-- The rows, compared with those of the start: a row that there was is where it was, with the same
columns, and is not active again if it was revoked; a row that is new was added on behalf of its
account; and a row that has been revoked meanwhile was revoked on behalf of its account. -/
structure Session.Traced (lib : AuthLibraries) (a : AuthSystem) (old : Option Session)
    (session : Session) : Prop where
  kept : ∀ session₀ ∈ old, session.fixed = session₀.fixed ∧
    (session.revokedAt = none → session₀.revokedAt = none)
  opened : old = none → a.Opened lib session
  closed : session.revokedAt = none ∨ (∃ session₀ ∈ old, session₀.revokedAt ≠ none) ∨
    a.Closed lib session

/-- The invariant. -/
structure AuthSystem.Traces (lib : AuthLibraries) (before : List Session) (a : AuthSystem) :
    Prop where
  ids : (a.db.sessions.map Session.id).Nodup
  length : before.length ≤ a.db.sessions.length
  rows : ∀ (i : ℕ) (session : Session), a.db.sessions[i]? = some session →
    session.Traced lib a before[i]?
  calls : ∀ call ∈ a.calls, call.state.Entitled lib a.db.users a.db.owners call.request

section

variable {lib : AuthLibraries} {before : List Session} {a a' : AuthSystem} {session : Session}

theorem AuthSystem.Opened.mono (husers : a.db.users ⊆ a'.db.users)
    (hrequests : a.requests ⊆ a'.requests) (h : a.Opened lib session) : a'.Opened lib session := by
  obtain ⟨owner, howner, request, hrequest, hopen⟩ := h
  exact ⟨owner, howner, request, hrequests hrequest, hopen.mono husers⟩

theorem AuthSystem.Closed.mono (hrequests : a.requests ⊆ a'.requests) (h : a.Closed lib session) :
    a'.Closed lib session := by
  obtain ⟨owner, howner, request, hrequest, hclose⟩ := h
  exact ⟨owner, howner, request, hrequests hrequest, hclose⟩

theorem Session.Traced.mono (husers : a.db.users ⊆ a'.db.users)
    (hrequests : a.requests ⊆ a'.requests) {old : Option Session}
    (h : session.Traced lib a old) : session.Traced lib a' old :=
  ⟨h.kept, fun hold ↦ (h.opened hold).mono husers hrequests,
    h.closed.imp_right (Or.imp_right fun hclosed ↦ hclosed.mono hrequests)⟩

/-- A row is revoked. -/
theorem Session.Traced.revoke {old : Option Session} (h : session.Traced lib a old) (now : ℕ)
    (hclosed : a.Closed lib session) :
    Session.Traced lib a old { session with revokedAt := some now } :=
  ⟨fun session₀ hold ↦ ⟨(h.kept session₀ hold).1, nofun⟩, h.opened, Or.inr (Or.inr hclosed)⟩

theorem AuthSystem.requests_eq_of_set {c : ℕ} {call : AuthCall} {state : AuthCallState}
    (hget : a.calls[c]? = some call)
    (hcalls : a'.calls = a.calls.set c { call with state := state }) :
    a'.requests = a.requests := by
  rw [requests, hcalls]
  exact Lists.map_set_eq hget rfl

/-- A call goes from one state to the next. -/
theorem AuthSystem.Traces.entitled_set (h : a.Traces lib before) {c : ℕ} {call : AuthCall}
    {state : AuthCallState} (hcalls : a'.calls = a.calls.set c { call with state := state })
    (husers : a.db.users ⊆ a'.db.users) (howners : a.db.owners ⊆ a'.db.owners)
    (hstate : state.Entitled lib a'.db.users a'.db.owners call.request) :
    ∀ call ∈ a'.calls, call.state.Entitled lib a'.db.users a'.db.owners call.request := by
  intro call' hmem
  rw [hcalls] at hmem
  rcases List.mem_or_eq_of_mem_set hmem with hmem | rfl
  · exact (h.calls call' hmem).mono husers howners
  · exact hstate

/-- The tables stay as they are. -/
theorem AuthSystem.Traces.idle (h : a.Traces lib before) (husers : a'.db.users = a.db.users)
    (hsessions : a'.db.sessions = a.db.sessions) (hrequests : a.requests ⊆ a'.requests)
    (hcalls : ∀ call ∈ a'.calls, call.state.Entitled lib a'.db.users a'.db.owners call.request) :
    a'.Traces lib before := by
  refine ⟨by rw [hsessions]; exact h.ids, by rw [hsessions]; exact h.length, ?_, hcalls⟩
  rw [hsessions]
  exact fun i session hget ↦ (h.rows i session hget).mono (by rw [husers]; exact fun _ ↦ id)
    hrequests

/-- **Step lemma.** -/
theorem AuthSystem.Traces.step {l l' : Ledger} {e : AuthEvent} (h : l.sys.Traces lib before)
    (heffect : Ledger.Effect lib l l' e) : l'.sys.Traces lib before := by
  cases heffect with
  | tick ms db calls log =>
    have howners : l'.sys.db.owners = l.sys.db.owners := by rw [db]; rfl
    refine h.idle (by rw [db]) (by rw [db]) ?_ fun call hmem ↦ ?_
    · rw [requests, requests, calls]
      exact fun _ ↦ id
    · rw [howners, db]
      exact h.calls call (calls ▸ hmem)
  | call nodeId request db calls log =>
    refine h.idle (by rw [db]) (by rw [db]) ?_ fun call hmem ↦ ?_
    · rw [requests, requests, calls, List.map_append]
      exact fun _ ↦ List.mem_append_left _
    · rw [db]
      rw [calls] at hmem
      rcases List.mem_append.mp hmem with hmem | hmem
      · exact h.calls call hmem
      · rw [List.mem_singleton.mp hmem]
        exact entitled_start
  | @failed c call stage fate fresh salt hcall hstate hfate db calls log =>
    have hentitled := h.calls call (List.mem_of_getElem? hcall)
    rw [hstate] at hentitled
    refine h.idle (by rw [db]) (by rw [db])
      (by rw [requests_eq_of_set hcall calls]; exact fun _ ↦ id) (h.entitled_set calls
        (by rw [db]; exact fun _ ↦ id) (by rw [db]; exact fun _ ↦ id) ?_)
    rw [db]
    exact ⟨hentitled.1, by rintro _ ⟨⟩⟩
  | @resumed c call stage settled hcall hstate db calls log =>
    have hentitled := h.calls call (List.mem_of_getElem? hcall)
    rw [hstate] at hentitled
    refine h.idle (by rw [db]) (by rw [db])
      (by rw [requests_eq_of_set hcall calls]; exact fun _ ↦ id) (h.entitled_set calls
        (by rw [db]; exact fun _ ↦ id) (by rw [db]; exact fun _ ↦ id) ?_)
    rw [db]
    cases settled with
    | none => exact trivial
    | some answer => exact entitled_proceed hentitled.1 (hentitled.2 answer rfl)
  | @performed c call stage fate fresh salt answer settled hcall hstate hfate perform calls log =>
    have hmem := List.mem_of_getElem? hcall
    obtain ⟨hstage, -⟩ : (AuthCallState.awaiting stage none).Entitled lib l.sys.db.users
        l.sys.db.owners call.request := hstate ▸ h.calls call hmem
    have husers := users_subset_of_perform perform
    have hrequests : l'.sys.requests = l.sys.requests := requests_eq_of_set hcall calls
    have hrequest : call.request ∈ l.sys.requests := List.mem_map_of_mem hmem
    -- What the call has been told about accounts is so in the tables.
    have hcalls : l.sys.db.owners ⊆ l'.sys.db.owners → ∀ call ∈ l'.sys.calls,
        call.state.Entitled lib l'.sys.db.users l'.sys.db.owners call.request := by
      intro howners
      refine h.entitled_set calls husers howners
        ⟨hstage.mono husers howners, fun answer' hanswer ↦ ?_⟩
      rcases hfate with ⟨-, rfl⟩ | ⟨-, rfl⟩
      · obtain rfl := Option.some.inj (Option.some.inj hanswer)
        exact informed_of_perform perform
      · cases Option.some.inj hanswer
    have hrows : ∀ (i : ℕ) (session : Session), l.sys.db.sessions[i]? = some session →
        session.Traced lib l'.sys before[i]? := fun i session hget ↦
      (h.rows i session hget).mono husers (by rw [hrequests]; exact fun _ ↦ id)
    rcases AuthStage.perform_sessions perform with
      ⟨user, deviceInfo, tokens, matched, hashed, rfl, hfresh, hsessions⟩ | ⟨-, hsessions⟩
    · -- An INSERT: a row is added behind the others.
      refine ⟨?_, ?_, fun i session hget ↦ ?_, hcalls ?_⟩
      · rw [hsessions, List.map_append, List.nodup_append']
        refine ⟨h.ids, List.nodup_singleton _, fun id hid hnew ↦ ?_⟩
        obtain ⟨session, hsession, rfl⟩ := List.mem_map.mp hid
        exact hfresh session hsession (List.mem_singleton.mp hnew)
      · rw [hsessions, List.length_append]
        exact h.length.trans (Nat.le_add_right _ _)
      · rw [hsessions] at hget
        rcases Lists.getElem?_concat_eq_some.mp hget with hget | ⟨rfl, rfl⟩
        · exact hrows i session hget
        · have hnone : before[l.sys.db.sessions.length]? = none :=
            List.getElem?_eq_none_iff.mpr h.length
          rw [hnone]
          exact ⟨nofun, fun _ ↦ ⟨user.id, rfl, call.request, hrequests ▸ hrequest,
            hstage.1.mono husers⟩, Or.inl rfl⟩
      · rw [AuthDb.owners, AuthDb.owners, hsessions, List.map_append]
        exact fun _ ↦ List.mem_append_left _
    · -- An UPDATE, or a statement that changes nothing: rows keep all columns but `revoked_at`.
      have hsame : ∀ {β : Type} (f : Session → β),
          (∀ session now, f { session with revokedAt := now } = f session) →
          l'.sys.db.sessions.map f = l.sys.db.sessions.map f := by
        intro β f hf
        rw [hsessions, List.map_map]
        refine List.map_congr_left fun session _ ↦ ?_
        rw [Function.comp_apply]
        split
        · exact hf session _
        · rfl
      refine ⟨?_, ?_, fun i session hget ↦ ?_, hcalls ?_⟩
      · rw [hsame Session.id fun _ _ ↦ rfl]
        exact h.ids
      · rw [hsessions, List.length_map]
        exact h.length
      · rw [hsessions, List.getElem?_map] at hget
        obtain ⟨session, hold, rfl⟩ := Option.map_eq_some_iff.mp hget
        split
        · rename_i hrevokes
          obtain ⟨owner, howner, hclose⟩ :=
            mayClose_of_revokes h.ids hstage (List.mem_of_getElem? hold) hrevokes
          exact (hrows i session hold).revoke _
            ⟨owner, howner, call.request, hrequests ▸ hrequest, hclose⟩
        · exact hrows i session hold
      · rw [AuthDb.owners, AuthDb.owners, hsame (fun session ↦ (session.id, session.userId))
          fun _ _ ↦ rfl]
        exact fun _ ↦ id

end

end PostgresChat
