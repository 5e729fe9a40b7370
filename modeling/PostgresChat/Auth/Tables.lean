import PostgresChat.Database.Tables

/-!
# Users and sessions

The tables `users` and `sessions`, as far as `AuthService` and `UsersService` read and write them,
and their statements. Each statement is a transaction of its own. Row ids come from `uuidv7()`; the
id a statement draws is a parameter, and an id that is in use violates the primary key.

Parameters are text. One that stands for a `uuid` and is no text of one makes the statement fail,
and so does a NUL, which no `TEXT` holds.
-/

namespace PostgresChat

/-- A row of `users`. -/
structure User where
  id : Uuid
  username : JsString
  email : JsString
  /-- The bcrypt hash of the password. -/
  password : JsString
  createdAt : ℕ
  deriving DecidableEq

/-- A row of `sessions`. -/
structure Session where
  id : Uuid
  userId : Option Uuid
  /-- The bcrypt hash of the refresh token. -/
  refreshToken : JsString
  deviceInfo : Option JsString
  createdAt : ℕ
  expiresAt : ℕ
  revokedAt : Option ℕ
  deriving DecidableEq

/-- The committed tables, and the clock in milliseconds. -/
structure AuthDb where
  users : List User := []
  sessions : List Session := []
  /-- `NOW()`. -/
  now : ℕ := 0

/-- A parameterized statement. -/
inductive AuthQuery where
  | findByEmail (email : JsString)
  | findById (id : JsString)
  | insertUser (username email passwordHash : JsString)
  | selectSessions (userId : JsString)
  | insertSession (userId hashedRefresh deviceInfo : JsString)
  | revokeSession (id : JsString)
  | revokeSessionOf (id userId : JsString)
  | revokeSessionsOf (userId : JsString)
  deriving DecidableEq

/-- `result.rows`. -/
inductive AuthRows where
  | users (rows : List User)
  | sessions (rows : List Session)
  | none
  deriving DecidableEq

/-- `refreshTokenTtlDays`. -/
def refreshTokenTtlDays : ℕ := 30

/-- `NOW() + INTERVAL '30 days'`. -/
def AuthDb.sessionExpiry (db : AuthDb) : ℕ := db.now + refreshTokenTtlDays * 24 * 60 * 60 * 1000

/-- `UPDATE sessions SET revoked_at = NOW() WHERE ...`. -/
def AuthDb.revoke (db : AuthDb) (condition : Session → Bool) : AuthDb :=
  { db with sessions := db.sessions.map fun session ↦
      if condition session then { session with revokedAt := some db.now } else session }

/-- A statement run to its end; `none` when it fails and leaves no effect. Rows are returned in the
order of the table. -/
def AuthDb.exec (db : AuthDb) (fresh : Uuid) : AuthQuery → Option (AuthDb × AuthRows)
  | .findByEmail email => do
    guard (0 ∉ email)
    return (db, .users (db.users.filter fun user ↦ user.email = email))
  | .findById id => do
    let id ← Uuid.parse id
    return (db, .users (db.users.filter fun user ↦ user.id = id))
  | .insertUser username email passwordHash => do
    guard (0 ∉ username ∧ 0 ∉ email ∧ 0 ∉ passwordHash)
    guard (∀ user ∈ db.users, user.id ≠ fresh ∧ user.username ≠ username ∧ user.email ≠ email)
    let user : User := ⟨fresh, username, email, passwordHash, db.now⟩
    return ({ db with users := db.users ++ [user] }, .users [user])
  | .selectSessions userId => do
    let userId ← Uuid.parse userId
    return (db, .sessions (db.sessions.filter fun session ↦
      session.userId = some userId ∧ session.revokedAt = none ∧ db.now < session.expiresAt))
  | .insertSession userId hashedRefresh deviceInfo => do
    let userId ← Uuid.parse userId
    guard (0 ∉ hashedRefresh ∧ 0 ∉ deviceInfo)
    guard (∃ user ∈ db.users, user.id = userId)
    guard (∀ session ∈ db.sessions, session.id ≠ fresh ∧ session.refreshToken ≠ hashedRefresh)
    let session : Session :=
      ⟨fresh, some userId, hashedRefresh, some deviceInfo, db.now, db.sessionExpiry, none⟩
    return ({ db with sessions := db.sessions ++ [session] }, .none)
  | .revokeSession id => do
    let id ← Uuid.parse id
    return (db.revoke fun session ↦ session.id = id, .none)
  | .revokeSessionOf id userId => do
    let id ← Uuid.parse id
    let userId ← Uuid.parse userId
    return (db.revoke fun session ↦ session.id = id ∧ session.userId = some userId, .none)
  | .revokeSessionsOf userId => do
    let userId ← Uuid.parse userId
    return (db.revoke fun session ↦ session.userId = some userId ∧ session.revokedAt = none, .none)

namespace AuthDb

variable {db db' : AuthDb} {fresh : Uuid} {q : AuthQuery} {rows : AuthRows}

/-- Users are only added. -/
theorem users_prefix (h : db.exec fresh q = some (db', rows)) : db.users <+: db'.users := by
  cases q <;> simp only [exec, Option.bind_eq_bind, Option.bind_eq_some_iff, Option.guard_eq_some',
    Option.pure_def, Option.some.injEq, Prod.mk.injEq] at h
  case findByEmail => obtain ⟨_, _, rfl, -⟩ := h; exact List.prefix_rfl
  case findById => obtain ⟨_, _, rfl, -⟩ := h; exact List.prefix_rfl
  case insertUser => obtain ⟨_, _, _, _, rfl, -⟩ := h; exact List.prefix_append _ _
  case selectSessions => obtain ⟨_, _, rfl, -⟩ := h; exact List.prefix_rfl
  case insertSession => obtain ⟨_, _, _, _, _, _, _, _, rfl, -⟩ := h; exact List.prefix_rfl
  case revokeSession => obtain ⟨_, _, rfl, -⟩ := h; exact List.prefix_rfl
  case revokeSessionOf => obtain ⟨_, _, _, _, rfl, -⟩ := h; exact List.prefix_rfl
  case revokeSessionsOf => obtain ⟨_, _, rfl, -⟩ := h; exact List.prefix_rfl

end AuthDb

end PostgresChat
