import PostgresChat.Auth.Tables
import PostgresChat.Lib.Execution

/-!
# Registering, logging in and refreshing

`AuthService`, cut at its `await`s: a stage is an `await` together with the variables that live
across it, `AuthStage.promise` is what is awaited there, and `AuthStage.resume` is the code from
there to the next `await` or to the end. Calls on any number of nodes run side by side; they share
the tables and nothing else.

The packages behind the service are parameters (`AuthLibraries`): jsonwebtoken signs and verifies
texts, bcrypt hashes and compares them.

## The log

The log holds what a statement about runs needs and the tables do not tell: which call inserted a
row of `users`, and which tokens have been handed out. No step reads it.
-/

namespace PostgresChat

/-! ## Tokens -/

structure AuthTokens where
  accessToken : JsString
  refreshToken : JsString
  deriving DecidableEq

/-- The claims of a token, in the order they are given to `sign`. -/
structure JwtPayload where
  sub : JsString
  username : JsString
  type : Option JsString
  deriving DecidableEq

/-- jsonwebtoken and bcrypt, with the two secrets of the environment. -/
structure AuthLibraries where
  accessSecret : JsString
  refreshSecret : JsString
  /-- `jwtService.sign(payload, { secret, expiresIn })` at the second `iat`. -/
  sign (secret : JsString) (payload : JwtPayload) (iat expiresIn : ℕ) : JsString
  /-- `jwtService.verify(token, { secret })` at a given second; `none` when it throws. -/
  verify (secret token : JsString) (now : ℕ) : Option JwtPayload
  /-- `bcrypt.hash`, with the salt it draws. -/
  hash (salt plain : JsString) : JsString
  compare (plain hash : JsString) : Bool

/-- `accessTokenTtlSeconds`. -/
def accessTokenTtlSeconds : ℕ := 7 * 24 * 60 * 60

/-- The `type` of a refresh token. -/
def refreshType : JsString := JsString.lit "refresh"

def accessPayload (user : User) : JwtPayload := ⟨user.id.text, user.username, none⟩

def refreshPayload (user : User) : JwtPayload := ⟨user.id.text, user.username, some refreshType⟩

namespace AuthLibraries

variable (lib : AuthLibraries)

def signAccessToken (user : User) (iat : ℕ) : JsString :=
  lib.sign lib.accessSecret (accessPayload user) iat accessTokenTtlSeconds

def signRefreshToken (user : User) (iat : ℕ) : JsString :=
  lib.sign lib.refreshSecret (refreshPayload user) iat (refreshTokenTtlDays * 24 * 60 * 60)

/-- The tokens of `createSessionAndTokens`. -/
def tokens (user : User) (iat : ℕ) : AuthTokens :=
  ⟨lib.signAccessToken user iat, lib.signRefreshToken user iat⟩

end AuthLibraries

/-! ## Calls -/

/-- A call of `register`, `login`, `refresh` or `logout`. -/
inductive AuthRequest where
  | register (username email password : JsString)
  | login (email password : JsString) (deviceInfo : Option JsString)
  | refresh (refreshToken : JsString)
  | logout (sessionId : Option JsString) (userId : JsString)
  deriving DecidableEq

/-- An `await`. From `sessionHash` on the call is in `createSessionAndTokens`; `matched` is the
session that `refresh` revokes afterwards. -/
inductive AuthStage where
  | registerFind (username email password : JsString)
  | registerHash (username email password : JsString)
  | registerInsert (username email passwordHash : JsString)
  | loginFind (email password : JsString) (deviceInfo : Option JsString)
  | loginCompare (password : JsString) (deviceInfo : Option JsString) (user : User)
  | refreshFind (refreshToken sub : JsString)
  | refreshSessions (refreshToken : JsString) (user : User)
  | refreshCompare (refreshToken : JsString) (user : User) (session : Session) (rest : List Session)
  | sessionHash (user : User) (deviceInfo : Option JsString) (tokens : AuthTokens)
      (matched : Option Session)
  | sessionInsert (user : User) (deviceInfo : Option JsString) (tokens : AuthTokens)
      (matched : Option Session) (hashedRefresh : JsString)
  | refreshRevoke (user : User) (tokens : AuthTokens) (matched : Session)
  | logout (sessionId : Option JsString) (userId : JsString)
  deriving DecidableEq

/-- What is awaited. -/
inductive AuthPromise where
  | query (q : AuthQuery)
  | hash (plain : JsString)
  | compare (plain hash : JsString)
  deriving DecidableEq

/-- What it is fulfilled with. -/
inductive AuthAnswer where
  | rows (rows : AuthRows)
  | text (text : JsString)
  | verdict (ok : Bool)
  deriving DecidableEq

/-- How the code between two `await`s ends. `logout` returns nothing. -/
inductive AuthNext where
  | await (stage : AuthStage)
  | returned (result : Option (User × AuthTokens))
  | threw
  deriving DecidableEq

/-- `result.rows[0] ?? null`. -/
def AuthAnswer.user? : AuthAnswer → Option User
  | .rows (.users users) => users.head?
  | _ => none

/-- `result.rows` of a query on `sessions`. -/
def AuthAnswer.sessions : AuthAnswer → List Session
  | .rows (.sessions found) => found
  | _ => []

/-- What `bcrypt.hash` resolves to. -/
def AuthAnswer.hashed : AuthAnswer → JsString
  | .text hash => hash
  | _ => []

/-- What `bcrypt.compare` resolves to. -/
def AuthAnswer.matches : AuthAnswer → Bool
  | .verdict ok => ok
  | _ => false

/-- The query of `findUserByEmailOrUsername`. `findByEmail` returns a promise, which `??` never
takes for a missing value, so `findByUsername` is not called. -/
def findUserByEmailOrUsername (email _username : JsString) : AuthQuery := .findByEmail email

/-- What is awaited at a stage; `nodeId` is that of the node that runs the call. -/
def AuthStage.promise (nodeId : JsString) : AuthStage → AuthPromise
  | .registerFind username email _ => .query (findUserByEmailOrUsername email username)
  | .registerHash _ _ password => .hash password
  | .registerInsert username email passwordHash => .query (.insertUser username email passwordHash)
  | .loginFind email _ _ => .query (.findByEmail email)
  | .loginCompare password _ user => .compare password user.password
  | .refreshFind _ sub => .query (.findById sub)
  | .refreshSessions _ user => .query (.selectSessions user.id.text)
  | .refreshCompare refreshToken _ session _ => .compare refreshToken session.refreshToken
  | .sessionHash _ _ tokens _ => .hash tokens.refreshToken
  | .sessionInsert user deviceInfo _ _ hashedRefresh =>
    .query (.insertSession user.id.text hashedRefresh (deviceInfo.getD nodeId))
  | .refreshRevoke _ _ matched => .query (.revokeSession matched.id.text)
  | .logout (some sessionId) userId =>
    .query (if sessionId = [] then .revokeSessionsOf userId else .revokeSessionOf sessionId userId)
  | .logout none userId => .query (.revokeSessionsOf userId)

/-! ## The code between the `await`s -/

section

variable (lib : AuthLibraries)

/-- `createSessionAndTokens` up to its first `await`; `now` is in milliseconds. -/
def createSessionAndTokens (now : ℕ) (user : User) (deviceInfo : Option JsString)
    (matched : Option Session) : AuthNext :=
  .await (.sessionHash user deviceInfo (lib.tokens user (now / 1000)) matched)

/-- The loop over the sessions of the user, from one of them on. -/
def matchSessions (refreshToken : JsString) (user : User) : List Session → AuthNext
  | [] => .threw
  | session :: rest => .await (.refreshCompare refreshToken user session rest)

/-- A call up to its first `await`. -/
def AuthRequest.start (now : ℕ) : AuthRequest → AuthNext
  | .register username email password => .await (.registerFind username email password)
  | .login email password deviceInfo => .await (.loginFind email password deviceInfo)
  | .refresh refreshToken =>
    match lib.verify lib.refreshSecret refreshToken (now / 1000) with
    | none => .threw
    | some payload =>
      if payload.type ≠ some refreshType then .threw
      else .await (.refreshFind refreshToken payload.sub)
  | .logout sessionId userId => .await (.logout sessionId userId)

/-- A call continues after a promise that was fulfilled. -/
def AuthStage.proceed (now : ℕ) (stage : AuthStage) (answer : AuthAnswer) : AuthNext :=
  match stage with
  | .registerFind username email password =>
    match answer.user? with
    | some found => createSessionAndTokens lib now found none none
    | none => .await (.registerHash username email password)
  | .registerHash username email _ => .await (.registerInsert username email answer.hashed)
  | .registerInsert _ _ _ =>
    match answer.user? with
    | some user => createSessionAndTokens lib now user none none
    | none => .threw
  | .loginFind _ password deviceInfo =>
    match answer.user? with
    | some user => .await (.loginCompare password deviceInfo user)
    | none => .threw
  | .loginCompare _ deviceInfo user =>
    if answer.matches then createSessionAndTokens lib now user deviceInfo none else .threw
  | .refreshFind refreshToken _ =>
    match answer.user? with
    | some user => .await (.refreshSessions refreshToken user)
    | none => .threw
  | .refreshSessions refreshToken user => matchSessions refreshToken user answer.sessions
  | .refreshCompare refreshToken user session rest =>
    if answer.matches then createSessionAndTokens lib now user none (some session)
    else matchSessions refreshToken user rest
  | .sessionHash user deviceInfo tokens matched =>
    .await (.sessionInsert user deviceInfo tokens matched answer.hashed)
  | .sessionInsert user _ tokens (some matched) _ => .await (.refreshRevoke user tokens matched)
  | .sessionInsert user _ tokens none _ => .returned (some (user, tokens))
  | .refreshRevoke user tokens _ => .returned (some (user, tokens))
  | .logout _ _ => .returned none

/-- A call continues; it throws when its promise was rejected. -/
def AuthStage.resume (now : ℕ) (stage : AuthStage) : Option AuthAnswer → AuthNext
  | some answer => stage.proceed lib now answer
  | none => .threw

/-- What comes of a promise: a statement runs on the tables, bcrypt computes. -/
def AuthPromise.perform (db : AuthDb) (fresh : Uuid) (salt : JsString) :
    AuthPromise → Option (AuthDb × AuthAnswer)
  | .query q => (db.exec fresh q).map fun res ↦ (res.1, .rows res.2)
  | .hash plain => some (db, .text (lib.hash salt plain))
  | .compare plain hashed => some (db, .verdict (lib.compare plain hashed))

end

/-- A lookup by e-mail that is answered has an address PostgreSQL takes, and changes nothing. -/
theorem AuthPromise.perform_findByEmail {lib : AuthLibraries} {db db' : AuthDb} {fresh : Uuid}
    {salt email : JsString} {answer : AuthAnswer}
    (h : (AuthPromise.query (.findByEmail email)).perform lib db fresh salt = some (db', answer)) :
    0 ∉ email ∧ db = db' ∧
      AuthAnswer.rows (.users (db.users.filter fun user ↦ user.email = email)) = answer := by
  simpa [AuthPromise.perform, AuthDb.exec, Option.bind_eq_some_iff] using h

/-- The row of `users` that the promise has inserted. -/
def AuthPromise.inserted (promise : AuthPromise) (answer : AuthAnswer) : Option User :=
  match promise with
  | .query (.insertUser ..) => answer.user?
  | _ => none

/-! ## The system -/

/-- How far a call has come. What its promise settled to is `none` when it was rejected. -/
inductive AuthCallState where
  | awaiting (stage : AuthStage) (settled : Option (Option AuthAnswer))
  | returned (result : Option (User × AuthTokens))
  | threw
  deriving DecidableEq

/-- A call, known by its position in `AuthSystem.calls`. -/
structure AuthCall where
  nodeId : JsString
  request : AuthRequest
  state : AuthCallState
  deriving DecidableEq

/-- An entry of the log. -/
inductive AuthObservation where
  /-- Call `c` has inserted the row of `users`. -/
  | userInserted (c : ℕ) (user : User)
  /-- The tokens have been returned; by call `c`, or by a call before the start. -/
  | returned (c : Option ℕ) (user : User) (tokens : AuthTokens)
  deriving DecidableEq

/-- The tables, the calls made so far, and the log. -/
structure AuthSystem where
  db : AuthDb
  calls : List AuthCall := []
  log : List AuthObservation := []

/-- What can happen next. -/
inductive AuthEvent where
  | tick (milliseconds : ℕ)
  /-- A call starts. -/
  | call (nodeId : JsString) (request : AuthRequest)
  /-- The promise of call `c` settles. -/
  | settle (c : ℕ) (fate : Fate) (fresh : Uuid) (salt : JsString)
  /-- Call `c` continues. -/
  | resume (c : ℕ)
  deriving DecidableEq

def AuthNext.state : AuthNext → AuthCallState
  | .await stage => .awaiting stage none
  | .returned result => .returned result
  | .threw => .threw

/-- The tokens a call hands out when it returns. -/
def AuthNext.handsOut (c : ℕ) : AuthNext → List AuthObservation
  | .returned (some (user, tokens)) => [.returned (some c) user tokens]
  | _ => []

namespace AuthSystem

/-- Any tables; the tokens that `before` lists, by user and `iat`, have been handed out already. -/
def start (lib : AuthLibraries) (db : AuthDb) (before : List (User × ℕ)) : AuthSystem where
  db := db
  log := before.map fun issue ↦ .returned none issue.1 (lib.tokens issue.1 issue.2)

/-- The promise of call `c` settles. -/
def settle (lib : AuthLibraries) (a : AuthSystem) (c : ℕ) (call : AuthCall) (stage : AuthStage)
    (fate : Fate) (fresh : Uuid) (salt : JsString) : AuthSystem :=
  let promise := stage.promise call.nodeId
  let settled := fun answer ↦
    a.calls.set c { call with state := .awaiting stage (some answer) }
  match fate, promise.perform lib a.db fresh salt with
  | .answered, some (db, answer) =>
    { db := db
      calls := settled (some answer)
      log := a.log ++ (promise.inserted answer).toList.map (.userInserted c) }
  | .lost, some (db, answer) =>
    { db := db
      calls := settled none
      log := a.log ++ (promise.inserted answer).toList.map (.userInserted c) }
  | _, _ => { a with calls := settled none }

/-- The step of an event, `none` when it cannot happen. -/
def step (lib : AuthLibraries) (a : AuthSystem) : AuthEvent → Option AuthSystem
  | .tick ms => some { a with db := { a.db with now := a.db.now + ms } }
  | .call nodeId request =>
    let next := request.start lib a.db.now
    some { a with
      calls := a.calls ++ [⟨nodeId, request, next.state⟩]
      log := a.log ++ next.handsOut a.calls.length }
  | .settle c fate fresh salt => do
    let call ← a.calls[c]?
    match call.state with
    | .awaiting stage none => return a.settle lib c call stage fate fresh salt
    | _ => none
  | .resume c => do
    let call ← a.calls[c]?
    match call.state with
    | .awaiting stage (some settled) =>
      let next := stage.resume lib a.db.now settled
      return { a with
        calls := a.calls.set c { call with state := next.state }
        log := a.log ++ next.handsOut c }
    | _ => none

end AuthSystem

end PostgresChat
