import PostgresChat.Auth.Soundness

/-!
# Looking an account up

`findUserByEmailOrUsername` joins the two lookups of `UsersService` by `??`, which looks at the
value on its left as it is. That value is a promise. A promise is neither `null` nor `undefined`,
whatever it is fulfilled with later, and so the lookup by username is not called.

The lookups are written here as the source composes them, with the values `??` tells apart
(`LookupValue`) and the statements sent on the way (`Lookup`), which are answered. What comes of it
is the one statement `register` awaits in `AuthStage.promise`; there it may fail.
-/

namespace PostgresChat

open Execution

/-! ## Values and promises -/

/-- A value that the lookups pass on. -/
inductive LookupValue where
  | null
  | undefined
  | row (user : User)
  /-- A `QueryResult`, known by its rows. -/
  | result (rows : List User)
  /-- A promise, known by what it is fulfilled with. -/
  | promise (value : LookupValue)
  deriving DecidableEq

/-- A SELECT on `users`. -/
inductive UsersQuery where
  | byEmail (email : JsString)
  | byUsername (username : JsString)
  deriving DecidableEq

/-- An expression evaluated: its value, and the statements sent on the way. -/
structure Lookup where
  value : LookupValue
  sent : List UsersQuery := []
  deriving DecidableEq

namespace LookupValue

/-- `await`. -/
def await : LookupValue → LookupValue
  | promise value => value.await
  | value => value

/-- `result.rows[0]`. -/
def firstRow : LookupValue → LookupValue
  | result (user :: _) => row user
  | _ => undefined

/-- `User | null`. -/
def ofUser? : Option User → LookupValue
  | some user => row user
  | none => null

end LookupValue

namespace Lookup

/-- `a ?? b`. The right side is evaluated only for a missing left side. -/
def coalesce (a : Lookup) (b : Unit → Lookup) : Lookup :=
  match a.value with
  | .null | .undefined => ⟨(b ()).value, a.sent ++ (b ()).sent⟩
  | _ => a

/-- A call of an `async` function. A promise that its body returns is followed. -/
def async (body : Lookup) : Lookup := ⟨.promise body.value.await, body.sent⟩

/-- Whatever its body comes to, the call of an `async` function is not missing. -/
theorem coalesce_async (body : Lookup) (b : Unit → Lookup) :
    body.async.coalesce b = body.async := rfl

end Lookup

/-! ## The lookups -/

/-- The rows of a SELECT. -/
def UsersQuery.rows (users : List User) : UsersQuery → List User
  | byEmail email => users.filter fun user ↦ user.email = email
  | byUsername username => users.filter fun user ↦ user.username = username

namespace UsersService

/-- `await this.postgres.query(...)`. -/
def query (users : List User) (q : UsersQuery) : Lookup := ⟨.result (q.rows users), [q]⟩

def findByEmail (users : List User) (email : JsString) : Lookup :=
  let result := query users (.byEmail email)
  (Lookup.coalesce ⟨result.value.firstRow, result.sent⟩ fun _ ↦ ⟨.null, []⟩).async

/-- The result is returned as a whole. -/
def findByUsername (users : List User) (username : JsString) : Lookup :=
  (query users (.byUsername username)).async

end UsersService

/-- `AuthService.findUserByEmailOrUsername`. -/
def AuthService.findUserByEmailOrUsername (users : List User) (email username : JsString) :
    Lookup :=
  ((UsersService.findByEmail users email).coalesce fun _ ↦
    UsersService.findByUsername users username).async

/-- What the unique indexes on `users` ensure. -/
structure UniqueUsers (users : List User) : Prop where
  email : (users.map User.email).Nodup
  username : (users.map User.username).Nodup

/-- The account is found: by the address, or else by the name. -/
structure FindsAccount (users : List User) (email username : JsString) (found : LookupValue) :
    Prop where
  byEmail : ∀ user ∈ users, user.email = email → found = .row user
  byUsername : (∀ user ∈ users, user.email ≠ email) →
    ∀ user ∈ users, user.username = username → found = .row user
  null : (∀ user ∈ users, user.email ≠ email ∧ user.username ≠ username) → found = .null

/-- The address is somebody's, or the name is nobody's. -/
def EmailKnownOrNameFree (users : List User) (email username : JsString) : Prop :=
  (∃ user ∈ users, user.email = email) ∨ ∀ user ∈ users, user.username ≠ username

section

variable {users : List User} {email username : JsString}

theorem UsersService.findByEmail_eq :
    UsersService.findByEmail users email =
      ⟨.promise (.ofUser? (users.find? fun user ↦ user.email = email)), [.byEmail email]⟩ := by
  rw [← List.head?_filter, findByEmail, UsersService.query, UsersQuery.rows]
  cases users.filter fun user ↦ user.email = email <;> rfl

/-- The lookup by username is never sent. -/
theorem AuthService.findUserByEmailOrUsername_eq :
    AuthService.findUserByEmailOrUsername users email username =
      ⟨.promise (.ofUser? (users.find? fun user ↦ user.email = email)), [.byEmail email]⟩ := by
  rw [AuthService.findUserByEmailOrUsername, UsersService.findByEmail, Lookup.coalesce_async,
    ← UsersService.findByEmail, UsersService.findByEmail_eq, Lookup.async]
  cases users.find? fun user ↦ user.email = email <;> rfl

/-- What `register` gets from the statement it awaits is what the lookups come to. -/
theorem AuthService.await_findUserByEmailOrUsername {lib : AuthLibraries} {db db' : AuthDb}
    {fresh : Uuid} {salt nodeId password : JsString} {answer : AuthAnswer}
    (h : ((AuthStage.registerFind username email password).promise nodeId).perform lib db fresh
      salt = some (db', answer)) :
    (AuthService.findUserByEmailOrUsername db.users email username).value.await =
      .ofUser? answer.user? := by
  obtain ⟨-, rfl, rfl⟩ := AuthPromise.perform_findByEmail h
  rw [AuthService.findUserByEmailOrUsername_eq, AuthAnswer.user?, List.head?_filter]
  cases db.users.find? fun user ↦ user.email = email <;> rfl

/-- Unique columns tell rows apart. -/
theorem UniqueUsers.find?_email (hunique : UniqueUsers users) {user : User} (huser : user ∈ users)
    (hemail : user.email = email) : (users.find? fun user ↦ user.email = email) = some user := by
  cases hfind : users.find? fun user ↦ user.email = email with
  | none => exact absurd (decide_eq_true hemail) (List.find?_eq_none.mp hfind user huser)
  | some found =>
    have hfound : found.email = email := by simpa using List.find?_some hfind
    rw [List.inj_on_of_nodup_map hunique.email (List.mem_of_find?_eq_some hfind) huser
      (hfound.trans hemail.symm)]

theorem findsAccount_iff (hunique : UniqueUsers users) :
    FindsAccount users email username
        (AuthService.findUserByEmailOrUsername users email username).value.await ↔
      EmailKnownOrNameFree users email username := by
  rw [AuthService.findUserByEmailOrUsername_eq]
  constructor
  · intro h
    by_contra hneither
    rw [EmailKnownOrNameFree, not_or] at hneither
    obtain ⟨hemail, husername⟩ := hneither
    push Not at hemail husername
    obtain ⟨user, huser, rfl⟩ := husername
    have hfound := h.byUsername hemail user huser rfl
    rw [List.find?_eq_none.mpr fun user huser ↦ by simpa using hemail user huser] at hfound
    cases hfound
  · intro h
    constructor
    · intro user huser hemail
      rw [hunique.find?_email huser hemail]
      rfl
    · intro hnone user huser husername
      rcases h with ⟨other, hother, hemail⟩ | hfree
      · exact absurd hemail (hnone other hother)
      · exact absurd husername (hfree user huser)
    · intro hnone
      rw [List.find?_eq_none.mpr fun user huser ↦ by simpa using (hnone user huser).1]
      rfl

end

/-! ## Registering -/

/-- A call of `register` that has looked for an account was answered, and has found none with its
address among the users there were. -/
def AuthCallState.Screened (users : List User) : AuthCallState → Prop
  | .awaiting (.registerFind _ email _) (some (some answer)) =>
    0 ∉ email ∧ (answer.user? = none → ∀ user ∈ users, user.email ≠ email)
  | .awaiting (.registerHash _ email _) _ | .awaiting (.registerInsert _ email _) _ =>
    0 ∉ email ∧ ∀ user ∈ users, user.email ≠ email
  | _ => True

section

variable {lib : AuthLibraries} {users : List User} {now : ℕ}

theorem screened_createSessionAndTokens (user : User) (deviceInfo : Option JsString)
    (matched : Option Session) :
    (createSessionAndTokens lib now user deviceInfo matched).state.Screened users := trivial

theorem screened_matchSessions (refreshToken : JsString) (user : User) (sessions : List Session) :
    (matchSessions refreshToken user sessions).state.Screened users := by
  cases sessions <;> exact trivial

theorem screened_start (request : AuthRequest) : (request.start lib now).state.Screened users := by
  cases request with
  | register | login | logout => exact trivial
  | refresh refreshToken =>
    rw [AuthRequest.start]
    split
    · exact trivial
    · split <;> exact trivial

theorem screened_resume {stage : AuthStage} {settled : Option AuthAnswer}
    (h : (AuthCallState.awaiting stage (some settled)).Screened users) :
    (stage.resume lib now settled).state.Screened users := by
  cases settled with
  | none => exact trivial
  | some answer =>
    rw [AuthStage.resume]
    cases stage with
    | registerFind username email password =>
      rw [AuthStage.proceed]
      cases huser : answer.user? with
      | some found => exact screened_createSessionAndTokens _ _ _
      | none => exact ⟨h.1, h.2 huser⟩
    | registerHash username email password => exact h
    | registerInsert | loginFind | loginCompare | refreshFind =>
      rw [AuthStage.proceed]
      split <;> exact trivial
    | refreshSessions => exact screened_matchSessions _ _ _
    | refreshCompare =>
      rw [AuthStage.proceed]
      split
      · exact screened_createSessionAndTokens _ _ _
      · exact screened_matchSessions _ _ _
    | sessionInsert user deviceInfo tokens matched => cases matched <;> exact trivial
    | sessionHash | refreshRevoke | logout => exact trivial

/-- The answer to the lookup: users are only added to the table. -/
theorem screened_settled {db db' : AuthDb} {fresh : Uuid} {salt nodeId : JsString}
    {stage : AuthStage} {answer : AuthAnswer} (husers : users ⊆ db.users)
    (h : (AuthCallState.awaiting stage none).Screened users)
    (hperform : (stage.promise nodeId).perform lib db fresh salt = some (db', answer)) :
    (AuthCallState.awaiting stage (some (some answer))).Screened users := by
  cases stage with
  | registerFind username email password =>
    refine ⟨(AuthPromise.perform_findByEmail hperform).1, fun hnone user huser hemail ↦ ?_⟩
    have hfound := AuthService.await_findUserByEmailOrUsername hperform
    rw [AuthService.findUserByEmailOrUsername_eq, hnone] at hfound
    cases hfind : db.users.find? fun user ↦ user.email = email with
    | none => exact List.find?_eq_none.mp hfind user (husers huser) (decide_eq_true hemail)
    | some found =>
      rw [hfind] at hfound
      cases hfound
  | registerHash | registerInsert => exact h
  | _ => exact trivial

theorem screened_rejected {stage : AuthStage}
    (h : (AuthCallState.awaiting stage none).Screened users) :
    (AuthCallState.awaiting stage (some none)).Screened users := by
  cases stage with
  | registerHash | registerInsert => exact h
  | _ => exact trivial

end

namespace AuthSystem

variable {lib : AuthLibraries} {users : List User} {email username : JsString} {c : ℕ}
  {a a' : AuthSystem} {e : AuthEvent}

/-- The invariant: the users there were are still there, and the calls made since have screened
them. -/
structure Screened (users : List User) (c : ℕ) (a : AuthSystem) : Prop where
  kept : users ⊆ a.db.users
  calls : ∀ i call, c ≤ i → a.calls[i]? = some call → call.state.Screened users

theorem Screened.settle (h : a.Screened users c) {i : ℕ} {call : AuthCall} {stage : AuthStage}
    (hcall : a.calls[i]? = some call) (hstate : call.state = .awaiting stage none) (fate : Fate)
    (fresh : Uuid) (salt : JsString) :
    (a.settle lib i call stage fate fresh salt).Screened users c := by
  have hold : c ≤ i → (AuthCallState.awaiting stage none).Screened users :=
    fun hi ↦ hstate ▸ h.calls i call hi hcall
  have hset : ∀ state : AuthCallState, (c ≤ i → state.Screened users) →
      ∀ j call', c ≤ j → (a.calls.set i { call with state := state })[j]? = some call' →
        call'.state.Screened users := by
    intro state hstate j call' hj hcall'
    rcases Lists.of_getElem?_set hcall' with ⟨-, hcall'⟩ | ⟨rfl, rfl⟩
    · exact h.calls j call' hj hcall'
    · exact hstate hj
  unfold AuthSystem.settle
  dsimp only
  split
  case h_1 db answer hperform =>
    exact ⟨List.Subset.trans h.kept (users_subset_of_perform hperform),
      hset _ fun hi ↦ screened_settled h.kept (hold hi) hperform⟩
  case h_2 db answer hperform =>
    exact ⟨List.Subset.trans h.kept (users_subset_of_perform hperform),
      hset _ fun hi ↦ screened_rejected (hold hi)⟩
  case h_3 => exact ⟨h.kept, hset _ fun hi ↦ screened_rejected (hold hi)⟩

theorem Screened.step (h : a.Screened users c) (hstep : a.step lib e = some a') :
    a'.Screened users c := by
  cases e with
  | tick ms =>
    cases hstep
    exact ⟨h.kept, h.calls⟩
  | call nodeId request =>
    cases hstep
    refine ⟨h.kept, fun i call hi hcall ↦ ?_⟩
    rcases Lists.getElem?_concat_eq_some.mp hcall with hcall | ⟨-, rfl⟩
    · exact h.calls i call hi hcall
    · exact screened_start request
  | settle i fate fresh salt =>
    simp only [AuthSystem.step, Option.bind_eq_bind, Option.bind_eq_some_iff] at hstep
    obtain ⟨call, hcall, hstep⟩ := hstep
    split at hstep
    case h_1 stage hstate =>
      cases hstep
      exact h.settle hcall hstate fate fresh salt
    case h_2 => cases hstep
  | resume i =>
    simp only [AuthSystem.step, Option.bind_eq_bind, Option.bind_eq_some_iff] at hstep
    obtain ⟨call, hcall, hstep⟩ := hstep
    split at hstep
    case h_1 stage settled hstate =>
      cases hstep
      refine ⟨h.kept, fun j call' hj hcall' ↦ ?_⟩
      rcases Lists.of_getElem?_set hcall' with ⟨-, hcall'⟩ | ⟨rfl, rfl⟩
      · exact h.calls j call' hj hcall'
      · exact screened_resume (hstate ▸ h.calls _ call hj hcall)
    case h_2 => cases hstep

/-- The call has come to `createUser`, which has not run yet. -/
def Creates (a : AuthSystem) (c : ℕ) (username email : JsString) : Prop :=
  ∃ call passwordHash, a.calls[c]? = some call ∧
    call.state = .awaiting (.registerInsert username email passwordHash) none

/-- A `register` comes to `createUser` only with an address and a name that nobody has, whatever
other calls are made meanwhile, when none of them adds a user. -/
def CreatesAnew (lib : AuthLibraries) (users : List User) (email username : JsString) : Prop :=
  ∀ (a a' : AuthSystem) nodeId password es, a.db.users = users →
    run (step lib) a (.call nodeId (.register username email password) :: es) = some a' →
    a'.db.users = users → a'.Creates a.calls.length username email →
    ∀ user ∈ a'.db.users, user.email ≠ email ∧ user.username ≠ username

/-- Nobody has the address of a `register` that has come to `createUser`, and it is an address that
PostgreSQL takes. -/
theorem email_free_of_creates {es : List AuthEvent} (hrun : run (step lib) a es = some a')
    (hcreates : a'.Creates a.calls.length username email) :
    0 ∉ email ∧ ∀ user ∈ a.db.users, user.email ≠ email := by
  have hscreened : a'.Screened a.db.users a.calls.length :=
    run_invariant (Screened a.db.users a.calls.length) (fun h hstep ↦ h.step hstep)
      ⟨List.Subset.refl _, fun i call hi hcall ↦
        absurd (List.getElem?_eq_some_iff.mp hcall).1 (Nat.not_lt.mpr hi)⟩ hrun
  obtain ⟨call, passwordHash, hcall, hstate⟩ := hcreates
  have hcalled := hscreened.calls _ call le_rfl hcall
  rwa [hstate] at hcalled

/-- The calls that lead a `register` to `createUser`. -/
def registers (username email password : JsString) : List AuthEvent :=
  .call [] (.register username email password) :: answers 0 2 .nil

/-- A `register` for an address that nobody has comes to `createUser`. -/
theorem creates_of_email_free (lib : AuthLibraries) (username password : JsString)
    (hnul : 0 ∉ email) (hemail : ∀ user ∈ users, user.email ≠ email) :
    ∃ a', run (step lib) { db := { users := users } } (registers username email password) =
        some a' ∧
      a'.db.users = users ∧ a'.Creates 0 username email := by
  have hnone : (users.filter fun user ↦ user.email = email) = [] :=
    List.filter_eq_nil_iff.mpr fun user huser ↦ by simpa using hemail user huser
  refine ⟨⟨{ users := users }, [⟨[], .register username email password,
    .awaiting (.registerInsert username email (lib.hash [] password)) none⟩], []⟩, ?_, rfl,
    _, _, rfl, rfl⟩
  simp [registers, answers, run, step, AuthSystem.settle, AuthRequest.start, AuthNext.state,
    AuthNext.handsOut, AuthStage.promise, PostgresChat.findUserByEmailOrUsername,
    AuthPromise.perform, AuthDb.exec, hnul, hnone, AuthPromise.inserted, AuthStage.resume,
    AuthStage.proceed, AuthAnswer.user?, AuthAnswer.hashed]

theorem createsAnew_iff (lib : AuthLibraries) :
    CreatesAnew lib users email username ↔
      0 ∈ email ∨ EmailKnownOrNameFree users email username := by
  constructor
  · intro h
    refine or_iff_not_imp_left.mpr fun hnul ↦ or_iff_not_imp_left.mpr fun hemail ↦ ?_
    push Not at hemail
    obtain ⟨a', hrun, husers, hcreates⟩ := creates_of_email_free lib username [] hnul hemail
    exact fun user huser ↦ (h _ a' _ _ _ rfl hrun husers hcreates user (husers ▸ huser)).2
  · intro h a a' nodeId password es husers hrun husers' hcreates user huser
    rw [husers'] at huser
    obtain ⟨hnul, hemail⟩ := email_free_of_creates hrun hcreates
    rw [husers] at hemail
    rcases h with hnul' | ⟨other, hother, hsame⟩ | hfree
    · exact absurd hnul' hnul
    · exact absurd hsame (hemail other hother)
    · exact ⟨hemail user huser, hfree user huser⟩

/-- The account is found exactly when the address is somebody's or the name is nobody's. Otherwise
`register` may come to `createUser` with the name of a user, unless the address holds a NUL and the
lookup is refused. -/
theorem account_lookup_complete_iff (lib : AuthLibraries) (hunique : UniqueUsers users)
    (email username : JsString) :
    (FindsAccount users email username
        (AuthService.findUserByEmailOrUsername users email username).value.await ↔
      EmailKnownOrNameFree users email username) ∧
    (CreatesAnew lib users email username ↔
      0 ∈ email ∨ EmailKnownOrNameFree users email username) :=
  ⟨findsAccount_iff hunique, createsAnew_iff lib⟩

/-- A table with one user, looked up under another address and under another name. -/
theorem account_lookup_complete_iff_alice :
    (FindsAccount [alice] (.lit "other@example.org") (.lit "bob")
        (AuthService.findUserByEmailOrUsername [alice] (.lit "other@example.org")
          (.lit "bob")).value.await ↔
      EmailKnownOrNameFree [alice] (.lit "other@example.org") (.lit "bob")) ∧
    (CreatesAnew .clear [alice] (.lit "other@example.org") (.lit "bob") ↔
      0 ∈ JsString.lit "other@example.org" ∨
        EmailKnownOrNameFree [alice] (.lit "other@example.org") (.lit "bob")) :=
  account_lookup_complete_iff .clear ⟨by decide, by decide⟩ _ _

/-- Under the name of a user and another address nobody is found, and `register` comes to
`createUser` with the name. -/
theorem username_not_looked_up :
    UniqueUsers [alice] ∧
    (AuthService.findUserByEmailOrUsername [alice] (.lit "other@example.org")
      alice.username).value.await = .null ∧
    ¬ FindsAccount [alice] (.lit "other@example.org") alice.username
      (AuthService.findUserByEmailOrUsername [alice] (.lit "other@example.org")
        alice.username).value.await ∧
    ¬ CreatesAnew .clear [alice] (.lit "other@example.org") alice.username := by
  have hnull : (AuthService.findUserByEmailOrUsername [alice] (.lit "other@example.org")
      alice.username).value.await = .null := by decide
  refine ⟨⟨by decide, by decide⟩, hnull, fun h ↦ ?_, fun h ↦ ?_⟩
  · have hfound := h.byUsername (by decide) alice (List.mem_singleton_self _) rfl
    rw [hnull] at hfound
    cases hfound
  · have hemail : ∀ user ∈ [alice], user.email ≠ .lit "other@example.org" := by decide
    obtain ⟨a', hrun, husers, hcreates⟩ :=
      creates_of_email_free .clear alice.username [] (by decide) hemail
    exact (h _ a' _ _ _ rfl hrun husers hcreates alice (by simp [husers])).2 rfl

end AuthSystem

end PostgresChat
