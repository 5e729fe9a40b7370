import PostgresChat.Auth.Service
import PostgresChat.Lib.Lists
import PostgresChat.Lib.PastTrace

/-!
# Who is handed tokens

Tokens for a user are handed out by a call that has inserted the user itself, or has verified the
password, or has been given a refresh token that was handed out for the user (`Proven`). The calls
run side by side, so a call carries from one `await` to the next what it has established
(`Grounds`), and takes from each answer what the answer tells (`Learned`).

`register` does so too, unless it finds the e-mail address in use: it then hands out tokens for the
user that it has found. The results below hold of the runs in which no `register` does.

Of jsonwebtoken two facts are used. `verify` returns the claims that were signed
(`AuthLibraries.KeepsPayload`), and a text it accepts is a token that was handed out (`Unforged`).
-/

namespace PostgresChat

open Execution PastTrace

/-! ## The property -/

/-- What call `c` may hand out tokens for the user on. -/
inductive Proven (lib : AuthLibraries) (users : List User) (log : List AuthObservation) (c : ℕ) :
    AuthRequest → User → Prop
  /-- The call has inserted the user. -/
  | register {username email password : JsString} {user : User}
      (inserted : .userInserted c user ∈ log) :
      Proven lib users log c (.register username email password) user
  /-- The password verifies against the stored hash. -/
  | login {email password : JsString} {deviceInfo : Option JsString} {user : User}
      (stored : user ∈ users) (verified : lib.compare password user.password = true) :
      Proven lib users log c (.login email password deviceInfo) user
  /-- The refresh token was handed out for the user. -/
  | refresh {issuer : Option ℕ} {user user' : User} {tokens : AuthTokens}
      (issued : .returned issuer user' tokens ∈ log) (same : user'.id = user.id) :
      Proven lib users log c (.refresh tokens.refreshToken) user

theorem Proven.mono {lib : AuthLibraries} {users users' : List User}
    {log log' : List AuthObservation} {c : ℕ} {request : AuthRequest} {user : User}
    (husers : users ⊆ users') (hlog : log ⊆ log') (h : Proven lib users log c request user) :
    Proven lib users' log' c request user := by
  cases h with
  | register inserted => exact .register (hlog inserted)
  | login stored verified => exact .login (husers stored) verified
  | refresh issued same => exact .refresh (hlog issued) same

/-- Every call that has handed out tokens has proven, by what came before, that it may. -/
def AuthSystem.Sound (lib : AuthLibraries) (a : AuthSystem) : Prop :=
  Each (fun pre o ↦ ∀ c user tokens, o = .returned (some c) user tokens →
    ∃ call, a.calls[c]? = some call ∧ Proven lib a.db.users pre c call.request user) a.log

/-! ## The assumptions -/

/-- Claims that are read from a token are those it was signed with. -/
def AuthLibraries.KeepsPayload (lib : AuthLibraries) : Prop :=
  ∀ secret secret' payload payload' iat expiresIn now,
    lib.verify secret' (lib.sign secret payload iat expiresIn) now = some payload' →
      payload' = payload

/-- The texts handed out by an entry of the log. -/
def AuthObservation.texts : AuthObservation → List JsString
  | .returned _ _ tokens => [tokens.accessToken, tokens.refreshToken]
  | .userInserted .. => []

/-- The e-mail address that the call is looking up in order to register it. -/
def AuthCallState.registering : AuthCallState → Option JsString
  | .awaiting (.registerFind _ email _) none => some email
  | _ => none

namespace AuthSystem

/-- A refresh token that is presented verifies only if it has been handed out. -/
def Unforged (lib : AuthLibraries) (a : AuthSystem) : AuthEvent → Prop
  | .call _ (.refresh refreshToken) =>
    (lib.verify lib.refreshSecret refreshToken (a.db.now / 1000)).isSome = true →
      refreshToken ∈ a.log.flatMap AuthObservation.texts
  | _ => True

/-- When the SELECT of a `register` is answered, no user has the e-mail address. -/
def EmailFree (a : AuthSystem) : AuthEvent → Prop
  | .settle c .answered _ _ =>
    ∀ call ∈ a.calls[c]?, ∀ email ∈ call.state.registering, ∀ user ∈ a.db.users, user.email ≠ email
  | _ => True

instance (lib : AuthLibraries) (a : AuthSystem) (e : AuthEvent) : Decidable (a.Unforged lib e) :=
  match e with
  | .call _ (.refresh refreshToken) => inferInstanceAs (Decidable
    ((lib.verify lib.refreshSecret refreshToken (a.db.now / 1000)).isSome = true →
      refreshToken ∈ a.log.flatMap AuthObservation.texts))
  | .call _ (.register ..) | .call _ (.login ..) | .call _ (.logout ..) => isTrue trivial
  | .tick _ | .settle .. | .resume _ => isTrue trivial

instance (a : AuthSystem) (e : AuthEvent) : Decidable (a.EmailFree e) := by
  unfold EmailFree
  split <;> infer_instance

end AuthSystem

/-! ## From one `await` to the next -/

section

variable (lib : AuthLibraries) (users : List User) (log : List AuthObservation) (c : ℕ)
  (request : AuthRequest)

/-- What the call has established when it awaits at the stage. -/
def AuthStage.Grounds : AuthStage → Prop
  | .registerFind .. | .registerHash .. | .registerInsert .. =>
    ∃ username email password, request = .register username email password
  | .loginFind _ password _ => ∃ email deviceInfo, request = .login email password deviceInfo
  | .loginCompare password _ user =>
    (∃ email deviceInfo, request = .login email password deviceInfo) ∧ user ∈ users
  | .refreshFind refreshToken sub =>
    request = .refresh refreshToken ∧ ∃ issuer user tokens,
      .returned issuer user tokens ∈ log ∧ tokens.refreshToken = refreshToken ∧ sub = user.id.text
  | .refreshSessions _ user | .refreshCompare _ user _ _ => Proven lib users log c request user
  | .sessionHash user _ tokens _ | .sessionInsert user _ tokens _ _
  | .refreshRevoke user tokens _ =>
    Proven lib users log c request user ∧ ∃ iat, tokens = lib.tokens user iat
  | .logout .. => True

/-- What the answer tells the call. -/
def AuthStage.Learned (answer : AuthAnswer) : AuthStage → Prop
  | .registerFind .. => answer.user? = none
  | .registerInsert .. => ∀ user ∈ answer.user?, .userInserted c user ∈ log
  | .loginFind .. => ∀ user ∈ answer.user?, user ∈ users
  | .loginCompare password _ user =>
    answer.matches = true → lib.compare password user.password = true
  | .refreshFind _ sub => ∀ user ∈ answer.user?, Uuid.parse sub = some user.id
  | _ => True

/-- The call may go on like this. -/
def AuthNext.Grounded : AuthNext → Prop
  | .await stage => stage.Grounds lib users log c request
  | .returned (some (user, tokens)) =>
    Proven lib users log c request user ∧ ∃ iat, tokens = lib.tokens user iat
  | _ => True

/-- The call may be in this state. -/
def AuthCallState.Grounded : AuthCallState → Prop
  | .awaiting stage settled =>
    stage.Grounds lib users log c request ∧
      ∀ answer, settled = some (some answer) → stage.Learned lib users log c answer
  | _ => True

variable {lib users log c request} {users' : List User} {log' : List AuthObservation}
  {stage : AuthStage} {answer : AuthAnswer} {now : ℕ} {user : User}

theorem AuthStage.Grounds.mono (husers : users ⊆ users') (hlog : log ⊆ log')
    (h : stage.Grounds lib users log c request) : stage.Grounds lib users' log' c request := by
  cases stage with
  | loginCompare => exact ⟨h.1, husers h.2⟩
  | refreshFind =>
    obtain ⟨hrequest, issuer, user, tokens, hissued, htoken, hsub⟩ := h
    exact ⟨hrequest, issuer, user, tokens, hlog hissued, htoken, hsub⟩
  | refreshSessions | refreshCompare => exact Proven.mono husers hlog h
  | sessionHash | sessionInsert | refreshRevoke => exact ⟨h.1.mono husers hlog, h.2⟩
  | registerFind | registerHash | registerInsert | loginFind | logout => exact h

theorem AuthStage.Learned.mono (husers : users ⊆ users') (hlog : log ⊆ log')
    (h : stage.Learned lib users log c answer) : stage.Learned lib users' log' c answer := by
  cases stage with
  | registerInsert => exact fun user huser ↦ hlog (h user huser)
  | loginFind => exact fun user huser ↦ husers (h user huser)
  | _ => exact h

theorem AuthCallState.Grounded.mono {state : AuthCallState} (husers : users ⊆ users')
    (hlog : log ⊆ log') (h : state.Grounded lib users log c request) :
    state.Grounded lib users' log' c request := by
  cases state with
  | awaiting stage settled =>
    exact ⟨h.1.mono husers hlog, fun answer hsettled ↦ (h.2 answer hsettled).mono husers hlog⟩
  | returned | threw => exact trivial

theorem AuthNext.Grounded.state {next : AuthNext} (h : next.Grounded lib users log c request) :
    next.state.Grounded lib users log c request := by
  cases next with
  | await stage => exact ⟨h, by rintro _ ⟨⟩⟩
  | returned | threw => exact trivial

/-- Tokens are made for a user only after the proof. -/
theorem grounded_createSessionAndTokens {deviceInfo : Option JsString} {matched : Option Session}
    (h : Proven lib users log c request user) :
    (createSessionAndTokens lib now user deviceInfo matched).Grounded lib users log c request :=
  ⟨h, now / 1000, rfl⟩

theorem grounded_matchSessions {refreshToken : JsString} (sessions : List Session)
    (h : Proven lib users log c request user) :
    (matchSessions refreshToken user sessions).Grounded lib users log c request := by
  cases sessions with
  | nil => exact trivial
  | cons session rest => exact h

/-- **Continuing.** With what it has established and what the answer tells, a call comes to the next
`await` with what it has to have established there, or to its end with the proof. -/
theorem grounded_proceed (h : stage.Grounds lib users log c request)
    (hanswer : stage.Learned lib users log c answer) :
    (stage.proceed lib now answer).Grounded lib users log c request := by
  cases stage with
  | registerFind username email password =>
    rw [AuthStage.proceed, show answer.user? = none from hanswer]
    exact h
  | registerHash username email password => exact h
  | registerInsert username email passwordHash =>
    obtain ⟨username, email, password, rfl⟩ := h
    rw [AuthStage.proceed]
    cases huser : answer.user? with
    | none => exact trivial
    | some user => exact grounded_createSessionAndTokens (.register (hanswer user huser))
  | loginFind email password deviceInfo =>
    rw [AuthStage.proceed]
    cases huser : answer.user? with
    | none => exact trivial
    | some user => exact ⟨h, hanswer user huser⟩
  | loginCompare password deviceInfo user =>
    obtain ⟨⟨email, deviceInfo', rfl⟩, hstored⟩ := h
    rw [AuthStage.proceed]
    split
    case isTrue hmatches =>
      exact grounded_createSessionAndTokens (.login hstored (hanswer hmatches))
    case isFalse => exact trivial
  | refreshFind refreshToken sub =>
    obtain ⟨rfl, issuer, issued, tokens, hissued, rfl, rfl⟩ := h
    rw [AuthStage.proceed]
    cases huser : answer.user? with
    | none => exact trivial
    | some user =>
      have hid := hanswer user huser
      rw [Uuid.parse_text, Option.some.injEq] at hid
      exact Proven.refresh hissued hid
  | refreshSessions refreshToken user => exact grounded_matchSessions _ h
  | refreshCompare refreshToken user session rest =>
    rw [AuthStage.proceed]
    split
    · exact grounded_createSessionAndTokens h
    · exact grounded_matchSessions rest h
  | sessionHash user deviceInfo tokens matched => exact h
  | sessionInsert user deviceInfo tokens matched hashedRefresh => cases matched <;> exact h
  | refreshRevoke user tokens matched => exact h
  | logout sessionId userId => exact trivial

theorem grounded_resume {settled : Option AuthAnswer}
    (h : (AuthCallState.awaiting stage (some settled)).Grounded lib users log c request) :
    (stage.resume lib now settled).Grounded lib users log c request := by
  cases settled with
  | none => exact trivial
  | some answer => exact grounded_proceed h.1 (h.2 answer rfl)

end

/-! ## What an answer tells -/

/-- Whatever is awaited, no user is lost. -/
theorem users_subset_of_perform {lib : AuthLibraries} {db db' : AuthDb} {fresh : Uuid}
    {salt : JsString} {promise : AuthPromise} {answer : AuthAnswer}
    (h : promise.perform lib db fresh salt = some (db', answer)) : db.users ⊆ db'.users := by
  cases promise with
  | query q =>
    obtain ⟨⟨db'', rows⟩, hexec, hres⟩ := Option.map_eq_some_iff.mp h
    obtain ⟨rfl, -⟩ := Prod.mk.inj hres
    exact (AuthDb.users_prefix hexec).subset
  | hash plain =>
    obtain ⟨rfl, -⟩ := Prod.mk.inj (Option.some.inj h)
    exact List.Subset.refl _
  | compare plain hashed =>
    obtain ⟨rfl, -⟩ := Prod.mk.inj (Option.some.inj h)
    exact List.Subset.refl _

/-- The answer of a promise, when the e-mail address of a `register` is free. -/
theorem learned_of_perform {lib : AuthLibraries} {db db' : AuthDb} {fresh : Uuid}
    {salt nodeId : JsString} {stage : AuthStage} {answer : AuthAnswer} {c : ℕ}
    (log : List AuthObservation)
    (hfree : ∀ email ∈ (AuthCallState.awaiting stage none).registering,
      ∀ user ∈ db.users, user.email ≠ email)
    (h : (stage.promise nodeId).perform lib db fresh salt = some (db', answer)) :
    stage.Learned lib db'.users
      (log ++ ((stage.promise nodeId).inserted answer).toList.map (.userInserted c)) c answer := by
  cases stage with
  | registerFind username email password =>
    obtain ⟨-, rfl, rfl⟩ := AuthPromise.perform_findByEmail h
    show List.head? _ = none
    rw [List.head?_eq_none_iff, List.filter_eq_nil_iff]
    exact fun user huser ↦ by simpa using hfree email rfl user huser
  | registerInsert username email passwordHash =>
    intro user huser
    refine List.mem_append_right _ (List.mem_map_of_mem ?_)
    rw [Option.mem_toList]
    exact huser
  | loginFind email password deviceInfo =>
    obtain ⟨-, rfl, rfl⟩ := AuthPromise.perform_findByEmail h
    exact fun user huser ↦ List.mem_of_mem_filter (List.mem_of_mem_head? huser)
  | loginCompare password deviceInfo user =>
    obtain ⟨rfl, rfl⟩ :
        db = db' ∧ AuthAnswer.verdict (lib.compare password user.password) = answer := by
      simpa [AuthStage.promise, AuthPromise.perform] using h
    exact id
  | refreshFind refreshToken sub =>
    obtain ⟨id, hid, rfl, rfl⟩ : ∃ id, Uuid.parse sub = some id ∧ db = db' ∧
        AuthAnswer.rows (.users (db.users.filter fun user ↦ user.id = id)) = answer := by
      simpa [AuthStage.promise, AuthPromise.perform, AuthDb.exec, Option.bind_eq_some_iff] using h
    intro user huser
    have hmem := List.of_mem_filter (List.mem_of_mem_head? huser)
    rw [hid, of_decide_eq_true hmem]
  | _ => exact trivial

/-! ## The system -/

namespace AuthSystem

variable {lib : AuthLibraries} {a b : AuthSystem} {e : AuthEvent}

/-- The tokens that have been handed out are those of `createSessionAndTokens`. -/
def Signed (lib : AuthLibraries) (a : AuthSystem) : Prop :=
  ∀ c user tokens, .returned c user tokens ∈ a.log → ∃ iat, tokens = lib.tokens user iat

/-- Every call can account for where it is. -/
def CallsGrounded (lib : AuthLibraries) (a : AuthSystem) : Prop :=
  ∀ (c : ℕ) (call : AuthCall), a.calls[c]? = some call →
    call.state.Grounded lib a.db.users a.log c call.request

/-- The invariant. -/
structure Accounted (lib : AuthLibraries) (a : AuthSystem) : Prop where
  sound : a.Sound lib
  signed : a.Signed lib
  calls : a.CallsGrounded lib

/-- What a step does to keep the invariant: users and log grow, requests stay, a call that has
changed can account for where it is, and tokens are handed out after a proof. -/
theorem Accounted.extend {os : List AuthObservation} (h : a.Accounted lib)
    (husers : a.db.users ⊆ b.db.users) (hlog : b.log = a.log ++ os)
    (hrequests : ∀ (c : ℕ) (call : AuthCall), a.calls[c]? = some call →
      ∃ call', b.calls[c]? = some call' ∧ call'.request = call.request)
    (hcalls : ∀ (c : ℕ) (call : AuthCall), b.calls[c]? = some call →
      a.calls[c]? = some call ∨ call.state.Grounded lib b.db.users b.log c call.request)
    (hos : ∀ issuer user tokens, .returned issuer user tokens ∈ os →
      (∃ iat, tokens = lib.tokens user iat) ∧ ∀ c, issuer = some c → ∃ call,
        b.calls[c]? = some call ∧ Proven lib b.db.users a.log c call.request user) :
    b.Accounted lib := by
  refine ⟨?_, fun issuer user tokens hmem ↦ ?_, fun c call hcall ↦ ?_⟩
  · rw [Sound, hlog]
    refine each_append (h.sound.mono fun pre o hproven c user tokens ho ↦ ?_) ?_
    · obtain ⟨call, hcall, hproof⟩ := hproven c user tokens ho
      obtain ⟨call', hcall', hrequest⟩ := hrequests c call hcall
      exact ⟨call', hcall', hrequest ▸ hproof.mono husers (List.Subset.refl pre)⟩
    · rintro pre o post rfl c user tokens rfl
      obtain ⟨-, hproof⟩ := hos (some c) user tokens (List.mem_append_right _ List.mem_cons_self)
      obtain ⟨call, hcall, hproof⟩ := hproof c rfl
      exact ⟨call, hcall, hproof.mono (List.Subset.refl _) (List.subset_append_left _ _)⟩
  · rw [hlog, List.mem_append] at hmem
    rcases hmem with hmem | hmem
    · exact h.signed issuer user tokens hmem
    · exact (hos issuer user tokens hmem).1
  · rcases hcalls c call hcall with hold | hnew
    · refine (h.calls c call hold).mono husers ?_
      rw [hlog]
      exact List.subset_append_left _ _
    · exact hnew

/-- A call whose state changes keeps its request. -/
theorem requests_set {c : ℕ} {call : AuthCall} (state : AuthCallState)
    (hcall : a.calls[c]? = some call) (i : ℕ) (old : AuthCall) (hold : a.calls[i]? = some old) :
    ∃ call', (a.calls.set c { call with state := state })[i]? = some call' ∧
      call'.request = old.request := by
  by_cases hi : c = i
  · subst hi
    rw [hcall, Option.some.injEq] at hold
    subst hold
    exact ⟨_, List.getElem?_set_self (List.getElem?_eq_some_iff.mp hcall).1, rfl⟩
  · exact ⟨old, by rw [List.getElem?_set_ne hi, hold], rfl⟩

/-- The other calls stay as they are. -/
theorem calls_set {c : ℕ} {call : AuthCall} {P : ℕ → AuthCall → Prop} (hP : P c call) (i : ℕ)
    (call' : AuthCall) (h : (a.calls.set c call)[i]? = some call') :
    a.calls[i]? = some call' ∨ P i call' := by
  rcases Lists.of_getElem?_set h with ⟨-, h⟩ | ⟨rfl, rfl⟩
  · exact Or.inl h
  · exact Or.inr hP

/-- A call begins with grounds: the refresh token it is given was handed out for the user it names.
-/
theorem Accounted.grounded_start (hjwt : lib.KeepsPayload) (h : a.Accounted lib)
    {nodeId : JsString} {request : AuthRequest}
    (hunforged : a.Unforged lib (.call nodeId request)) :
    (request.start lib a.db.now).Grounded lib a.db.users a.log a.calls.length request := by
  cases request with
  | register username email password => exact ⟨username, email, password, rfl⟩
  | login email password deviceInfo => exact ⟨email, deviceInfo, rfl⟩
  | logout sessionId userId => exact trivial
  | refresh refreshToken =>
    rw [AuthRequest.start]
    split
    case h_1 => exact trivial
    case h_2 payload hverify =>
      split
      case isTrue => exact trivial
      case isFalse htype =>
        have hissued := hunforged (Option.isSome_of_eq_some hverify)
        obtain ⟨o, ho, htext⟩ := List.mem_flatMap.mp hissued
        cases o with
        | userInserted => cases htext
        | returned issuer user tokens =>
          obtain ⟨iat, rfl⟩ := h.signed issuer user tokens ho
          rcases List.mem_pair.mp htext with rfl | rfl
          -- an access token has no `type`
          · have hpayload := hjwt _ _ _ _ _ _ _ hverify
            rw [hpayload] at htype
            exact absurd nofun htype
          · have hpayload := hjwt _ _ _ _ _ _ _ hverify
            exact ⟨rfl, issuer, user, _, ho, rfl, by rw [hpayload]; rfl⟩

/-- A call hands out tokens only when it returns, and with the proof. -/
theorem of_mem_handsOut {users : List User} {log : List AuthObservation} {request : AuthRequest}
    {next : AuthNext} {c : ℕ} {issuer : Option ℕ} {user : User} {tokens : AuthTokens}
    (h : next.Grounded lib users log c request)
    (hmem : .returned issuer user tokens ∈ next.handsOut c) :
    issuer = some c ∧ Proven lib users log c request user ∧
      ∃ iat, tokens = lib.tokens user iat := by
  cases next with
  | await stage => cases hmem
  | threw => cases hmem
  | returned result =>
    rcases result with _ | ⟨user', tokens'⟩
    · cases hmem
    · obtain ⟨rfl, rfl, rfl⟩ := AuthObservation.returned.inj (List.mem_singleton.mp hmem)
      exact ⟨rfl, h⟩

/-- A statement hands out nothing. -/
theorem returned_notMem_inserted {c : ℕ} {issuer : Option ℕ} {user : User} {tokens : AuthTokens}
    (users : List User) :
    AuthObservation.returned issuer user tokens ∉ users.map (AuthObservation.userInserted c) := by
  intro hmem
  obtain ⟨user', -, ho⟩ := List.mem_map.mp hmem
  cases ho

/-- A new call is added. -/
theorem Accounted.call (hjwt : lib.KeepsPayload) (h : a.Accounted lib) {nodeId : JsString}
    {request : AuthRequest} (hunforged : a.Unforged lib (.call nodeId request))
    (hstep : a.step lib (.call nodeId request) = some b) : b.Accounted lib := by
  have hstart := h.grounded_start hjwt hunforged
  rw [step, Option.some.injEq] at hstep
  subst hstep
  refine h.extend (List.Subset.refl _) rfl (fun c call hcall ↦ ⟨call, ?_, rfl⟩)
    (fun c call hcall ↦ ?_) fun issuer user tokens hmem ↦ ?_
  · exact Lists.getElem?_concat_eq_some.mpr (Or.inl hcall)
  · rcases Lists.getElem?_concat_eq_some.mp hcall with hold | ⟨rfl, rfl⟩
    · exact Or.inl hold
    · exact Or.inr (hstart.state.mono (List.Subset.refl _) (List.subset_append_left _ _))
  · obtain ⟨rfl, hproof, hsigned⟩ := of_mem_handsOut hstart hmem
    refine ⟨hsigned, fun c hc ↦ ?_⟩
    obtain rfl := Option.some.inj hc
    exact ⟨_, List.getElem?_concat_length, hproof⟩

/-- A promise settles. -/
theorem Accounted.settle (h : a.Accounted lib) {c : ℕ} {call : AuthCall} {stage : AuthStage}
    {fate : Fate} {fresh : Uuid} {salt : JsString} (hcall : a.calls[c]? = some call)
    (hstate : call.state = .awaiting stage none) (hfree : a.EmailFree (.settle c fate fresh salt)) :
    (a.settle lib c call stage fate fresh salt).Accounted lib := by
  obtain ⟨hgrounds, -⟩ : (AuthCallState.awaiting stage none).Grounded lib a.db.users a.log c
    call.request := hstate ▸ h.calls c call hcall
  unfold AuthSystem.settle
  dsimp only
  split
  case h_1 db answer hperform =>
    have husers := users_subset_of_perform hperform
    refine h.extend husers rfl (requests_set _ hcall) (calls_set ⟨?_, ?_⟩) ?_
    · exact hgrounds.mono husers (List.subset_append_left _ _)
    · intro answer' hanswer
      obtain rfl := Option.some.inj (Option.some.inj hanswer)
      refine learned_of_perform a.log (fun email hemail ↦ ?_) hperform
      exact hfree call hcall email (by rw [hstate]; exact hemail)
    · exact fun issuer user tokens hmem ↦ absurd hmem (returned_notMem_inserted _)
  case h_2 db answer hperform =>
    have husers := users_subset_of_perform hperform
    refine h.extend husers rfl (requests_set _ hcall) (calls_set ⟨?_, by rintro _ ⟨⟩⟩) ?_
    · exact hgrounds.mono husers (List.subset_append_left _ _)
    · exact fun issuer user tokens hmem ↦ absurd hmem (returned_notMem_inserted _)
  case h_3 =>
    exact h.extend (List.Subset.refl _) (List.append_nil _).symm (requests_set _ hcall)
      (calls_set ⟨hgrounds, by rintro _ ⟨⟩⟩) (by rintro _ _ _ ⟨⟩)

/-- A call continues. -/
theorem Accounted.resume (h : a.Accounted lib) {c : ℕ} {call : AuthCall} {stage : AuthStage}
    {settled : Option AuthAnswer} (hcall : a.calls[c]? = some call)
    (hstate : call.state = .awaiting stage (some settled))
    (hstep : a.step lib (.resume c) = some b) : b.Accounted lib := by
  have hnext : (stage.resume lib a.db.now settled).Grounded lib a.db.users a.log c call.request :=
    grounded_resume (hstate ▸ h.calls c call hcall)
  simp only [step, hcall, hstate, Option.bind_eq_bind, Option.bind_some, Option.pure_def,
    Option.some.injEq] at hstep
  subst hstep
  refine h.extend (List.Subset.refl _) rfl (requests_set _ hcall)
    (calls_set (hnext.state.mono (List.Subset.refl _) (List.subset_append_left _ _)))
    fun issuer user tokens hmem ↦ ?_
  obtain ⟨rfl, hproof, hsigned⟩ := of_mem_handsOut hnext hmem
  refine ⟨hsigned, fun c' hc ↦ ?_⟩
  obtain rfl := Option.some.inj hc
  obtain ⟨call', hcall', hrequest⟩ := requests_set (stage.resume lib a.db.now settled).state hcall c
    call hcall
  exact ⟨call', hcall', hrequest ▸ hproof⟩

/-- **Step lemma.** -/
theorem Accounted.step (hjwt : lib.KeepsPayload) (h : a.Accounted lib)
    (hunforged : a.Unforged lib e)
    (hfree : a.EmailFree e) (hstep : a.step lib e = some b) : b.Accounted lib := by
  cases e with
  | tick ms =>
    obtain rfl := Option.some.inj hstep
    exact ⟨h.sound, h.signed, h.calls⟩
  | call nodeId request => exact h.call hjwt hunforged hstep
  | settle c fate fresh salt =>
    obtain ⟨call, hcall, hstep⟩ := Option.bind_eq_some_iff.mp hstep
    cases hstate : call.state with
    | awaiting stage settled =>
      cases settled with
      | none =>
        simp only [hstate, Option.pure_def, Option.some.injEq] at hstep
        exact hstep ▸ h.settle hcall hstate hfree
      | some settled => simp only [hstate, reduceCtorEq] at hstep
    | returned | threw => simp only [hstate, reduceCtorEq] at hstep
  | resume c =>
    obtain ⟨call, hcall, hresume⟩ := Option.bind_eq_some_iff.mp hstep
    cases hstate : call.state with
    | awaiting stage settled =>
      cases settled with
      | none => simp only [hstate, reduceCtorEq] at hresume
      | some settled => exact h.resume hcall hstate hstep
    | returned | threw => simp only [hstate, reduceCtorEq] at hresume

theorem accounted_start (lib : AuthLibraries) (db : AuthDb) (before : List (User × ℕ)) :
    (start lib db before).Accounted lib := by
  refine ⟨fun pre o post hlog c user tokens ho ↦ ?_, fun issuer user tokens hmem ↦ ?_,
    by rintro c call ⟨⟩⟩
  · have hmem : o ∈ (start lib db before).log := hlog ▸ List.mem_append_right _ List.mem_cons_self
    obtain ⟨issue, -, rfl⟩ := List.mem_map.mp hmem
    cases ho
  · obtain ⟨issue, -, hissue⟩ := List.mem_map.mp hmem
    obtain ⟨-, rfl, rfl⟩ := AuthObservation.returned.inj hissue
    exact ⟨issue.2, rfl⟩

/-- **Authentication.** From any tables, in every run in which no `register` finds its e-mail
address in use, tokens are handed out only by a call that has proven it may. -/
theorem tokens_proven (hjwt : lib.KeepsPayload) {db : AuthDb} {before : List (User × ℕ)}
    {es : List AuthEvent} (hunforged : Guarded (step lib) (Unforged lib) (start lib db before) es)
    (hfree : Guarded (step lib) EmailFree (start lib db before) es)
    (hrun : run (step lib) (start lib db before) es = some a) : a.Sound lib :=
  (guarded_invariant (Accounted lib) (fun h hguard hstep ↦ h.step hjwt hguard.1 hguard.2 hstep)
    (accounted_start lib db before) (hunforged.and hfree) hrun).sound

end AuthSystem

/-! ## Examples

Libraries without cryptography: a token spells out what it was signed with, and a hash is the text
itself. -/

/-- A text with its units marked, and an end mark. -/
def frame (s : JsString) : JsString := s.flatMap (fun u ↦ [0x2D, u]) ++ [0x2C]

/-- The texts framed one after another. -/
def unframe : JsString → List JsString
  | 0x2D :: u :: rest =>
    match unframe rest with
    | [] => []
    | s :: ss => (u :: s) :: ss
  | 0x2C :: rest => [] :: unframe rest
  | _ => []

theorem unframe_frame (s rest : JsString) : unframe (frame s ++ rest) = s :: unframe rest := by
  induction s with
  | nil => rfl
  | cons u s ih =>
    show unframe (0x2D :: u :: (frame s ++ rest)) = _
    rw [unframe, ih]

namespace AuthLibraries

/-- Tokens and hashes in the clear. -/
def clear : AuthLibraries where
  accessSecret := [0x61]
  refreshSecret := [0x72]
  sign secret payload iat _ :=
    frame secret ++ (frame payload.sub ++ (frame payload.username ++
      (frame (List.replicate iat 0x30) ++ (payload.type.map frame).getD [])))
  verify secret token _ :=
    match unframe token with
    | signer :: sub :: username :: _ :: type =>
      if signer = secret then some ⟨sub, username, type.head?⟩ else none
    | _ => none
  hash _ plain := plain
  compare plain hashed := plain = hashed

theorem clear_keepsPayload : clear.KeepsPayload := by
  rintro secret secret' ⟨sub, username, type⟩ payload' iat expiresIn now h
  have htype : (unframe ((type.map frame).getD [])).head? = type := by
    cases type with
    | none => rfl
    | some type =>
      have := unframe_frame type []
      rw [List.append_nil] at this
      rw [Option.map_some, Option.getD_some, this, List.head?_cons]
  simp only [clear, unframe_frame, htype, Option.ite_none_right_eq_some, Option.some.injEq] at h
  exact h.2.symm

end AuthLibraries

namespace AuthSystem

/-- `n` promises of call `c` are answered, one after another; rows it inserts get the id `id`. -/
def answers (c n : ℕ) (id : Uuid) : List AuthEvent :=
  (List.replicate n [.settle c .answered id [], .resume c]).flatten

/-- A user of the examples. -/
def alice : User :=
  ⟨.nil, .lit "alice", .lit "alice@example.org", .lit "correct horse", 0⟩

/-- A user registers, logs in a second later, and refreshes another second later. -/
theorem tokens_proven_register_login_refresh :
    ∃ a, run (step .clear) (start .clear {} [])
        (.call [] (.register alice.username alice.email alice.password) :: answers 0 5 .nil ++
        .tick 1000 :: .call [] (.login alice.email alice.password none) ::
        answers 1 4 (.repeated 1) ++
        .tick 1000 :: .call [] (.refresh (AuthLibraries.clear.signRefreshToken alice 1)) ::
        answers 2 7 (.repeated 2)) = some a ∧
      a.log.length = 4 ∧ a.Sound .clear := by
  refine exists_run_of_any (fun a : AuthSystem ↦ a.log.length = 4) (by decide +kernel) ?_
  intro a hrun hlength
  exact ⟨hlength, tokens_proven AuthLibraries.clear_keepsPayload (by decide +kernel)
    (by decide +kernel) hrun⟩

/-- Somebody registers with the e-mail address of a user and some password, and is handed tokens for
that user. -/
theorem register_of_existing_email :
    ∃ a, run (step .clear) (start .clear { users := [alice] } [])
        (.call [] (.register (.lit "mallory") alice.email (.lit "password")) :: answers 0 3 .nil) =
          some a ∧
      Guarded (step .clear) (Unforged .clear) (start .clear { users := [alice] } [])
        (.call [] (.register (.lit "mallory") alice.email (.lit "password")) :: answers 0 3 .nil) ∧
      AuthLibraries.clear.compare (.lit "password") alice.password = false ∧
      (∃ session ∈ a.db.sessions, session.userId = some alice.id) ∧ ¬ a.Sound .clear := by
  refine exists_run_of_any (fun a : AuthSystem ↦ (∃ session ∈ a.db.sessions,
      session.userId = some alice.id) ∧
    a.calls.map AuthCall.request = [.register (.lit "mallory") alice.email (.lit "password")] ∧
    a.log = [.returned (some 0) alice (AuthLibraries.clear.tokens alice 0)]) (by decide +kernel) ?_
  rintro a - ⟨hsession, hcalls, hlog⟩
  refine ⟨by decide, by decide, hsession, fun hsound ↦ ?_⟩
  obtain ⟨call, hcall, hproof⟩ := hsound [] _ [] hlog 0 _ _ rfl
  have hrequest : call.request ∈ a.calls.map AuthCall.request :=
    List.mem_map_of_mem (List.mem_of_getElem? hcall)
  rw [hcalls, List.mem_singleton] at hrequest
  rw [hrequest] at hproof
  cases hproof with
  | register inserted => cases inserted

end AuthSystem

end PostgresChat
