import PostgresChat.Auth.Soundness
import PostgresChat.Js.Integers
import PostgresChat.Js.QueryString
import PostgresChat.Node.System

/-!
# Who is connected

A client shows an access token when it connects, in the query of the URL or in a header. The URL is
taken apart at its question marks, the query is parsed, and the token must be a single value of its
name: of two tokens neither counts, and the header decides.

`verify` accepts the tokens that were signed with the secret, until they expire. So a connection is
accepted as a user exactly while it shows an access token that has been handed out for the user, and
a refresh token opens none.
-/

namespace PostgresChat

open Execution

/-! ## The handshake -/

/-- What the handshake reads of the HTTP request. -/
structure IncomingMessage where
  url : Option JsString
  authorization : Option JsString
  deriving DecidableEq

def bearer : JsString := JsString.lit "Bearer "

def tokenName : JsString := JsString.lit "token"

/-- `query[name]`, when it is a string: the name has come up once. -/
def stringValue (query : List (JsString × JsString)) (name : JsString) : Option JsString :=
  match query.filter fun pair ↦ pair.1 = name with
  | [pair] => some pair.2
  | _ => none

/-- The query of the request, which is what stands between the first two question marks. -/
def IncomingMessage.query (req : IncomingMessage) : List (JsString × JsString) :=
  match (req.url.getD []).splitOn 0x3F with
  | _ :: queryString :: _ => if queryString = [] then [] else JsString.parseQuery queryString
  | _ => []

/-- `extractToken`. An empty string is falsy, like `undefined`. -/
def extractToken (query : List (JsString × JsString)) (req : IncomingMessage) : Option JsString :=
  let returnedToken := (stringValue query tokenName).filter (· ≠ [])
  let returnedToken := returnedToken.or <|
    (req.authorization.filter bearer.isPrefixOf).map fun header ↦ header.drop bearer.length
  returnedToken.filter (· ≠ [])

/-- The token that the request shows. -/
def IncomingMessage.token (req : IncomingMessage) : Option JsString := extractToken req.query req

section

variable (lib : AuthLibraries) (now : ℕ)

/-- `authenticate`, at the second `now`. -/
def authenticate (req : IncomingMessage) : Option UserId := do
  let token ← req.token
  let payload ← lib.verify lib.accessSecret token now
  return payload.sub

/-- `handleConnection`; `none` when it closes the socket. -/
def Node.handleConnection (n : Node) (req : IncomingMessage) : Option Node := do
  let userId ← authenticate lib now req
  n.step (.connect userId)

end

/-! ## How the token travels -/

section

variable {pairs : List (JsString × JsString)} {path queryString : JsString} {req : IncomingMessage}

theorem query_of_writeQuery (hpath : 0x3F ∉ path)
    (hquery : JsString.writeQuery pairs = some queryString) (hlength : pairs.length ≤ 1000)
    (hurl : req.url = some (path ++ 0x3F :: queryString)) : req.query = pairs := by
  have hsplit : (path ++ 0x3F :: queryString).splitOn 0x3F = [path, queryString] := by
    rw [List.splitOn_append_cons_self_of_not_mem hpath,
      List.splitOn_eq_singleton (JsString.questionMark_notMem_writeQuery hquery)]
  have hparse := JsString.parseQuery_writeQuery hquery hlength
  simp only [IncomingMessage.query, hurl, Option.getD_some, hsplit]
  split
  · rename_i hnil
    rw [← hparse, hnil]
    rfl
  · exact hparse

/-- Only one value counts, and not an empty one. -/
theorem stringValue_filter_eq_some {query : List (JsString × JsString)} {name value : JsString} :
    (stringValue query name).filter (· ≠ []) = some value ↔
      value ≠ [] ∧ query.filter (fun pair ↦ pair.1 = name) = [(name, value)] := by
  have hname : ∀ pair ∈ query.filter fun pair ↦ pair.1 = name, pair.1 = name := by
    intro pair hpair
    exact of_decide_eq_true (List.mem_filter.mp hpair).2
  rw [stringValue]
  generalize query.filter (fun pair ↦ pair.1 = name) = found at hname ⊢
  rcases found with _ | ⟨⟨first, second⟩, _ | ⟨next, rest⟩⟩
  · simp
  · rw [List.forall_mem_singleton] at hname
    obtain rfl : first = name := hname
    rw [Option.filter_eq_some_iff]
    constructor
    · rintro ⟨hvalue, hne⟩
      obtain rfl : second = value := Option.some.inj hvalue
      exact ⟨of_decide_eq_true hne, rfl⟩
    · rintro ⟨hne, hpair⟩
      obtain rfl : second = value := by simpa using hpair
      exact ⟨rfl, decide_eq_true hne⟩
  · simp

/-- **The token.** A client may write a thousand names and values into the URL. The token that is
found is the value of the name, if there is one value and it is not empty, and what follows `Bearer
` in the header otherwise. -/
theorem token_of_writeQuery (hpath : 0x3F ∉ path)
    (hquery : JsString.writeQuery pairs = some queryString) (hlength : pairs.length ≤ 1000)
    (hurl : req.url = some (path ++ 0x3F :: queryString)) (token : JsString) :
    req.token = some token ↔ token ≠ [] ∧
      (pairs.filter (fun pair ↦ pair.1 = tokenName) = [(tokenName, token)] ∨
        (∀ value ≠ [], pairs.filter (fun pair ↦ pair.1 = tokenName) ≠ [(tokenName, value)]) ∧
          req.authorization = some (bearer ++ token)) := by
  have hheader : ∀ token, (req.authorization.filter bearer.isPrefixOf).map
      (fun header ↦ header.drop bearer.length) = some token ↔
        req.authorization = some (bearer ++ token) := by
    intro token
    rw [Option.map_eq_some_iff]
    constructor
    · rintro ⟨header, hheader, rfl⟩
      rw [Option.filter_eq_some_iff] at hheader
      obtain ⟨rest, rfl⟩ := List.isPrefixOf_iff_prefix.mp hheader.2
      rw [List.drop_left, hheader.1]
    · intro hheader
      refine ⟨bearer ++ token, ?_, List.drop_left⟩
      rw [hheader, Option.filter_eq_some_iff, List.isPrefixOf_iff_prefix]
      exact ⟨rfl, List.prefix_append _ _⟩
  rw [IncomingMessage.token, query_of_writeQuery hpath hquery hlength hurl, extractToken]
  cases hvalue : (stringValue pairs tokenName).filter (· ≠ []) with
  | some value =>
    obtain ⟨hne, hpair⟩ := stringValue_filter_eq_some.mp hvalue
    have hsame : ∀ token, [(tokenName, value)] = [(tokenName, token)] ↔ value = token := by
      intro token
      rw [List.cons.injEq, Prod.mk.injEq, eq_self tokenName, true_and, and_iff_left rfl]
    rw [Option.some_or, Option.filter_eq_some_iff, Option.some.injEq, decide_eq_true_eq, and_comm,
      hpair, hsame, or_iff_left fun h ↦ h.1 value hne rfl]
  | none =>
    have hnone : ∀ value ≠ [],
        pairs.filter (fun pair ↦ pair.1 = tokenName) ≠ [(tokenName, value)] := by
      intro value hne hpair
      rw [stringValue_filter_eq_some.mpr ⟨hne, hpair⟩] at hvalue
      cases hvalue
    rw [Option.none_or, Option.filter_eq_some_iff, hheader, decide_eq_true_eq, and_comm]
    refine and_congr_right fun hne ↦ ?_
    rw [or_iff_right (hnone token hne), and_iff_right hnone]

end

/-! ## What has been handed out -/

section

variable (lib : AuthLibraries)

/-- The tokens are those of the user. -/
def SignedFor (issue : User × AuthTokens) : Prop := ∃ iat, issue.2 = lib.tokens issue.1 iat

/-- The tokens that the call is to return. -/
def AuthStage.issue : AuthStage → Option (User × AuthTokens)
  | .sessionHash user _ tokens _ | .sessionInsert user _ tokens _ _
  | .refreshRevoke user tokens _ => some (user, tokens)
  | _ => none

def AuthNext.issue : AuthNext → Option (User × AuthTokens)
  | .await stage => stage.issue
  | .returned result => result
  | .threw => none

def AuthCallState.issue : AuthCallState → Option (User × AuthTokens)
  | .awaiting stage _ => stage.issue
  | .returned result => result
  | .threw => none

variable {lib}

theorem AuthNext.issue_state (next : AuthNext) : next.state.issue = next.issue := by
  cases next <;> rfl

theorem signedFor_createSessionAndTokens {now : ℕ} {user : User} {deviceInfo : Option JsString}
    {matched : Option Session} : ∀ issue ∈ (createSessionAndTokens lib now user deviceInfo
      matched).issue, SignedFor lib issue := by
  rintro issue ⟨⟩
  exact ⟨now / 1000, rfl⟩

/-- A call that goes on keeps its tokens, or signs new ones. -/
theorem signedFor_proceed {now : ℕ} {stage : AuthStage} {answer : AuthAnswer}
    (h : ∀ issue ∈ stage.issue, SignedFor lib issue) :
    ∀ issue ∈ (stage.proceed lib now answer).issue, SignedFor lib issue := by
  have hmatch : ∀ (refreshToken : JsString) (user : User) (sessions : List Session),
      (matchSessions refreshToken user sessions).issue = none := by
    rintro refreshToken user (_ | ⟨session, rest⟩) <;> rfl
  have hnone : ∀ {next : AuthNext}, next.issue = none →
      ∀ issue ∈ next.issue, SignedFor lib issue := by
    intro next hnext issue hissue
    rw [hnext] at hissue
    cases hissue
  cases stage with
  | registerFind | registerInsert | loginCompare =>
    rw [AuthStage.proceed]
    split
    all_goals first
      | exact signedFor_createSessionAndTokens
      | exact hnone rfl
  | loginFind | refreshFind =>
    rw [AuthStage.proceed]
    split <;> exact hnone rfl
  | refreshSessions => exact hnone (hmatch _ _ _)
  | refreshCompare =>
    rw [AuthStage.proceed]
    split
    · exact signedFor_createSessionAndTokens
    · exact hnone (hmatch _ _ _)
  | sessionInsert user deviceInfo tokens matched hashedRefresh => cases matched <;> exact h
  | registerHash | logout => exact hnone rfl
  | sessionHash | refreshRevoke => exact h

theorem issue_start (now : ℕ) (request : AuthRequest) : (request.start lib now).issue = none := by
  cases request with
  | register | login | logout => rfl
  | refresh refreshToken =>
    rw [AuthRequest.start]
    split
    · rfl
    · split <;> rfl

namespace AuthSystem

variable {a b : AuthSystem} {e : AuthEvent}

/-- What has been handed out, and what calls are about to hand out, is signed for the user. -/
structure AllSigned (lib : AuthLibraries) (a : AuthSystem) : Prop where
  log : a.Signed lib
  calls : ∀ call ∈ a.calls, ∀ issue ∈ call.state.issue, SignedFor lib issue

theorem signed_append_handsOut {c : ℕ} {next : AuthNext} (h : a.Signed lib)
    (hnext : ∀ issue ∈ next.issue, SignedFor lib issue) {issuer : Option ℕ} {user : User}
    {tokens : AuthTokens} (hmem : .returned issuer user tokens ∈ a.log ++ next.handsOut c) :
    ∃ iat, tokens = lib.tokens user iat := by
  rw [List.mem_append] at hmem
  rcases hmem with hmem | hmem
  · exact h issuer user tokens hmem
  · rcases next with stage | (_ | ⟨user', tokens'⟩) | _
    case returned.some =>
      obtain ⟨-, rfl, rfl⟩ := AuthObservation.returned.inj (List.mem_singleton.mp hmem)
      exact hnext _ rfl
    all_goals cases hmem

/-- **Step lemma.** -/
theorem AllSigned.step (h : a.AllSigned lib) (hstep : a.step lib e = some b) :
    b.AllSigned lib := by
  have hset : ∀ {c : ℕ} {call : AuthCall} {state : AuthCallState},
      (∀ issue ∈ state.issue, SignedFor lib issue) →
      ∀ call' ∈ a.calls.set c { call with state := state }, ∀ issue ∈ call'.state.issue,
        SignedFor lib issue := by
    intro c call state hstate call' hcall'
    rcases List.mem_or_eq_of_mem_set hcall' with hcall' | rfl
    · exact h.calls call' hcall'
    · exact hstate
  cases e with
  | tick ms =>
    obtain rfl := Option.some.inj hstep
    exact ⟨h.log, h.calls⟩
  | call nodeId request =>
    obtain rfl := Option.some.inj hstep
    have hstart : ∀ issue ∈ (request.start lib a.db.now).issue, SignedFor lib issue := by
      rw [issue_start]
      rintro issue ⟨⟩
    refine ⟨fun issuer user tokens ↦ signed_append_handsOut h.log hstart, fun call hcall ↦ ?_⟩
    rcases List.mem_append.mp hcall with hcall | hcall
    · exact h.calls call hcall
    · obtain rfl := List.mem_singleton.mp hcall
      rwa [AuthNext.issue_state]
  | settle c fate fresh salt =>
    obtain ⟨call, hcall, hstep⟩ := Option.bind_eq_some_iff.mp hstep
    rcases hstate : call.state with ⟨stage, _ | settled⟩ | result | _
    case awaiting.none =>
      simp only [hstate, Option.pure_def, Option.some.injEq] at hstep
      have hstage : ∀ issue ∈ stage.issue, SignedFor lib issue := by
        have hold := h.calls call (List.mem_of_getElem? hcall)
        rwa [hstate] at hold
      have hlog : ∀ users : List User, Signed lib
          { a with log := a.log ++ users.map (.userInserted c) } := by
        intro users issuer user tokens hmem
        exact h.log issuer user tokens
          ((List.mem_append.mp hmem).resolve_right (returned_notMem_inserted users))
      subst hstep
      unfold AuthSystem.settle
      dsimp only
      split
      · exact ⟨hlog _, hset hstage⟩
      · exact ⟨hlog _, hset hstage⟩
      · exact ⟨h.log, hset hstage⟩
    all_goals simp only [hstate, reduceCtorEq] at hstep
  | resume c =>
    obtain ⟨call, hcall, hstep⟩ := Option.bind_eq_some_iff.mp hstep
    rcases hstate : call.state with ⟨stage, _ | settled⟩ | result | _
    case awaiting.some =>
      simp only [hstate, Option.pure_def, Option.some.injEq] at hstep
      have hnext : ∀ issue ∈ (stage.resume lib a.db.now settled).issue, SignedFor lib issue := by
        cases settled with
        | none => rintro issue ⟨⟩
        | some answer =>
          have hold := h.calls call (List.mem_of_getElem? hcall)
          rw [hstate] at hold
          exact signedFor_proceed hold
      subst hstep
      refine ⟨fun issuer user tokens ↦ signed_append_handsOut h.log hnext, hset ?_⟩
      rwa [AuthNext.issue_state]
    all_goals simp only [hstate, reduceCtorEq] at hstep

theorem allSigned_start (lib : AuthLibraries) (db : AuthDb) (before : List (User × ℕ)) :
    (start lib db before).AllSigned lib := by
  refine ⟨fun issuer user tokens hmem ↦ ?_, by rintro call ⟨⟩⟩
  obtain ⟨issue, -, hissue⟩ := List.mem_map.mp hmem
  obtain ⟨-, rfl, rfl⟩ := AuthObservation.returned.inj hissue
  exact ⟨issue.2, rfl⟩

end AuthSystem

end

/-! ## Who is accepted -/

/-- A token that was signed verifies with its secret until it expires, and with no other. -/
structure AuthLibraries.Verifies (lib : AuthLibraries) : Prop where
  accepts : ∀ secret payload iat expiresIn now,
    lib.verify secret (lib.sign secret payload iat expiresIn) now =
      if now < iat + expiresIn then some payload else none
  rejects : ∀ secret secret' payload iat expiresIn now, secret ≠ secret' →
    lib.verify secret' (lib.sign secret payload iat expiresIn) now = none

/-- An access token that has been handed out verifies until it expires, and says whose it is; a
refresh token does not verify. -/
theorem AuthSystem.issued_of_verify {lib : AuthLibraries} {a : AuthSystem}
    (hverifies : lib.Verifies) (hsecrets : lib.refreshSecret ≠ lib.accessSecret)
    (hsigned : a.Signed lib) {token : JsString} {now : ℕ} {payload : JwtPayload}
    (hissued : token ∈ a.log.flatMap AuthObservation.texts)
    (hverify : lib.verify lib.accessSecret token now = some payload) :
    ∃ issuer user iat, .returned issuer user (lib.tokens user iat) ∈ a.log ∧
      token = lib.signAccessToken user iat ∧ now < iat + accessTokenTtlSeconds ∧
      payload = accessPayload user := by
  obtain ⟨o, ho, htext⟩ := List.mem_flatMap.mp hissued
  cases o with
  | userInserted => cases htext
  | returned issuer user tokens =>
    obtain ⟨iat, rfl⟩ := hsigned issuer user tokens ho
    rcases List.mem_pair.mp htext with rfl | rfl
    · have haccess := (hverifies.accepts _ _ _ _ _).symm.trans hverify
      rw [Option.ite_none_right_eq_some] at haccess
      exact ⟨issuer, user, iat, ho, rfl, haccess.1, (Option.some.inj haccess.2).symm⟩
    · have hrefresh := (hverifies.rejects _ _ _ _ _ _ hsecrets).symm.trans hverify
      cases hrefresh

/-- A token that the request shows verifies only if it has been handed out. -/
def IncomingMessage.Unforged (lib : AuthLibraries) (a : AuthSystem) (req : IncomingMessage) :
    Prop :=
  ∀ token ∈ req.token, (lib.verify lib.accessSecret token (a.db.now / 1000)).isSome = true →
    token ∈ a.log.flatMap AuthObservation.texts

/-- **Connections.** In every run of `register`, `login`, `refresh` and `logout`, a connection is
accepted exactly if it shows an access token that has been handed out and has not expired, and then
as the user for whom the token was handed out. -/
theorem Node.handleConnection_iff {lib : AuthLibraries} (hverifies : lib.Verifies)
    (hsecrets : lib.refreshSecret ≠ lib.accessSecret) {db : AuthDb} {before : List (User × ℕ)}
    {es : List AuthEvent} {a : AuthSystem}
    (hrun : run (AuthSystem.step lib) (AuthSystem.start lib db before) es = some a)
    {req : IncomingMessage} (hunforged : req.Unforged lib a) {n n' : Node} :
    n.handleConnection lib (a.db.now / 1000) req = some n' ↔
      ∃ issuer user iat, .returned issuer user (lib.tokens user iat) ∈ a.log ∧
        req.token = some (lib.signAccessToken user iat) ∧
        a.db.now / 1000 < iat + accessTokenTtlSeconds ∧
        n.step (.connect user.id.text) = some n' := by
  have hsigned := (run_invariant (AuthSystem.AllSigned lib) AuthSystem.AllSigned.step
    (AuthSystem.allSigned_start lib db before) hrun).log
  constructor
  · intro hconnect
    obtain ⟨userId, hauth, hstep⟩ := Option.bind_eq_some_iff.mp hconnect
    obtain ⟨token, htoken, hauth⟩ := Option.bind_eq_some_iff.mp hauth
    obtain ⟨payload, hverify, hsub⟩ := Option.bind_eq_some_iff.mp hauth
    obtain rfl := Option.some.inj hsub
    obtain ⟨issuer, user, iat, hissue, rfl, hfresh, rfl⟩ :=
      AuthSystem.issued_of_verify hverifies hsecrets hsigned
        (hunforged token htoken (Option.isSome_of_eq_some hverify)) hverify
    exact ⟨issuer, user, iat, hissue, htoken, hfresh, hstep⟩
  · rintro ⟨issuer, user, iat, -, htoken, hfresh, hstep⟩
    have hverify : lib.verify lib.accessSecret (lib.signAccessToken user iat) (a.db.now / 1000) =
        some (accessPayload user) := (hverifies.accepts _ _ _ _ _).trans (if_pos hfresh)
    rw [Node.handleConnection, authenticate, htoken, Option.bind_eq_bind, Option.bind_eq_bind,
      Option.bind_some, hverify]
    exact hstep

/-! ## Examples -/

/-- A URL with a version and a token that has to be escaped; the header does not count. -/
theorem token_of_writeQuery_escaped :
    IncomingMessage.token ⟨some (.lit "/ws?v=2&token=a%20%2B%C3%A9"), some (.lit "Bearer b")⟩ =
      some (.lit "a +é") :=
  (@token_of_writeQuery [(.lit "v", .lit "2"), (tokenName, .lit "a +é")] (.lit "/ws")
    (.lit "v=2&token=a%20%2B%C3%A9") _ (by decide) (by decide) (by decide) (by decide) _).mpr
      ⟨by decide, Or.inl (by decide)⟩

namespace AuthLibraries

/-- Tokens in the clear that expire. -/
def dated : AuthLibraries where
  accessSecret := [0x61]
  refreshSecret := [0x72]
  sign secret payload iat expiresIn :=
    frame secret ++ (frame payload.sub ++ (frame payload.username ++
      (frame (JsNumber.decimal (iat + expiresIn)) ++ (payload.type.map frame).getD [])))
  verify secret token now :=
    match unframe token with
    | signer :: sub :: username :: expires :: type =>
      if signer = secret ∧ now < JsNumber.digitsValue expires then
        some ⟨sub, username, type.head?⟩
      else none
    | _ => none
  hash _ plain := plain
  compare plain hashed := plain = hashed

theorem dated_verifies : dated.Verifies := by
  have hread : ∀ secret secret' payload iat expiresIn now,
      dated.verify secret' (dated.sign secret payload iat expiresIn) now =
        if secret = secret' ∧ now < iat + expiresIn then some payload else none := by
    rintro secret secret' ⟨sub, username, type⟩ iat expiresIn now
    have htype : (unframe ((type.map frame).getD [])).head? = type := by
      cases type with
      | none => rfl
      | some type =>
        have := unframe_frame type []
        rw [List.append_nil] at this
        rw [Option.map_some, Option.getD_some, this, List.head?_cons]
    simp only [dated, unframe_frame, JsNumber.digitsValue_decimal, htype]
  refine ⟨fun secret payload iat expiresIn now ↦ ?_, fun secret secret' payload iat expiresIn now
    hne ↦ ?_⟩
  · simp only [hread, true_and]
  · rw [hread, if_neg fun h ↦ hne h.1]

end AuthLibraries

open AuthSystem in
/-- A user registers, and connects with the token while it is good. -/
theorem Node.handleConnection_iff_registered :
    ∃ a, run (AuthSystem.step .dated) (AuthSystem.start .dated {} [])
        (.call [] (.register alice.username alice.email alice.password) :: answers 0 5 .nil) =
          some a ∧
      ((Node.start []).handleConnection .dated (a.db.now / 1000)
        ⟨none, some (bearer ++ AuthLibraries.dated.signAccessToken alice 0)⟩).isSome = true := by
  refine exists_run_of_any (fun a : AuthSystem ↦ a.db.now = 0 ∧
    .returned (some 0) alice (AuthLibraries.dated.tokens alice 0) ∈ a.log) (by decide +kernel) ?_
  rintro a hrun ⟨hnow, hlog⟩
  have htoken : IncomingMessage.token
      ⟨none, some (bearer ++ AuthLibraries.dated.signAccessToken alice 0)⟩ =
        some (AuthLibraries.dated.signAccessToken alice 0) := by decide +kernel
  have hunforged : IncomingMessage.Unforged .dated a
      ⟨none, some (bearer ++ AuthLibraries.dated.signAccessToken alice 0)⟩ := by
    intro token hshown _
    rw [htoken] at hshown
    obtain rfl := Option.some.inj hshown
    exact List.mem_flatMap.mpr ⟨_, hlog, List.mem_cons_self⟩
  have hstep : ((Node.start []).step (.connect alice.id.text)).isSome = true := by decide
  obtain ⟨n', hstep⟩ := Option.isSome_iff_exists.mp hstep
  refine Option.isSome_of_eq_some ((Node.handleConnection_iff AuthLibraries.dated_verifies
    (by decide) hrun hunforged).mpr ⟨some 0, alice, 0, hlog, htoken, ?_, hstep⟩)
  rw [hnow]
  decide

end PostgresChat
