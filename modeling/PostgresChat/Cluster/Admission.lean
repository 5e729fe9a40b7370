import PostgresChat.Cluster.Provenance
import PostgresChat.Node.Handshake

/-!
# On whose behalf

The user id that a handler or a controller works with has been taken from a token: by the handshake
of the socket, or by `JwtAuthGuard` in front of the controllers. `Gateway` puts the authentication
service next to the nodes and controllers, so that a run interleaves the calls that hand out tokens
with everything that is done by showing one.

A user is `Admitted` in an event that shows a token for the user. What a row of the database says of
its author goes back to such an event (`Known`): the statement that has written the row belongs to a
request, the request to a socket or to a call, and these to a token.
-/

namespace PostgresChat

open Execution

/-! ## The authors of the rows -/

/-- The user in whose name a statement inserts or updates a row. -/
def Query.author : Query → Option UserId
  | .upsertPresence userId _ _ | .upsertTyping userId _
  | .insertMessage _ userId _ | .insertMember _ userId => some userId
  | _ => none

def DbEvent.author : DbEvent → Option UserId
  | .query q => q.author
  | .beginInsert _ userId _ => some userId
  | _ => none

/-- Every row, and every INSERT under way, is in the name of a user of `P`. -/
structure Db.Authored (P : UserId → Prop) (db : Db) : Prop where
  inserts : ∀ ins ∈ db.inserts, P ins.userId
  messages : ∀ row ∈ db.messages, P row.userId
  presence : ∀ row ∈ db.presence, P row.userId
  typing : ∀ row ∈ db.typing, P row.userId
  roomMembers : ∀ row ∈ db.roomMembers, P row.2

namespace Db

variable {db db' : Db} {d : DbEvent} {P P' : UserId → Prop}

theorem Authored.mono (h : db.Authored P) (hP : ∀ u, P u → P' u) : db.Authored P' :=
  ⟨fun ins hins ↦ hP _ (h.inserts ins hins), fun row hrow ↦ hP _ (h.messages row hrow),
    fun row hrow ↦ hP _ (h.presence row hrow), fun row hrow ↦ hP _ (h.typing row hrow),
    fun row hrow ↦ hP _ (h.roomMembers row hrow)⟩

theorem Authored.ran (h : db.Authored P) {q : Query} (hran : Ran db q db')
    (hauthor : ∀ u, q.author = some u → P u) : db'.Authored P := by
  cases hran with
  | selectMember | selectHistory => exact h
  | upsertPresence R u =>
    refine ⟨h.inserts, h.messages, fun row hrow ↦ ?_, h.typing, h.roomMembers⟩
    rcases List.mem_append.mp hrow with hrow | hrow
    · exact h.presence row (List.mem_of_mem_filter hrow)
    · obtain rfl := List.mem_singleton.mp hrow
      exact hauthor u rfl
  | deletePresence | deleteStalePresence =>
    exact ⟨h.inserts, h.messages, fun row hrow ↦ h.presence row (List.mem_of_mem_filter hrow),
      h.typing, h.roomMembers⟩
  | upsertTyping R u =>
    refine ⟨h.inserts, h.messages, h.presence, fun row hrow ↦ ?_, h.roomMembers⟩
    rcases List.mem_append.mp hrow with hrow | hrow
    · exact h.typing row (List.mem_of_mem_filter hrow)
    · obtain rfl := List.mem_singleton.mp hrow
      exact hauthor u rfl
  | deleteTyping =>
    exact ⟨h.inserts, h.messages, h.presence, fun row hrow ↦ h.typing row
      (List.mem_of_mem_filter hrow), h.roomMembers⟩
  | insertMember R u =>
    refine ⟨h.inserts, h.messages, h.presence, h.typing, fun row hrow ↦ ?_⟩
    rcases List.mem_insert_iff.mp hrow with rfl | hrow
    · exact hauthor u rfl
    · exact h.roomMembers row hrow
  | deleteMember =>
    exact ⟨h.inserts, h.messages, h.presence, h.typing, fun row hrow ↦ h.roomMembers row
      (List.mem_of_mem_filter hrow)⟩

/-- A step writes in the name of the user who asks for it, or of whoever has asked for an INSERT. -/
theorem Authored.step (h : db.Authored P) (hrecorded : db.Recorded) (hstep : db.step d = some db')
    (hauthor : ∀ u, d.author = some u → P u) : db'.Authored P := by
  cases did_of_step hstep with
  | tick | createUser | createRoom => exact ⟨h.inserts, h.messages, h.presence, h.typing,
      h.roomMembers⟩
  | query q _ ran => exact h.ran ran hauthor
  | beginInsert r u content =>
    refine ⟨fun ins hins ↦ ?_, h.messages, h.presence, h.typing, h.roomMembers⟩
    rcases List.mem_append.mp hins with hins | hins
    · exact h.inserts ins hins
    · obtain rfl := List.mem_singleton.mp hins
      exact hauthor u rfl
  | moved e t ins ins' get moves =>
    refine ⟨fun ins'' hins ↦ ?_, h.messages, h.presence, h.typing, h.roomMembers⟩
    rcases List.mem_or_eq_of_mem_set hins with hins | rfl
    · exact h.inserts ins'' hins
    · rw [moves.same.1]
      exact h.inserts ins (List.mem_of_getElem? get)
  | commit t ins row get stage =>
    have hins := h.inserts ins (List.mem_of_getElem? get)
    refine ⟨fun ins' hins' ↦ ?_, fun row' hrow ↦ ?_, h.presence, h.typing, h.roomMembers⟩
    · rcases List.mem_or_eq_of_mem_set hins' with hins' | rfl
      · exact h.inserts ins' hins'
      · exact hins
    · rcases List.mem_append.mp hrow with hrow | hrow
      · exact h.messages row' hrow
      · obtain rfl := List.mem_singleton.mp hrow
        have hparams := (hrecorded.accurate t ins get).params (by rw [Insert.row?, stage])
        exact hparams.2.2.1 ▸ hins

end Db

/-! ## The authors of the requests -/

/-- The user whom an event lets in. -/
def ClusterEvent.admits : ClusterEvent → Option UserId
  | .node _ (.connect userId) | .request userId _ => some userId
  | _ => none

namespace Cluster

variable {c c' : Cluster} {P P' : UserId → Prop} {q : RequestId} {u : UserId}

/-- A request writes in the name of its own user. -/
theorem user_of_waitsFor {stmt : Query} (h : c.waitsFor q = some stmt)
    (hauthor : stmt.author = some u) : c.user q = some u := by
  cases q with
  | frame i k =>
    simp only [waitsFor, Option.bind_eq_some_iff] at h
    obtain ⟨n, hn, task, htask, h⟩ := h
    rw [Task.statement] at h
    split at h
    · rename_i stage hstate
      have hgoing : task.state ≠ .ended := by
        rw [hstate]
        rintro ⟨⟩
      rw [user, hn, Option.bind_some, htask, Option.bind_some, if_neg hgoing]
      cases stage <;> cases h <;> cases hauthor <;> rfl
    · cases h
  | call k =>
    rw [waitsFor, query?, Option.bind_assoc, Option.bind_eq_some_iff] at h
    obtain ⟨call, hcall, h⟩ := h
    rw [HttpCall.statement] at h
    split at h
    · rename_i stage hstate
      rw [user, hcall, Option.bind_some, hstate]
      cases stage <;> cases h <;> cases hauthor <;> rfl
    · cases h

/-- The database writes in the name of a user who has a request in handling. -/
theorem user_of_dbEvent {e : ClusterEvent} (hstep : c.step e = some c') {d : DbEvent}
    (hd : c.dbEvent e = some d) (hauthor : d.author = some u) : ∃ q, c.user q = some u := by
  rcases waitsFor_of_dbEvent hstep hd with ⟨-, hunasked⟩ | ⟨q, stmt, -, hwaits, rfl | hinsert⟩
  · cases d with
    | query stmt =>
      obtain rfl : stmt = .deleteStalePresence := of_decide_eq_true hunasked
      cases hauthor
    | beginInsert => cases hunasked
    | _ => cases hauthor
  · exact ⟨q, user_of_waitsFor hwaits hauthor⟩
  · obtain ⟨R, u', content, r, rfl, -, rfl⟩ := insertMessage_of_insertEvent hinsert
    cases hauthor
    exact ⟨q, user_of_waitsFor hwaits rfl⟩

/-- Every socket, every request and every row is in the name of a user of `P`. -/
structure Known (P : UserId → Prop) (c : Cluster) : Prop where
  agrees : c.Agrees
  recorded : c.db.Recorded
  sockets : ∀ n ∈ c.nodes, ∀ u ∈ n.socketUsers, P u
  tasks : ∀ n ∈ c.nodes, ∀ task ∈ n.tasks, P task.userId
  calls : ∀ call ∈ c.calls, P call.userId
  db : c.db.Authored P

theorem known_start (nodeIds : List JsString) : Known P (start nodeIds) := by
  have hnodes : ∀ n ∈ (start nodeIds).nodes, ∃ nodeId, n = Node.start nodeId := by
    intro n hn
    obtain ⟨nodeId, -, rfl⟩ := List.mem_map.mp hn
    exact ⟨nodeId, rfl⟩
  refine ⟨agrees_start nodeIds, Db.recorded_empty, fun n hn ↦ ?_, fun n hn ↦ ?_,
    by rintro call ⟨⟩, ⟨by rintro ins ⟨⟩, by rintro row ⟨⟩, by rintro row ⟨⟩, by rintro row ⟨⟩,
      by rintro row ⟨⟩⟩⟩
  · obtain ⟨nodeId, rfl⟩ := hnodes n hn
    rintro u ⟨⟩
  · obtain ⟨nodeId, rfl⟩ := hnodes n hn
    rintro task ⟨⟩

theorem Known.user (h : c.Known P) (hq : c.user q = some u) : P u := by
  cases q with
  | frame i k =>
    obtain ⟨task, hget, hu⟩ := Option.bind_eq_some_iff.mp hq
    obtain ⟨n, hn, htask⟩ := Option.bind_eq_some_iff.mp hget
    rw [Option.ite_none_left_eq_some] at hu
    exact Option.some.inj hu.2 ▸ h.tasks n (List.mem_of_getElem? hn) task
      (List.mem_of_getElem? htask)
  | call k =>
    obtain ⟨call, hget, hu⟩ := Option.bind_eq_some_iff.mp hq
    split at hu <;> cases hu
    exact h.calls call (List.mem_of_getElem? hget)

theorem Known.mono (h : c.Known P) (hP : ∀ u, P u → P' u) : c.Known P' :=
  ⟨h.agrees, h.recorded, fun n hn u hu ↦ hP u (h.sockets n hn u hu),
    fun n hn task htask ↦ hP _ (h.tasks n hn task htask),
    fun call hcall ↦ hP _ (h.calls call hcall), h.db.mono hP⟩

/-- **Step lemma.** Whoever is let in is the only one who is new. -/
theorem Known.step (h : c.Known P) (hP : ∀ u, P u → P' u) {e : ClusterEvent}
    (hadmits : ∀ u, e.admits = some u → P' u) (hstep : c.step e = some c') : c'.Known P' := by
  refine ⟨h.agrees.step hstep, ?_, fun n' hn' ↦ ?_, fun n' hn' task' htask' ↦ ?_,
    fun call' hcall' ↦ ?_, ?_⟩
  · rcases db_of_step hstep with ⟨-, hdb⟩ | ⟨d, -, hdb⟩
    · exact hdb ▸ h.recorded
    · exact h.recorded.step hdb
  · obtain ⟨i, hget'⟩ := List.mem_iff_getElem?.mp hn'
    obtain ⟨n, hget, -, -, hmoves⟩ := h.agrees.node_cases hstep hget'
    have hold : ∀ u ∈ n.socketUsers, P' u := fun u hu ↦
      hP u (h.sockets n (List.mem_of_getElem? hget) u hu)
    rcases hmoves with rfl | ⟨e', rfl, hstep'⟩ | ⟨d, -, hstep'⟩
    · exact hold
    · by_cases hconnect : ∃ userId, e' = .connect userId
      · obtain ⟨userId, rfl⟩ := hconnect
        rw [Node.socketUsers_of_connect hstep', List.forall_mem_append, List.forall_mem_singleton]
        exact ⟨hold, hadmits userId rfl⟩
      · rwa [Node.socketUsers_of_other_step (fun userId h ↦ hconnect ⟨userId, h⟩) hstep']
    · rwa [Node.socketUsers_of_other_step (fun userId h ↦ by cases h) hstep']
  · obtain ⟨i, hget'⟩ := List.mem_iff_getElem?.mp hn'
    obtain ⟨n, hget, -, -, hmoves⟩ := h.agrees.node_before hstep hget'
    have hn := List.mem_of_getElem? hget
    rcases hmoves with rfl | ⟨e', hstep'⟩
    · exact hP _ (h.tasks n' hn task' htask')
    · obtain ⟨k, hk⟩ := List.mem_iff_getElem?.mp htask'
      rcases Node.task_of_step hstep' hk with
        ⟨task, htask, -, hu, -⟩ | ⟨s, socket, frame, -, hsocket, -, rfl⟩
      · exact hu ▸ hP _ (h.tasks n hn task (List.mem_of_getElem? htask))
      · exact hP _ (h.sockets n hn _ (List.mem_map_of_mem (List.mem_of_getElem? hsocket)))
  · obtain ⟨k, hk⟩ := List.mem_iff_getElem?.mp hcall'
    rcases call_of_step hstep hk with ⟨call, hcall, hu, -⟩ | ⟨userId, request, rfl, -, rfl⟩
    · exact hu ▸ hP _ (h.calls call (List.mem_of_getElem? hcall))
    · exact hadmits userId rfl
  · rcases db_of_step hstep with ⟨-, hdb⟩ | ⟨d, hd, hdb⟩
    · exact hdb ▸ h.db.mono hP
    · refine (h.db.step h.recorded hdb fun u hauthor ↦ ?_).mono hP
      obtain ⟨q, hq⟩ := user_of_dbEvent hstep hd hauthor
      exact h.user hq

end Cluster

/-! ## The gateway -/

/-- The authentication service, and the nodes and controllers. -/
structure Gateway where
  auth : AuthSystem
  cluster : Cluster

/-- What can happen next. -/
inductive GatewayEvent where
  | auth (e : AuthEvent)
  /-- A client connects to node `i`. -/
  | connect (i : ℕ) (req : IncomingMessage)
  /-- A client calls a controller. -/
  | request (req : IncomingMessage) (request : HttpRequest)
  | cluster (e : ClusterEvent)

namespace Gateway

section

variable (lib : AuthLibraries)
  -- `ExtractJwt.fromAuthHeaderAsBearerToken()` of passport-jwt, applied to the header.
  (fromAuthHeaderAsBearerToken : Option JsString → Option JsString)

/-- The token that a client shows. -/
def shown : GatewayEvent → Option JsString
  | .connect _ req => req.token
  | .request req _ => fromAuthHeaderAsBearerToken req.authorization
  | .auth _ | .cluster _ => none

/-- `JwtAuthGuard`: the claims that it puts into the request, `none` when it answers 401. -/
def jwtAuthGuard (now : ℕ) (req : IncomingMessage) : Option JwtPayload := do
  let token ← fromAuthHeaderAsBearerToken req.authorization
  lib.verify lib.accessSecret token now

/-- The user as whom a client is let in. -/
def entrant (g : Gateway) : GatewayEvent → Option UserId
  | .connect _ req => authenticate lib (g.auth.db.now / 1000) req
  | .request req _ => (jwtAuthGuard lib fromAuthHeaderAsBearerToken (g.auth.db.now / 1000) req).map
      JwtPayload.sub
  | .auth _ | .cluster _ => none

/-- The step of an event. Nobody is let in but by a token. -/
def step (g : Gateway) (e : GatewayEvent) : Option Gateway :=
  match e with
  | .auth e => (g.auth.step lib e).map fun auth ↦ { g with auth := auth }
  | .connect i _ => do
    let userId ← g.entrant lib fromAuthHeaderAsBearerToken e
    let cluster ← g.cluster.step (.node i (.connect userId))
    return { g with cluster := cluster }
  | .request _ request => do
    let userId ← g.entrant lib fromAuthHeaderAsBearerToken e
    let cluster ← g.cluster.step (.request userId request)
    return { g with cluster := cluster }
  | .cluster e => do
    guard (e.admits = none)
    let cluster ← g.cluster.step e
    return { g with cluster := cluster }

/-- A token that is shown verifies only if it has been handed out. -/
def Unforged (g : Gateway) (e : GatewayEvent) : Prop :=
  ∀ token ∈ shown fromAuthHeaderAsBearerToken e,
    (lib.verify lib.accessSecret token (g.auth.db.now / 1000)).isSome = true →
      token ∈ g.auth.log.flatMap AuthObservation.texts

/-- The event shows an access token that has been handed out for the user and is still good. -/
def Admitted (u : UserId) (g : Gateway) (e : GatewayEvent) : Prop :=
  ∃ issuer user iat, .returned issuer user (lib.tokens user iat) ∈ g.auth.log ∧
    user.id.text = u ∧ g.auth.db.now / 1000 < iat + accessTokenTtlSeconds ∧
    shown fromAuthHeaderAsBearerToken e = some (lib.signAccessToken user iat)

end

/-- No call has been made, nobody is connected, and the tokens that `before` lists have been handed
out. -/
def start (lib : AuthLibraries) (db : AuthDb) (before : List (User × ℕ))
    (nodeIds : List JsString) : Gateway := ⟨.start lib db before, .start nodeIds⟩

variable {lib : AuthLibraries} {fromAuthHeaderAsBearerToken : Option JsString → Option JsString}
  {g g' : Gateway} {e : GatewayEvent} {u : UserId}

/-- Whoever is let in has shown a token that verifies. -/
theorem shown_of_entrant (h : g.entrant lib fromAuthHeaderAsBearerToken e = some u) :
    ∃ token payload, shown fromAuthHeaderAsBearerToken e = some token ∧
      lib.verify lib.accessSecret token (g.auth.db.now / 1000) = some payload ∧
      payload.sub = u := by
  cases e with
  | connect i req =>
    obtain ⟨token, htoken, h⟩ := Option.bind_eq_some_iff.mp h
    obtain ⟨payload, hverify, hsub⟩ := Option.bind_eq_some_iff.mp h
    exact ⟨token, payload, htoken, hverify, Option.some.inj hsub⟩
  | request req request =>
    obtain ⟨payload, h, hsub⟩ := Option.map_eq_some_iff.mp h
    obtain ⟨token, htoken, hverify⟩ := Option.bind_eq_some_iff.mp h
    exact ⟨token, payload, htoken, hverify, hsub⟩
  | auth | cluster => cases h

theorem admitted_of_entrant (hverifies : lib.Verifies)
    (hsecrets : lib.refreshSecret ≠ lib.accessSecret) (hsigned : g.auth.Signed lib)
    (hunforged : g.Unforged lib fromAuthHeaderAsBearerToken e)
    (h : g.entrant lib fromAuthHeaderAsBearerToken e = some u) :
    g.Admitted lib fromAuthHeaderAsBearerToken u e := by
  obtain ⟨token, payload, htoken, hverify, rfl⟩ := shown_of_entrant h
  obtain ⟨issuer, user, iat, hissue, rfl, hfresh, rfl⟩ :=
    AuthSystem.issued_of_verify hverifies hsecrets hsigned
      (hunforged token htoken (Option.isSome_of_eq_some hverify)) hverify
  exact ⟨issuer, user, iat, hissue, rfl, hfresh, htoken⟩

/-- The invariant. -/
structure Accountable (lib : AuthLibraries) (P : UserId → Prop) (g : Gateway) : Prop where
  signed : g.auth.AllSigned lib
  known : g.cluster.Known P

/-- **Step lemma.** -/
theorem Accountable.step {P : UserId → Prop} (hverifies : lib.Verifies)
    (hsecrets : lib.refreshSecret ≠ lib.accessSecret) (h : g.Accountable lib P)
    (hunforged : g.Unforged lib fromAuthHeaderAsBearerToken e)
    (hstep : g.step lib fromAuthHeaderAsBearerToken e = some g') :
    g'.Accountable lib fun u ↦ P u ∨ g.Admitted lib fromAuthHeaderAsBearerToken u e := by
  have hentrant : ∀ {userId : UserId}, g.entrant lib fromAuthHeaderAsBearerToken e = some userId →
      ∀ {ce : ClusterEvent}, ce.admits = some userId → ∀ {cluster : Cluster},
      g.cluster.step ce = some cluster →
      cluster.Known fun u ↦ P u ∨ g.Admitted lib fromAuthHeaderAsBearerToken u e := by
    intro userId hu ce hce cluster hcluster
    refine h.known.step (fun _ ↦ Or.inl) (fun u hadmits ↦ ?_) hcluster
    obtain rfl := Option.some.inj (hce.symm.trans hadmits)
    exact Or.inr (admitted_of_entrant hverifies hsecrets h.signed.log hunforged hu)
  cases e with
  | auth e =>
    obtain ⟨auth, hauth, rfl⟩ := Option.map_eq_some_iff.mp hstep
    exact ⟨h.signed.step hauth, h.known.mono fun _ ↦ Or.inl⟩
  | connect i req =>
    simp only [Gateway.step, Option.bind_eq_bind, Option.bind_eq_some_iff] at hstep
    obtain ⟨userId, hu, cluster, hcluster, hstep⟩ := hstep
    obtain rfl := Option.some.inj hstep
    exact ⟨h.signed, hentrant hu rfl hcluster⟩
  | request req request =>
    simp only [Gateway.step, Option.bind_eq_bind, Option.bind_eq_some_iff] at hstep
    obtain ⟨userId, hu, cluster, hcluster, hstep⟩ := hstep
    obtain rfl := Option.some.inj hstep
    exact ⟨h.signed, hentrant hu rfl hcluster⟩
  | cluster ce =>
    simp only [Gateway.step, Option.bind_eq_bind, Option.bind_eq_some_iff,
      Option.guard_eq_some'] at hstep
    obtain ⟨-, hadmits, cluster, hcluster, hstep⟩ := hstep
    obtain rfl := Option.some.inj hstep
    refine ⟨h.signed, h.known.step (fun _ ↦ Or.inl) (fun u hu ↦ ?_) hcluster⟩
    rw [hadmits] at hu
    cases hu

/-- **On whose behalf.** In every run of the authentication service, any number of nodes and the
controllers, in which no token is forged: whoever is connected, and whoever is named in a row of
`messages`, `presence`, `typing` or `room_members`, has been let in by an access token that had been
handed out for this user and was still good when it was shown. -/
theorem rows_of_token_holders (hverifies : lib.Verifies)
    (hsecrets : lib.refreshSecret ≠ lib.accessSecret) {db : AuthDb} {before : List (User × ℕ)}
    {nodeIds : List JsString} {es : List GatewayEvent}
    (hguard : Guarded (step lib fromAuthHeaderAsBearerToken)
      (Unforged lib fromAuthHeaderAsBearerToken) (start lib db before nodeIds) es)
    (hrun : run (step lib fromAuthHeaderAsBearerToken) (start lib db before nodeIds) es = some g) :
    (∀ n ∈ g.cluster.nodes, ∀ socket ∈ n.sockets,
        Happened (step lib fromAuthHeaderAsBearerToken)
          (Admitted lib fromAuthHeaderAsBearerToken socket.userId)
          (start lib db before nodeIds) es) ∧
      g.cluster.db.Authored fun u ↦ Happened (step lib fromAuthHeaderAsBearerToken)
        (Admitted lib fromAuthHeaderAsBearerToken u) (start lib db before nodeIds) es := by
  have h := guarded_happened_invariant (Admitted lib fromAuthHeaderAsBearerToken)
    (Accountable lib) (fun h hunforged hstep ↦ h.step hverifies hsecrets hunforged hstep)
    ⟨AuthSystem.allSigned_start lib db before, Cluster.known_start nodeIds⟩ hguard hrun
  exact ⟨fun n hn socket hsocket ↦ h.known.sockets n hn _ (List.mem_map_of_mem hsocket),
    h.known.db⟩

/-! ## Examples -/

instance (lib : AuthLibraries) (fromAuthHeaderAsBearerToken : Option JsString → Option JsString)
    (g : Gateway) (e : GatewayEvent) : Decidable (g.Unforged lib fromAuthHeaderAsBearerToken e) :=
  inferInstanceAs (Decidable (∀ token ∈ shown fromAuthHeaderAsBearerToken e,
    (lib.verify lib.accessSecret token (g.auth.db.now / 1000)).isSome = true →
      token ∈ g.auth.log.flatMap AuthObservation.texts))

open AuthSystem (alice answers)

/-- What follows `Bearer `. -/
def bearerToken (header : Option JsString) : Option JsString :=
  (header.filter bearer.isPrefixOf).map fun header ↦ header.drop bearer.length

/-- A user registers, joins a room, connects and posts a message. -/
def registersAndPosts : List GatewayEvent :=
  (.call [] (.register alice.username alice.email alice.password) ::
    answers 0 5 .nil).map .auth ++
  [.cluster (.db (.createUser alice.id.text alice.username)), .cluster (.db (.createRoom .nil)),
    .request ⟨none, some (bearer ++ AuthLibraries.dated.signAccessToken alice 0)⟩
      (.join Uuid.nil.text),
    .cluster (.runStatement 0 .answered), .cluster (.resume 0),
    .cluster (.runStatement 0 .answered),
    .connect 0 ⟨none, some (bearer ++ AuthLibraries.dated.signAccessToken alice 0)⟩] ++
  [Cluster.sendsFrame, .runQuery 0 .answered, .resume 0, .beginInsert 0].map
    (.cluster ∘ .node 0) ++
  [.assignSequence 0, .setUsername 0, .store 0, .commit 0].map (.cluster ∘ .db)

theorem rows_of_token_holders_registersAndPosts :
    ∃ g, run (step .dated bearerToken) (start .dated {} [] [[0x6E]]) registersAndPosts = some g ∧
      g.cluster.db.messages.map MessageRow.content = [[0x68]] ∧
      g.cluster.db.Authored fun u ↦ Happened (step .dated bearerToken)
        (Admitted .dated bearerToken u) (start .dated {} [] [[0x6E]]) registersAndPosts := by
  refine exists_run_of_any (fun g : Gateway ↦
    g.cluster.db.messages.map MessageRow.content = [[0x68]]) (by decide +kernel) ?_
  exact fun g hrun hcontent ↦ ⟨hcontent, (rows_of_token_holders AuthLibraries.dated_verifies
    (by decide) (by decide +kernel) hrun).2⟩

end Gateway

end PostgresChat
