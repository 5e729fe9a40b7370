import PostgresChat.Node.Identifiers
import PostgresChat.Node.Joining
import PostgresChat.Node.Recipients

/-!
# The spelling of a room id

The database compares room ids as UUIDs, and the triggers name a room by the text that PostgreSQL
prints. The node compares room ids as strings: the key of `roomSockets`, the key of the counts and
the channel are made of the text in the frame, which the validator has trimmed and nothing else. A
member who spells the room in another way that PostgreSQL reads is found to be a member, is
subscribed to a channel on which nothing is ever notified, and is told that it has joined.
-/

namespace PostgresChat

open Execution

/-- The room a notification is about. -/
def Notification.roomId : Notification → Uuid
  | .message row => row.roomId
  | .presence row => row.roomId
  | .typing row => row.roomId

/-- The key under which the listeners of `ChatWsService` look for the sockets of a notification. -/
def Notification.key : Notification → RoomId
  | .message row => (Notification.message row).channel.drop roomChannelPrefix.length
  | .presence row => row.roomId.text
  | .typing row => row.roomId.text

theorem Notification.key_eq (note : Notification) : note.key = note.roomId.text := by
  cases note with
  | message row => exact drop_getRoomNotifyChannel _
  | presence row => rfl
  | typing row => rfl

namespace Node

variable {n n' : Node} {s : SocketId} {payload payload' : JoinRoomPayload} {r : Uuid}

/-! ## The property -/

/-- The frame of a join, the answer to its query, and its continuation. -/
def joining (n : Node) (s : SocketId) (payload : JoinRoomPayload) : List Event :=
  [.frame s (.joinRoom payload), .runQuery n.tasks.length .answered, .resume n.tasks.length]

/-- Whoever joins room `r` with this payload joins it under the text of `r`. -/
structure JoinsUnderText (payload : JoinRoomPayload) (r : Uuid) : Prop where
  /-- The socket is stored under the text. -/
  stored : ∀ {nodeId es n}, run step (start nodeId) es = some n → ∀ s n',
    n.step (.frame s (.joinRoom payload)) = some n' →
    n'.roomSockets = n.roomSockets.set r.text ((n.socketsOf r.text).add s)
  /-- When the handler has found the user to be a member, it subscribes to the room's channel. -/
  subscribed : ∀ {nodeId es n}, run step (start nodeId) es = some n → ∀ k task n',
    n.tasks[k]? = some task → task.state.found = some payload.roomId →
    n.step (.resume k) = some n' → n'.pg = n.pg.subscribeToRoomChannel r.text
  /-- A socket that is told it has joined, and has not been taken out since, is where the listeners
  look for the sockets of a notification of the room. -/
  reachable : ∀ {nodeId es n}, run step (start nodeId) es = some n → ∀ k s,
    .replied k s (.joinedRoom payload.roomId) ∈ n.log → Requested n.log s payload.roomId →
    ∀ note : Notification, note.roomId = r → s ∈ n.socketsOf note.key

/-- From any reachable state the two joins lead to the same rooms and to the same state of the
LISTEN connection. -/
def SameState (payload payload' : JoinRoomPayload) : Prop :=
  ∀ {nodeId es n}, run step (start nodeId) es = some n → ∀ s n₁ n₂,
    run step n (n.joining s payload) = some n₁ → run step n (n.joining s payload') = some n₂ →
    n₁.roomSockets = n₂.roomSockets ∧ n₁.pg = n₂.pg

/-! ## One join -/

theorem rooms_of_join (hstep : n.step (.frame s (.joinRoom payload)) = some n') :
    n'.roomSockets = n.roomSockets.set payload.roomId ((n.socketsOf payload.roomId).add s) := by
  obtain ⟨socket, -, -, hreceived⟩ := received_of_step hstep
  exact hreceived.rooms

/-- A handler that has found its row subscribes. -/
theorem pg_of_found {k : ℕ} {task : Task} {R : RoomId} (hget : n.tasks[k]? = some task)
    (hfound : task.state.found = some R) (hstep : n.step (.resume k) = some n') :
    n'.pg = n.pg.subscribeToRoomChannel R := by
  obtain ⟨task', stage, settled, hresumed⟩ := resumed_of_step hstep
  obtain rfl := Option.some.inj (hget.symm.trans hresumed.get)
  obtain ⟨promise, hstate, hsettled⟩ := hresumed.awaiting
  obtain ⟨-, -, hpg, -⟩ := observeCheck_frame n k stage settled
  rw [hresumed.turned.pg, hpg]
  rw [hstate] at hfound
  cases stage with
  | joinMember R' lastSeenSeq =>
    cases promise with
    | settled settled' =>
      obtain rfl : settled' = settled := Option.some.inj hsettled
      cases settled' with
      | resolved result =>
        simp only [TaskState.found, Option.ite_none_left_eq_some, Option.some.injEq] at hfound
        obtain ⟨hrows, rfl⟩ := hfound
        rw [Stage.resume, Stage.proceed, if_neg hrows]
        rfl
      | rejected => cases hfound
    | query => cases hfound
    | inserting t => cases hfound
    | call id => cases hfound
  | _ => cases hfound

/-- What an answered query on `room_members` settles its promise to. -/
def memberAnswer (db : Db) (R : RoomId) (userId : UserId) : Settled :=
  match db.exec (.selectMember R userId) with
  | some (_, result, _) => .resolved result
  | none => .rejected

/-- It changes nothing but the promise. -/
theorem runQuery_selectMember (n : Node) (k : ℕ) (task : Task) (stage : Stage) (R : RoomId)
    (userId : UserId) :
    n.runQuery k task stage (.selectMember R userId) .answered =
      n.setPromise k task stage (.settled (memberAnswer n.db R userId)) := by
  rw [runQuery.eq_def, memberAnswer]
  cases hexec : n.db.exec (.selectMember R userId) with
  | none => rfl
  | some found =>
    simp only [Db.exec, Option.bind_eq_bind, Option.bind_eq_some_iff] at hexec
    obtain ⟨r, -, hexec⟩ := hexec
    cases hexec
    rfl

/-- What a join that is answered without delay makes of the LISTEN connection. -/
def pgAfterJoin (n : Node) (userId : UserId) (R : RoomId) : PostgresService :=
  match memberAnswer n.db R userId with
  | .resolved result => if result.rowCount = 0 then n.pg else n.pg.subscribeToRoomChannel R
  | .rejected => n.pg

/-- The room id is all of a payload that matters to rooms and the LISTEN connection. -/
theorem joined_of_run (hrun : run step n (n.joining s payload) = some n') :
    ∃ socket, n.sockets[s]? = some socket ∧
      n'.roomSockets = n.roomSockets.set payload.roomId ((n.socketsOf payload.roomId).add s) ∧
      n'.pg = n.pgAfterJoin socket.userId payload.roomId := by
  obtain ⟨n₁, hframe, hrun⟩ := run_cons_eq_some.mp hrun
  obtain ⟨n₂, hquery, hrun⟩ := run_cons_eq_some.mp hrun
  obtain ⟨_, hresume, hlast⟩ := run_cons_eq_some.mp hrun
  cases hlast
  have hrooms := rooms_of_join hframe
  obtain ⟨socket, hsocket, -, hreceived⟩ := received_of_step hframe
  refine ⟨socket, hsocket, ?_⟩
  have hfirst : firstState socket.userId (.joinRoom payload) =
      .awaiting (.joinMember payload.roomId payload.lastSeenSeq) .query := by
    rw [firstState, handleFrame, if_neg socket.userId_ne_nil]
    rfl
  obtain ⟨task, stage, q, hget, hstate, hrequest, hn₂⟩ := ran_of_step hquery
  rw [hreceived.tasks, List.getElem?_concat_length, Option.some.injEq] at hget
  subst hget
  rw [hfirst] at hstate
  cases hstate
  cases hrequest
  rw [runQuery_selectMember] at hn₂
  subst hn₂
  obtain ⟨task, stage, settled, hresumed⟩ := resumed_of_step hresume
  obtain ⟨promise, hstate, hsettled⟩ := hresumed.awaiting
  obtain ⟨-, hrooms', hpg', -⟩ := observeCheck_frame _ n.tasks.length stage settled
  have hget := hresumed.get
  have hlt : n.tasks.length < n₁.tasks.length := by
    rw [hreceived.tasks, List.length_append]
    exact Nat.lt_succ_self _
  change (n₁.tasks.set _ _)[_]? = _ at hget
  rw [List.getElem?_set_self hlt, Option.some.injEq] at hget
  subst hget
  cases hstate
  obtain rfl := Option.some.inj hsettled
  refine ⟨(hresumed.turned.rooms.trans hrooms').trans hrooms, ?_⟩
  have hpg := hresumed.turned.pg
  rw [hpg'] at hpg
  rw [pgAfterJoin, ← hreceived.db]
  have hpg₁ : n₁.pg = n.pg := hreceived.pg
  cases hanswer : memberAnswer n₁.db payload.roomId socket.userId with
  | rejected =>
    rw [hanswer] at hpg
    exact hpg.trans hpg₁
  | resolved result =>
    rw [hanswer, Stage.resume, Stage.proceed] at hpg
    dsimp only
    split
    · rename_i hzero
      rw [if_pos hzero] at hpg
      exact hpg.trans hpg₁
    · rename_i hrows
      rw [if_neg hrows] at hpg
      exact hpg.trans (congrArg (·.subscribeToRoomChannel payload.roomId) hpg₁)

theorem sameState_of_eq (h : payload.roomId = payload'.roomId) : SameState payload payload' := by
  intro nodeId es n _ s n₁ n₂ hrun₁ hrun₂
  obtain ⟨socket, hsocket, hrooms₁, hpg₁⟩ := joined_of_run hrun₁
  obtain ⟨socket', hsocket', hrooms₂, hpg₂⟩ := joined_of_run hrun₂
  obtain rfl := Option.some.inj (hsocket.symm.trans hsocket')
  rw [hrooms₁, hrooms₂, hpg₁, hpg₂, h]
  exact ⟨rfl, rfl⟩

/-! ## The text of the room -/

theorem joinsUnderText_of_eq (h : payload.roomId = r.text) : JoinsUnderText payload r where
  stored _ s n' hstep := by rw [rooms_of_join hstep, h]
  subscribed _ k task n' hget hfound hstep := by rw [pg_of_found hget hfound hstep, h]
  reachable {nodeId es n} hrun k s _ hrequested note hnote := by
    have hlogged : RoomsLogged n :=
      run_invariant RoomsLogged (fun h hstep ↦ h.step hstep) (roomsLogged_start nodeId) hrun
    rw [note.key_eq, hnote, ← h]
    exact (hlogged s payload.roomId).mpr hrequested

/-- A node to which a member of `r` is connected. -/
def memberNode (r : Uuid) : Node :=
  { start [] with
    db := { users := [([0x61], [0x61])], rooms := [r], roomMembers := [(r, [0x61])],
            roomSequences := Function.update (fun _ ↦ none) r (some 1) }
    sockets := [{ userId := [0x61], userId_ne_nil := List.cons_ne_nil _ _ }]
    userSockets := EsMap.set ∅ [0x61] (EsSet.add ∅ 0) }

theorem run_memberNode (r : Uuid) : run step (start []) [.db (.createUser [0x61] [0x61]),
    .db (.createRoom r), .db (.query (.insertMember r.text [0x61])), .connect [0x61]] =
    some (memberNode r) := by
  have hinsert : step { memberNode r with
        db := { (memberNode r).db with roomMembers := [] }, sockets := [], userSockets := ∅ }
      (.db (.query (.insertMember r.text [0x61]))) =
      some { memberNode r with sockets := [], userSockets := ∅ } := by
    have hrefs : ({ (memberNode r).db with roomMembers := [] } : Db).hasRefs r [0x61] = true := by
      simp [memberNode, Db.hasRefs]
    simp only [step, Db.apply, Db.exec, Uuid.parse_text, hrefs, Option.bind_eq_bind,
      Option.bind_some, guard_true, Option.pure_def, Option.map_some]
    rfl
  exact run_cons_eq_some.mpr ⟨_, rfl, run_cons_eq_some.mpr ⟨_, rfl,
    run_cons_eq_some.mpr ⟨_, hinsert, rfl⟩⟩⟩

/-- The member sends the frame, and the query is answered. -/
theorem exists_found (hr : Uuid.parse payload.roomId = some r) :
    ∃ es n n' task, run step (start []) es = some n ∧ n.tasks[0]? = some task ∧
      task.state.found = some payload.roomId ∧ n.step (.resume 0) = some n' := by
  have hanswer : memberAnswer (memberNode r).db payload.roomId [0x61] = .resolved (.rows 1) := by
    have hmember : (memberNode r).db.isMember r [0x61] = true := by
      simp [memberNode, Db.isMember]
    simp only [memberAnswer, Db.exec, hr, hmember, Option.bind_eq_bind, Option.bind_some,
      Option.pure_def, if_true]
  let stage : Stage := .joinMember payload.roomId payload.lastSeenSeq
  let task : Task := ⟨0, [0x61], .awaiting stage .query⟩
  have hframe : (memberNode r).step (.frame 0 (.joinRoom payload)) =
      some ((memberNode r).receive 0 [0x61] (.joinRoom payload)) := rfl
  have hquery : ((memberNode r).receive 0 [0x61] (.joinRoom payload)).step (.runQuery 0 .answered) =
      some (((memberNode r).receive 0 [0x61] (.joinRoom payload)).setPromise 0 task stage
        (.settled (.resolved (.rows 1)))) := by
    have hran := runQuery_selectMember ((memberNode r).receive 0 [0x61] (.joinRoom payload)) 0 task
      stage payload.roomId [0x61]
    rw [show ((memberNode r).receive 0 [0x61] (.joinRoom payload)).db = (memberNode r).db from rfl,
      hanswer] at hran
    exact congrArg some hran
  have hrun := run_append_eq_some.mpr ⟨_, run_memberNode r, run_cons_eq_some.mpr ⟨_, hframe,
    run_cons_eq_some.mpr ⟨_, hquery, run_nil _⟩⟩⟩
  exact ⟨_, _, _, _, hrun, rfl, rfl, rfl⟩

/-- The text of `r` is the only spelling under which a room is joined as it should be. -/
theorem JoinsUnderText.eq_text (h : JoinsUnderText payload r)
    (hr : Uuid.parse payload.roomId = some r) : payload.roomId = r.text := by
  obtain ⟨es, n, n', task, hrun, hget, hfound, hstep⟩ := exists_found hr
  have hpg := (pg_of_found hget hfound hstep).symm.trans
    (h.subscribed hrun 0 task n' hget hfound hstep)
  obtain ⟨status, hcalls⟩ := PostgresService.calls_subscribeToRoomChannel n.pg payload.roomId
  obtain ⟨status', hcalls'⟩ := PostgresService.calls_subscribeToRoomChannel n.pg r.text
  rw [hpg, hcalls', List.append_cancel_left_eq, List.cons.injEq, Call.mk.injEq,
    CallKind.subscribe.injEq] at hcalls
  exact hcalls.1.1.symm

/-! ## Joins in general -/

/-- Of two accepted spellings of a room, both are joined under the text of the room, and lead to the
same state, exactly when both are that text. -/
theorem joins_under_text_iff {data data' : Option Json}
    (_ : validateJoinRoomPayload data = .ok payload)
    (_ : validateJoinRoomPayload data' = .ok payload')
    (hr : Uuid.parse payload.roomId = some r) (hr' : Uuid.parse payload'.roomId = some r) :
    JoinsUnderText payload r ∧ JoinsUnderText payload' r ∧ SameState payload payload' ↔
      payload.roomId = r.text ∧ payload'.roomId = r.text := by
  constructor
  · exact fun h ↦ ⟨h.1.eq_text hr, h.2.1.eq_text hr'⟩
  · exact fun h ↦
      ⟨joinsUnderText_of_eq h.1, joinsUnderText_of_eq h.2, sameState_of_eq (h.1.trans h.2.symm)⟩

/-- A `room_id` as it is printed, and the same between blanks. -/
theorem joins_under_text_of_blanks :
    ∃ payload payload', validateJoinRoomPayload (some (.object
        [(JsString.lit "room_id", .string Uuid.nil.text)])) = .ok payload ∧
      validateJoinRoomPayload (some (.object
        [(JsString.lit "room_id", .string (0x20 :: Uuid.nil.text ++ [0x20]))])) = .ok payload' ∧
      JoinsUnderText payload .nil ∧ JoinsUnderText payload' .nil ∧ SameState payload payload' := by
  have h : validateJoinRoomPayload (some (.object
      [(JsString.lit "room_id", .string Uuid.nil.text)])) =
      .ok ⟨⟨Uuid.nil.text, by decide⟩, none, by decide⟩ := by rfl
  have h' : validateJoinRoomPayload (some (.object
      [(JsString.lit "room_id", .string (0x20 :: Uuid.nil.text ++ [0x20]))])) =
      .ok ⟨⟨Uuid.nil.text, by decide⟩, none, by decide⟩ := by rfl
  exact ⟨_, _, h, h', (joins_under_text_iff h h' (Uuid.parse_text _) (Uuid.parse_text _)).mpr
    ⟨rfl, rfl⟩⟩

/-- The text of the room `a…a` in capital letters. -/
def capitals : JsString := (Uuid.ofDigit 10).text.map fun u ↦ if u = 0x61 then 0x41 else u

/-- A member joins a room in capital letters and is told so; a message of the room is then
committed, and nothing is delivered. -/
theorem capitals_join_unreachable :
    ∃ payload,
      validateJoinRoomPayload (some (.object [(JsString.lit "room_id", .string capitals)])) =
        .ok payload ∧
      Uuid.parse payload.roomId = some (.ofDigit 10) ∧ ¬ JoinsUnderText payload (.ofDigit 10) ∧
      ∃ es n, run step (start []) es = some n ∧ n.AtRest ∧ n.isOpen 0 = true ∧
        .replied 0 0 (.joinedRoom payload.roomId) ∈ n.log ∧
        n.db.messagesOf (.ofDigit 10) ≠ [] ∧ ∀ frame, .delivered 0 frame ∉ n.log := by
  obtain ⟨n, hrun, hrest, hopen, hrooms, hmessages, hlog⟩ : ∃ n, run step (start [])
      [.db (.createUser [0x61] [0x61]), .db (.createRoom (.ofDigit 10)),
      .db (.query (.insertMember (Uuid.ofDigit 10).text [0x61])), .connect [0x61],
      .frame 0 (.joinRoom ⟨⟨capitals, by decide⟩, none, by decide⟩), .runQuery 0 .answered,
      .resume 0, .pg (.execCommand 0 true), .pg (.resumeCall 0), .resume 0, .runQuery 0 .answered,
      .resume 0, .deliver 0, .db (.beginInsert (.ofDigit 10) [0x61] [0x31]),
      .db (.assignSequence 0), .db (.setUsername 0), .db (.store 0), .db (.commit 0)] = some n ∧
      n.AtRest ∧ n.isOpen 0 = true ∧ 0 ∉ n.socketsOf (Uuid.ofDigit 10).text ∧
      n.db.messagesOf (.ofDigit 10) ≠ [] ∧
      n.log = [.joinReceived 0 0 capitals, .checkPassed 0,
        .executed 0 .listen (getRoomNotifyChannel capitals),
        .notified 0 (.presence ⟨[0x61], .ofDigit 10, [], 0⟩),
        .replied 0 0 (.joinedRoom capitals)] := by
    refine exists_run_of_any (fun n : Node ↦ n.AtRest ∧ n.isOpen 0 = true ∧
      0 ∉ n.socketsOf (Uuid.ofDigit 10).text ∧ n.db.messagesOf (.ofDigit 10) ≠ [] ∧
      n.log = [.joinReceived 0 0 capitals, .checkPassed 0,
        .executed 0 .listen (getRoomNotifyChannel capitals),
        .notified 0 (.presence ⟨[0x61], .ofDigit 10, [], 0⟩), .replied 0 0 (.joinedRoom capitals)])
      ?_ fun n _ hn ↦ hn
    decide +kernel
  have hacked : .replied 0 0 (.joinedRoom capitals) ∈ n.log := by simp [hlog]
  have hrequested : Requested n.log 0 capitals := by
    refine ⟨[], _, _, hlog, ⟨0, rfl⟩, ?_⟩
    simp [TakenOut, Left]
  refine ⟨⟨⟨capitals, by decide⟩, none, by decide⟩, by rfl, by decide +kernel, fun h ↦ ?_,
    _, n, hrun, hrest, hopen, hacked, hmessages, by simp [hlog]⟩
  exact hrooms (h.reachable hrun 0 0 hacked hrequested (.presence ⟨[0x61], .ofDigit 10, [], 0⟩) rfl)

end Node

end PostgresChat
