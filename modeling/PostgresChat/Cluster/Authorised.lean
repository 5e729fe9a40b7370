import PostgresChat.Cluster.Agreement
import PostgresChat.Database.Steps

/-!
# Writes are authorised

`messages`, `typing` and `presence` are written on behalf of a user by four handlers:
`send_message`, `typing_start` and `join_room` over a WebSocket, and `postMessage` over HTTP. Each
asks for the user's row of `room_members` in one statement and writes in a later one. In between the
row may be gone; what remains true is that it was there while the request was in handling.

`cleared` is the invariant behind this: a request that may come to write has been answered with a
row for its own user and room.
-/

namespace PostgresChat

open Execution

/-! ## Checks and writes -/

/-- The room a stage asks for a row of `room_members` of. -/
def Stage.asks : Stage → Option RoomId
  | .joinMember R _ | .sendMember R _ | .typingStartMember R => some R
  | _ => none

/-- The room in which a handler acts after its check. -/
def Stage.acts : Stage → Option RoomId
  | .joinSubscribe R _ | .joinHistory R _ | .joinPresence R | .sendInsert R _
  | .typingStartUpsert R => some R
  | _ => none

def HttpStage.asks : HttpStage → Option RoomId
  | .postMember R _ => some R
  | _ => none

def HttpStage.acts : HttpStage → Option RoomId
  | .postInsert R _ => some R
  | _ => none

/-- The promise has been fulfilled with at least one row. -/
def Promise.hasRow : Promise → Bool
  | .settled (.resolved result) => result.rowCount ≠ 0
  | _ => false

/-- The room for which the check of a handler has been answered with a row. -/
def TaskState.cleared : TaskState → Option RoomId
  | .awaiting stage promise => if promise.hasRow then stage.asks.or stage.acts else stage.acts
  | .ended => none

def HttpState.cleared : HttpState → Option RoomId
  | .awaiting stage promise => if promise.hasRow then stage.asks.or stage.acts else stage.acts
  | .responded _ => none

/-- The user and the room of the row that a statement inserts or updates in `messages`, `typing` or
`presence`. -/
def Query.writes : Query → Option (UserId × RoomId)
  | .upsertPresence userId roomId _ | .upsertTyping userId roomId
  | .insertMessage roomId userId _ => some (userId, roomId)
  | _ => none

/-- The row an INSERT stores or commits next. -/
def Insert.next? (ins : Insert) : Option MessageRow :=
  match ins.stage with
  | .stored row => some row
  | _ => ins.toStore

/-- The users and rooms of the rows that a step inserts or updates in `messages`, `typing` and
`presence`. A row of `messages` is inserted by one step of its transaction, and committed by
another. -/
def Db.written (db : Db) : DbEvent → List (UserId × Uuid)
  | .query q => (q.writes.bind fun p ↦ (Uuid.parse p.2).map fun r ↦ (p.1, r)).toList
  | .store t | .commit t =>
    ((db.inserts[t]?.bind Insert.next?).map fun row ↦ (row.userId, row.roomId)).toList
  | _ => []

/-- No table gets a row otherwise. -/
theorem Db.written_of_step {db db' : Db} {d : DbEvent} (h : db.step d = some db') :
    (∀ row ∈ db'.presence, row ∈ db.presence ∨ (row.userId, row.roomId) ∈ db.written d) ∧
      (∀ row ∈ db'.typing, row ∈ db.typing ∨ (row.userId, row.roomId) ∈ db.written d) ∧
      ∀ row ∈ db'.messages, row ∈ db.messages ∨ (row.userId, row.roomId) ∈ db.written d := by
  cases did_of_step h with
  | query q _ ran =>
    cases ran with
    | upsertPresence R u nodeId r parses =>
      refine ⟨fun row hrow ↦ ?_, fun _ ↦ Or.inl, fun _ ↦ Or.inl⟩
      rcases List.mem_append.mp hrow with hrow | hrow
      · exact Or.inl (List.mem_of_mem_filter hrow)
      · obtain rfl := List.mem_singleton.mp hrow
        right
        rw [written, Query.writes, Option.bind_some, parses]
        exact List.mem_singleton.mpr rfl
    | upsertTyping R u r parses =>
      refine ⟨fun _ ↦ Or.inl, fun row hrow ↦ ?_, fun _ ↦ Or.inl⟩
      rcases List.mem_append.mp hrow with hrow | hrow
      · exact Or.inl (List.mem_of_mem_filter hrow)
      · obtain rfl := List.mem_singleton.mp hrow
        right
        rw [written, Query.writes, Option.bind_some, parses]
        exact List.mem_singleton.mpr rfl
    | deletePresence =>
      exact ⟨fun _ hrow ↦ Or.inl (List.mem_of_mem_filter hrow), fun _ ↦ Or.inl, fun _ ↦ Or.inl⟩
    | deleteStalePresence =>
      exact ⟨fun _ hrow ↦ Or.inl (List.mem_of_mem_filter hrow), fun _ ↦ Or.inl, fun _ ↦ Or.inl⟩
    | deleteTyping =>
      exact ⟨fun _ ↦ Or.inl, fun _ hrow ↦ Or.inl (List.mem_of_mem_filter hrow), fun _ ↦ Or.inl⟩
    | _ => exact ⟨fun _ ↦ Or.inl, fun _ ↦ Or.inl, fun _ ↦ Or.inl⟩
  | commit t ins row get stage =>
    refine ⟨fun _ ↦ Or.inl, fun _ ↦ Or.inl, fun row' hrow ↦ ?_⟩
    rcases List.mem_append.mp hrow with hrow | hrow
    · exact Or.inl hrow
    · obtain rfl := List.mem_singleton.mp hrow
      right
      rw [written, get, Option.bind_some, Insert.next?, stage]
      exact List.mem_singleton.mpr rfl
  | _ => exact ⟨fun _ ↦ Or.inl, fun _ ↦ Or.inl, fun _ ↦ Or.inl⟩

/-! ## How a check is passed -/

namespace Node

variable {n n' : Node} {R : RoomId}

/-- Only an answered statement returns rows. -/
theorem hasRow_of_settledOf {promise : Promise} {result : QueryResult}
    (h : n.settledOf promise = some (.resolved result)) (hrows : result.rowCount ≠ 0) :
    promise.hasRow = true := by
  cases promise with
  | settled settled =>
    obtain rfl := Option.some.inj h
    exact decide_eq_true hrows
  | call id =>
    rw [settledOf.eq_def] at h
    dsimp only at h
    split at h
    · rename_i ok _
      cases ok <;> cases h
      exact absurd rfl hrows
    · cases h
  | query => cases h
  | inserting t => cases h

theorem hasRow_of_pending {promise : Promise} (h : ∀ settled, promise ≠ .settled settled) :
    promise.hasRow = false := by
  cases promise with
  | settled settled => exact absurd rfl (h settled)
  | _ => rfl

/-- No handler begins after a check. -/
theorem cleared_firstState (userId : UserId) (frame : ClientFrame) :
    (firstState userId frame).cleared = none := by
  by_cases hu : userId = []
  · simp only [firstState, handleFrame, hu, if_true, TaskState.cleared]
  · cases frame with
    | sendMessage payload =>
      simp only [firstState, handleFrame, hu, if_false, handleSendMessage_eq]
      rfl
    | _ =>
      simp only [firstState, handleFrame, hu, if_false]
      rfl

/-- A handler that acts in a room after a turn has passed its check before. -/
theorem cleared_of_resume {stage stage' : Stage} {promise : Promise} {settled : Settled}
    (hsettled : n.settledOf promise = some settled)
    (hnext : (stage.resume settled).next = .await stage') (hacts : stage'.acts = some R) :
    (TaskState.awaiting stage promise).cleared = some R := by
  have hgone : ∀ {stage : Stage}, stage.asks = none → stage.acts = some R →
      (TaskState.awaiting stage promise).cleared = some R := by
    intro stage hasks hacts
    rw [TaskState.cleared, hasks, hacts, Option.none_or, ite_self]
  have hpassed : ∀ {stage : Stage} {result : QueryResult}, settled = .resolved result →
      result.rowCount ≠ 0 → stage.asks = some R →
      (TaskState.awaiting stage promise).cleared = some R := by
    rintro stage result rfl hrows hasks
    rw [TaskState.cleared, hasRow_of_settledOf hsettled hrows, if_pos rfl, hasks, Option.some_or]
  cases settled with
  | rejected => cases hnext
  | resolved result =>
    cases stage with
    | joinMember R' lastSeenSeq =>
      rw [Stage.resume, Stage.proceed] at hnext
      split at hnext <;> cases hnext
      exact hpassed rfl ‹_› hacts
    | sendMember R' content =>
      rw [Stage.resume, Stage.proceed] at hnext
      split at hnext <;> cases hnext
      exact hpassed rfl ‹_› hacts
    | typingStartMember R' =>
      rw [Stage.resume, Stage.proceed] at hnext
      split at hnext <;> cases hnext
      exact hpassed rfl ‹_› hacts
    | joinSubscribe R' lastSeenSeq =>
      cases lastSeenSeq <;> cases hnext <;> exact hgone rfl hacts
    | joinHistory R' lastSeenSeq =>
      cases hnext
      exact hgone rfl hacts
    | leavePresence R' =>
      cases hnext
      cases hacts
    | _ => cases hnext

/-- The query on `room_members` has been answered with a row. -/
theorem mem_of_selectMember {db db' : Db} {R : RoomId} {u : UserId} {result : QueryResult}
    {notes : List Notification} (h : db.exec (.selectMember R u) = some (db', result, notes))
    (hrows : result.rowCount ≠ 0) {r : Uuid} (hr : Uuid.parse R = some r) :
    (r, u) ∈ db.roomMembers := by
  simp only [Db.exec, hr, Option.bind_eq_bind, Option.bind_some, Option.pure_def,
    Option.some.injEq, Prod.mk.injEq] at h
  obtain ⟨-, rfl, -⟩ := h
  by_contra hmember
  exact hrows (if_neg fun h ↦ hmember (of_decide_eq_true h))

/-- **Step lemma for the handlers of a node.** A check is passed by an answer with a row. -/
theorem cleared_of_step {e : Event} {k : ℕ} (hstep : n.step e = some n') {task' : Task}
    (hget' : n'.tasks[k]? = some task') (hcleared : task'.state.cleared = some R) :
    ∃ task, n.tasks[k]? = some task ∧ task.userId = task'.userId ∧ task.state ≠ .ended ∧
      (task.state.cleared = some R ∨
        ∀ r, Uuid.parse R = some r → (r, task.userId) ∈ n.db.roomMembers) := by
  have hended : ∀ {state : TaskState}, state.cleared = some R → state ≠ .ended := by
    rintro _ h rfl
    cases h
  rcases task_of_step hstep hget' with
    ⟨task, hget, -, hu, hmoves⟩ | ⟨s, socket, frame, -, -, -, rfl⟩
  · refine ⟨task, hget, hu.symm, ?_⟩
    generalize task'.state = state' at hcleared hmoves
    cases hmoves with
    | stays => exact ⟨hended hcleared, Or.inl hcleared⟩
    | ran stage q fate settled event state request result =>
      rw [state]
      refine ⟨by rintro ⟨⟩, ?_⟩
      by_cases hacts : stage.acts = some R
      · exact Or.inl hacts
      · rw [TaskState.cleared] at hcleared
        split at hcleared
        · rename_i hrow
          have hasks : stage.asks = some R := by
            cases stage <;> first | exact hcleared | exact absurd hcleared hacts
          cases settled with
          | rejected => cases hrow
          | resolved rows =>
            obtain ⟨-, db, notes, hexec⟩ := result rows rfl
            have hq : q = .selectMember R task.userId := by
              cases stage <;> cases hasks <;> cases request <;> rfl
            subst hq
            exact Or.inr fun r hr ↦ mem_of_selectMember hexec (of_decide_eq_true hrow) hr
        · exact absurd hcleared hacts
    | inserts R' content promise promise' state =>
      rw [state]
      have hacts : ∀ promise,
          (TaskState.awaiting (.sendInsert R' content) promise).cleared = some R' :=
        fun promise ↦ ite_self _
      rw [hacts] at hcleared
      exact ⟨by rintro ⟨⟩, Or.inl ((hacts promise).trans hcleared)⟩
    | continues stage stage' promise promise' settled state settles next pending =>
      rw [state]
      rw [TaskState.cleared, hasRow_of_pending pending, if_neg Bool.false_ne_true] at hcleared
      exact ⟨by rintro ⟨⟩, Or.inl (cleared_of_resume settles next hcleared)⟩
    | ends => cases hcleared
  · rw [cleared_firstState] at hcleared
    cases hcleared

end Node

/-! ## Requests -/

/-- The request that an event belongs to, when it runs one of its statements. -/
def ClusterEvent.origin : ClusterEvent → Option RequestId
  | .node i (.runQuery k _) | .node i (.beginInsert k) => some (.frame i k)
  | .runStatement k _ | .beginInsert k => some (.call k)
  | _ => none

namespace Cluster

variable {c c' : Cluster} {q : RequestId} {u : UserId} {R : RoomId} {r : Uuid}

/-- The user as whom a request in handling has been authenticated. -/
def user (c : Cluster) : RequestId → Option UserId
  | .frame i k =>
    (c.nodes[i]?.bind fun n ↦ n.tasks[k]?).bind fun task ↦
      if task.state = .ended then none else some task.userId
  | .call k =>
    c.calls[k]?.bind fun call ↦
      match call.state with
      | .awaiting _ _ => some call.userId
      | .responded _ => none

/-- The user and the room for which the check of a request has been answered with a row. -/
def cleared (c : Cluster) : RequestId → Option (UserId × RoomId)
  | .frame i k =>
    (c.nodes[i]?.bind fun n ↦ n.tasks[k]?).bind fun task ↦ task.state.cleared.map (task.userId, ·)
  | .call k => c.calls[k]?.bind fun call ↦ call.state.cleared.map (call.userId, ·)

/-- The query a request waits for. -/
def waitsFor (c : Cluster) : RequestId → Option Query
  | .frame i k => c.nodes[i]?.bind fun n ↦ n.tasks[k]?.bind (·.statement n.pg.nodeId)
  | .call k => c.query? k

/-- The request is in handling, authenticated as `u`, and `u` is a member of `r`. -/
def HandledAsMember (q : RequestId) (u : UserId) (r : Uuid) (c : Cluster) (_ : ClusterEvent) :
    Prop :=
  c.user q = some u ∧ (r, u) ∈ c.db.roomMembers

/-- The request, authenticated as `u`, begins the INSERT number `t`. -/
def BeginsInsert (q : RequestId) (u : UserId) (t : ℕ) (c : Cluster) (e : ClusterEvent) : Prop :=
  e.origin = some q ∧ c.user q = some u ∧ c.db.inserts.length = t ∧
    ∃ r content, c.dbEvent e = some (.beginInsert r u content)

/-- A handler that waits to write has passed its check. -/
theorem cleared_of_statement {task : Task} {nodeId : JsString} {stmt : Query}
    (h : task.statement nodeId = some stmt) (hwrites : stmt.writes = some (u, R)) :
    task.state.cleared = some R ∧ task.userId = u ∧ task.state ≠ .ended := by
  rw [Task.statement] at h
  split at h
  · rename_i stage hstate
    rw [hstate]
    cases stage <;> cases h <;> cases hwrites <;> exact ⟨rfl, rfl, by rintro ⟨⟩⟩
  · cases h

/-- A call that waits to write has passed its check. -/
theorem cleared_of_query {call : HttpCall} {stmt : Query}
    (h : call.statement.bind HttpStatement.query? = some stmt)
    (hwrites : stmt.writes = some (u, R)) :
    call.state.cleared = some R ∧ call.userId = u ∧
      ∃ stage promise, call.state = .awaiting stage promise := by
  rw [HttpCall.statement] at h
  split at h
  · rename_i stage hstate
    rw [hstate]
    cases stage <;> cases h <;> cases hwrites
    exact ⟨rfl, rfl, _, _, rfl⟩
  · cases h

/-- A request that waits to write has passed its check. -/
theorem cleared_of_waitsFor {stmt : Query} (h : c.waitsFor q = some stmt)
    (hwrites : stmt.writes = some (u, R)) : c.cleared q = some (u, R) ∧ c.user q = some u := by
  cases q with
  | frame i k =>
    simp only [waitsFor, Option.bind_eq_some_iff] at h
    obtain ⟨n, hn, task, htask, h⟩ := h
    obtain ⟨hcleared, hu, hended⟩ := cleared_of_statement h hwrites
    rw [cleared, user, hn, Option.bind_some, htask, Option.bind_some, Option.bind_some, hcleared,
      hu, if_neg hended]
    exact ⟨rfl, rfl⟩
  | call k =>
    rw [waitsFor, query?, Option.bind_assoc, Option.bind_eq_some_iff] at h
    obtain ⟨call, hcall, h⟩ := h
    obtain ⟨hcleared, hu, stage, promise, hstate⟩ := cleared_of_query h hwrites
    rw [cleared, user, hcall, Option.bind_some, Option.bind_some, hcleared, hu, hstate]
    exact ⟨rfl, rfl⟩

theorem query_of_queryEvent {db : Db} {fate : Fate} {stmt : Query} {d : DbEvent}
    (h : db.queryEvent fate stmt = some d) : d = .query stmt := by
  rw [Db.queryEvent, Option.ite_none_right_eq_some, Option.some.injEq] at h
  exact h.2.symm

theorem insertMessage_of_insertEvent {stmt : Query} {d : DbEvent}
    (h : stmt.insertEvent = some d) :
    ∃ R u content r, stmt = .insertMessage R u content ∧ Uuid.parse R = some r ∧
      d = .beginInsert r u content := by
  cases stmt with
  | insertMessage R u content =>
    obtain ⟨r, hr, rfl⟩ := Option.map_eq_some_iff.mp h
    exact ⟨R, u, content, r, rfl, hr, rfl⟩
  | _ => cases h

/-- The step the database takes in an event is one of its own, or runs what a request waits for. -/
theorem waitsFor_of_dbEvent {e : ClusterEvent} (hstep : c.step e = some c') {d : DbEvent}
    (hd : c.dbEvent e = some d) :
    (e = .db d ∧ d.unasked = true) ∨ ∃ q stmt, e.origin = some q ∧ c.waitsFor q = some stmt ∧
      (d = .query stmt ∨ stmt.insertEvent = some d) := by
  obtain ⟨c₁, -, hact⟩ := Option.bind_eq_some_iff.mp hstep
  cases e with
  | node i e' =>
    obtain ⟨hown, -⟩ := act_node hact
    obtain ⟨n, hn, hd⟩ := Option.bind_eq_some_iff.mp hd
    cases e' with
    | runQuery k fate =>
      obtain ⟨stmt, hstmt, hd⟩ := Option.bind_eq_some_iff.mp hd
      refine Or.inr ⟨.frame i k, stmt, rfl, ?_, Or.inl (query_of_queryEvent hd)⟩
      rw [waitsFor, hn, Option.bind_some, hstmt]
    | beginInsert k =>
      obtain ⟨stmt, hstmt, hd⟩ := Option.bind_eq_some_iff.mp hd
      refine Or.inr ⟨.frame i k, stmt, rfl, ?_, Or.inr hd⟩
      rw [waitsFor, hn, Option.bind_some, hstmt]
    | db d' => exact absurd rfl (hown d')
    | _ => cases hd
  | runStatement k fate =>
    obtain ⟨stmt, hstmt, hd⟩ := Option.bind_eq_some_iff.mp hd
    exact Or.inr ⟨.call k, stmt, rfl, hstmt, Or.inl (query_of_queryEvent hd)⟩
  | beginInsert k =>
    obtain ⟨stmt, hstmt, hd⟩ := Option.bind_eq_some_iff.mp hd
    exact Or.inr ⟨.call k, stmt, rfl, hstmt, Or.inr hd⟩
  | db d' =>
    cases hd
    simp only [act, Option.ite_none_right_eq_some] at hact
    exact Or.inl ⟨rfl, hact.1⟩
  | request userId request => cases hd
  | insertSettles k lost => cases hd
  | resume k => cases hd

/-! ## The invariant -/

theorem resolved_of_settle {result : Option QueryResult} {fate : Fate} {rows : QueryResult}
    (h : settle result fate = .resolved rows) : result = some rows := by
  cases fate with
  | answered =>
    cases result with
    | none => cases h
    | some rows' => exact congrArg some (Settled.resolved.inj h)
  | refused => cases h
  | lost => cases h

/-- **Step lemma for the calls of controllers.** -/
theorem cleared_of_call {e : ClusterEvent} {k : ℕ} (hstep : c.step e = some c') {call' : HttpCall}
    (hget' : c'.calls[k]? = some call') (hcleared : call'.state.cleared = some R) :
    ∃ call, c.calls[k]? = some call ∧ call.userId = call'.userId ∧
      (∃ stage promise, call.state = .awaiting stage promise) ∧
      (call.state.cleared = some R ∨
        ∀ r, Uuid.parse R = some r → (r, call.userId) ∈ c.db.roomMembers) := by
  -- A handler at its INSERT is cleared for the room of the message.
  have hinsert : ∀ R' content promise,
      (HttpState.awaiting (.postInsert R' content) promise).cleared = some R' :=
    fun _ _ _ ↦ ite_self _
  rcases call_of_step hstep hget' with ⟨call, hget, hu, hmoves⟩ | ⟨userId, request, -, -, rfl⟩
  · refine ⟨call, hget, hu.symm, ?_⟩
    generalize call'.state = state' at hcleared hmoves
    cases hmoves with
    | stays =>
      cases hstate : call.state with
      | awaiting stage promise => exact ⟨⟨stage, promise, rfl⟩, Or.inl (hstate ▸ hcleared)⟩
      | responded response =>
        rw [hstate] at hcleared
        cases hcleared
    | ran stage fate event state =>
      rw [state]
      refine ⟨⟨stage, .query, rfl⟩, ?_⟩
      rw [HttpState.cleared] at hcleared
      split at hcleared
      · rename_i hrow
        cases stage with
        | postMember R' content =>
          obtain rfl : R' = R := Option.some.inj hcleared
          let stmt := (HttpStage.postMember R' content).statement call.userId
          cases hsettled : settle (stmt.result c.db) fate with
          | rejected =>
            rw [hsettled] at hrow
            cases hrow
          | resolved rows =>
            rw [hsettled] at hrow
            obtain ⟨⟨db, rows', notes⟩, hexec, rfl⟩ :=
              Option.map_eq_some_iff.mp (resolved_of_settle hsettled)
            -- The SELECT has found the membership in the tables of this step.
            exact Or.inr fun r hr ↦ Node.mem_of_selectMember hexec (of_decide_eq_true hrow) hr
        | postInsert R' content => exact Or.inl hcleared
        | _ => cases hcleared
      · cases stage with
        | postInsert R' content => exact Or.inl hcleared
        | _ => cases hcleared
    | inserts R' content promise promise' state =>
      rw [hinsert] at hcleared
      rw [state, hinsert]
      exact ⟨⟨_, _, rfl⟩, Or.inl hcleared⟩
    | continues stage stage' settled state next =>
      rw [state]
      refine ⟨⟨_, _, rfl⟩, Or.inl ?_⟩
      cases settled with
      | rejected => cases next
      | resolved rows =>
        cases stage with
        | postMember R' content =>
          rw [HttpStage.resume, HttpStage.proceed] at next
          split at next <;> cases next
          rename_i hrows
          rw [hinsert] at hcleared
          exact (if_pos (decide_eq_true hrows)).trans hcleared
        | joinRoom R' =>
          rw [HttpStage.resume, HttpStage.proceed] at next
          split at next <;> cases next
          cases hcleared
        | _ => cases next
    | responds response => cases hcleared
  · cases request <;> cases hcleared

/-- **Step lemma.** A check is passed while the request is in handling and the user is a member. -/
theorem cleared_of_step {e : ClusterEvent} (hagrees : c.Agrees)
    (hstep : c.step e = some c') (hcleared : c'.cleared q = some (u, R))
    (hr : Uuid.parse R = some r) : c.cleared q = some (u, R) ∨ HandledAsMember q u r c e := by
  cases q with
  | frame i k =>
    simp only [cleared, Option.bind_eq_some_iff, Option.map_eq_some_iff, Prod.mk.injEq] at hcleared
    obtain ⟨task', ⟨n', hn', htask'⟩, R', hcleared, rfl, rfl⟩ := hcleared
    obtain ⟨n, hn, hdb, -, rfl | ⟨e', hstep'⟩⟩ := hagrees.node_before hstep hn'
    · left
      rw [cleared, hn, Option.bind_some, htask', Option.bind_some, hcleared]
      rfl
    · obtain ⟨task, htask, hu, hended, hold | hmember⟩ :=
        Node.cleared_of_step hstep' htask' hcleared
      · left
        rw [cleared, hn, Option.bind_some, htask, Option.bind_some, hold, hu]
        rfl
      · right
        refine ⟨?_, hu ▸ hdb ▸ hmember r hr⟩
        rw [user, hn, Option.bind_some, htask, Option.bind_some, if_neg hended, hu]
  | call k =>
    simp only [cleared, Option.bind_eq_some_iff, Option.map_eq_some_iff, Prod.mk.injEq] at hcleared
    obtain ⟨call', hcall', R', hcleared, rfl, rfl⟩ := hcleared
    obtain ⟨call, hcall, hu, ⟨stage, promise, hstate⟩, hold | hmember⟩ :=
      cleared_of_call hstep hcall' hcleared
    · left
      rw [cleared, hcall, Option.bind_some, hold, hu]
      rfl
    · right
      refine ⟨?_, hu ▸ hmember r hr⟩
      rw [user, hcall, Option.bind_some, hstate, hu]

/-- What a run may have seen. -/
inductive Fact where
  | member (q : RequestId) (u : UserId) (r : Uuid)
  | begins (q : RequestId) (u : UserId) (t : ℕ)

/-- A step in which it is seen. -/
def Fact.Seen : Fact → Cluster → ClusterEvent → Prop
  | .member q u r => HandledAsMember q u r
  | .begins q u t => BeginsInsert q u t

/-- Every request that has passed its check, and every INSERT, goes back to a member. -/
structure Authorised (P : Fact → Prop) (c : Cluster) : Prop where
  agrees : c.Agrees
  cleared : ∀ q u R r, c.cleared q = some (u, R) → Uuid.parse R = some r → P (.member q u r)
  inserts : ∀ (t : ℕ) (ins : Insert), c.db.inserts[t]? = some ins →
    ∃ q, P (.member q ins.userId ins.roomId) ∧ P (.begins q ins.userId t)
  rows : ∀ (t : ℕ) (ins : Insert) (row : MessageRow), c.db.inserts[t]? = some ins →
    ins.next? = some row → row.userId = ins.userId ∧ row.roomId = ins.roomId

variable {P : Fact → Prop}

theorem authorised_start (nodeIds : List JsString) : Authorised P (start nodeIds) := by
  refine ⟨agrees_start nodeIds, fun q u R r hcleared ↦ ?_, by rintro _ _ ⟨⟩, by rintro _ _ _ ⟨⟩⟩
  cases q with
  | frame i k =>
    simp only [Cluster.cleared, Option.bind_eq_some_iff] at hcleared
    obtain ⟨task, ⟨n, hn, htask⟩, -⟩ := hcleared
    obtain ⟨nodeId, -, rfl⟩ := List.mem_map.mp (List.mem_of_getElem? hn)
    cases htask
  | call k => cases hcleared

/-- The row of an INSERT is for its user and room. -/
theorem row_of_moves {db : Db} {d : DbEvent} {t : ℕ} {ins ins' : Insert}
    (hmoves : Db.Moves db d t ins ins')
    (hold : ∀ row, ins.next? = some row → row.userId = ins.userId ∧ row.roomId = ins.roomId)
    {row : MessageRow} (hrow : ins'.next? = some row) :
    row.userId = ins'.userId ∧ row.roomId = ins'.roomId := by
  have hstore : ∀ {ins : Insert} {row : MessageRow}, ins.toStore = some row →
      row.userId = ins.userId ∧ row.roomId = ins.roomId := by
    intro ins row hrow
    rw [Insert.toStore] at hrow
    split at hrow <;> cases hrow
    exact ⟨rfl, rfl⟩
  cases hmoves with
  | stays => exact hold row hrow
  | assigned stage => cases hrow
  | named seq stage => exact hstore hrow
  | stored row' event stage =>
    obtain rfl := Option.some.inj hrow
    have hrow' : row'.userId = ins.userId ∧ row'.roomId = ins.roomId := hstore stage
    exact hrow'
  | ended stage ended => cases stage <;> cases ended <;> cases hrow

/-- An INSERT has moved, or a request has just begun it. -/
theorem insert_before {e : ClusterEvent} (hstep : c.step e = some c') {t : ℕ} {ins' : Insert}
    (hget' : c'.db.inserts[t]? = some ins') :
    (∃ ins, c.db.inserts[t]? = some ins ∧ ∃ d, Db.Moves c.db d t ins ins') ∨
      ∃ r u content, c.dbEvent e = some (.beginInsert r u content) ∧ t = c.db.inserts.length ∧
        ins' = c.db.newInsert r u content := by
  rcases db_of_step hstep with ⟨-, hdb⟩ | ⟨d, hd, hdb⟩
  · exact Or.inl ⟨ins', hdb ▸ hget', .tick 0, .stays⟩
  · rcases Db.insert_of_step hdb hget' with ⟨ins, hget, hmoves⟩ | ⟨r, u, content, rfl, ht, hins⟩
    · exact Or.inl ⟨ins, hget, d, hmoves⟩
    · exact Or.inr ⟨r, u, content, hd, ht, hins⟩

/-- The request that begins an INSERT has passed its check. -/
theorem cleared_of_beginInsert {e : ClusterEvent} (hstep : c.step e = some c')
    {content : JsString} (hd : c.dbEvent e = some (.beginInsert r u content)) :
    ∃ q R, e.origin = some q ∧ c.cleared q = some (u, R) ∧ c.user q = some u ∧
      Uuid.parse R = some r := by
  obtain ⟨-, hunasked⟩ | ⟨q, stmt, horigin, hwaits, heq | hinsert⟩ :=
    waitsFor_of_dbEvent hstep hd
  · cases hunasked
  · cases heq
  · obtain ⟨R, u', content', r', rfl, hr, heq⟩ := insertMessage_of_insertEvent hinsert
    cases heq
    obtain ⟨hcleared, huser⟩ := cleared_of_waitsFor hwaits rfl
    exact ⟨q, R, horigin, hcleared, huser, hr⟩

/-- **Step lemma.** -/
theorem Authorised.step (h : Authorised P c) {e : ClusterEvent} (hstep : c.step e = some c') :
    Authorised (fun fact ↦ P fact ∨ fact.Seen c e) c' := by
  refine ⟨h.agrees.step hstep, fun q u R r hcleared hr ↦ ?_, fun t ins' hget' ↦ ?_,
    fun t ins' row hget' hrow ↦ ?_⟩
  · exact (cleared_of_step h.agrees hstep hcleared hr).imp (fun hold ↦ h.cleared q u R r hold hr) id
  · rcases insert_before hstep hget' with ⟨ins, hget, d, hmoves⟩ | ⟨r, u, content, hd, rfl, rfl⟩
    · obtain ⟨q, hmember, hbegins⟩ := h.inserts t ins hget
      rw [hmoves.same.1, hmoves.same.2]
      exact ⟨q, Or.inl hmember, Or.inl hbegins⟩
    · obtain ⟨q, R, horigin, hcleared, huser, hr⟩ := cleared_of_beginInsert hstep hd
      exact ⟨q, Or.inl (h.cleared q u R r hcleared hr),
        Or.inr ⟨horigin, huser, rfl, r, content, hd⟩⟩
  · rcases insert_before hstep hget' with ⟨ins, hget, d, hmoves⟩ | ⟨r, u, content, hd, rfl, rfl⟩
    · exact row_of_moves hmoves (fun row hrow ↦ h.rows t ins row hget hrow) hrow
    · cases hrow

/-! ## Runs -/

/-- The users and rooms of the rows that a step inserts or updates. -/
def written (c : Cluster) (e : ClusterEvent) : List (UserId × Uuid) :=
  (c.dbEvent e).toList.flatMap c.db.written

/-- No table gets a row otherwise. -/
theorem written_of_step {e : ClusterEvent} (hstep : c.step e = some c') :
    (∀ row ∈ c'.db.presence, row ∈ c.db.presence ∨ (row.userId, row.roomId) ∈ c.written e) ∧
      (∀ row ∈ c'.db.typing, row ∈ c.db.typing ∨ (row.userId, row.roomId) ∈ c.written e) ∧
      ∀ row ∈ c'.db.messages, row ∈ c.db.messages ∨ (row.userId, row.roomId) ∈ c.written e := by
  rcases db_of_step hstep with ⟨hnone, hdb⟩ | ⟨d, hd, hdb⟩
  · rw [hdb]
    exact ⟨fun _ ↦ Or.inl, fun _ ↦ Or.inl, fun _ ↦ Or.inl⟩
  · rw [written, hd, Option.toList_some, List.flatMap_singleton]
    exact Db.written_of_step hdb

/-- A write is for a user and a room for whom a request has passed its check. -/
theorem Authorised.write (h : Authorised P c) {e : ClusterEvent} (hstep : c.step e = some c')
    (hwrite : (u, r) ∈ c.written e) :
    ∃ q, P (.member q u r) ∧ (e.origin = some q ∧ c.user q = some u ∨
      ∃ t, (e = .db (.store t) ∨ e = .db (.commit t)) ∧ P (.begins q u t)) := by
  obtain ⟨d, hd, hwrite⟩ := List.mem_flatMap.mp hwrite
  rw [Option.mem_toList] at hd
  have hinsert : ∀ t, d = .store t ∨ d = .commit t → (u, r) ∈
      ((c.db.inserts[t]?.bind Insert.next?).map fun row ↦ (row.userId, row.roomId)).toList →
      ∃ q, P (.member q u r) ∧ P (.begins q u t) := by
    intro t ht hmem
    rw [Option.mem_toList, Option.map_eq_some_iff] at hmem
    obtain ⟨row, hrow, heq⟩ := hmem
    obtain ⟨ins, hget, hrow⟩ := Option.bind_eq_some_iff.mp hrow
    obtain ⟨hu, hr⟩ := h.rows t ins row hget hrow
    cases heq
    rw [hu, hr]
    exact h.inserts t ins hget
  have hself : ∀ t, d = .store t ∨ d = .commit t → e = .db d := by
    intro t ht
    obtain ⟨he, -⟩ | ⟨q, stmt, -, -, rfl | hbegins⟩ := waitsFor_of_dbEvent hstep hd
    · exact he
    · rcases ht with ht | ht <;> cases ht
    · obtain ⟨R, u', content, r', -, -, rfl⟩ := insertMessage_of_insertEvent hbegins
      rcases ht with ht | ht <;> cases ht
  cases d with
  | query stmt =>
    rw [Db.written, Option.mem_toList, Option.bind_eq_some_iff] at hwrite
    obtain ⟨⟨u', R⟩, hwrites, hr⟩ := hwrite
    obtain ⟨r', hr, heq⟩ := Option.map_eq_some_iff.mp hr
    cases heq
    obtain ⟨-, hunasked⟩ | ⟨q, stmt', horigin, hwaits, heq | hbegins⟩ :=
      waitsFor_of_dbEvent hstep hd
    · rw [of_decide_eq_true hunasked] at hwrites
      cases hwrites
    · cases heq
      obtain ⟨hcleared, huser⟩ := cleared_of_waitsFor hwaits hwrites
      exact ⟨q, h.cleared q _ R _ hcleared hr, Or.inl ⟨horigin, huser⟩⟩
    · obtain ⟨R', u', content, r', -, -, heq⟩ := insertMessage_of_insertEvent hbegins
      cases heq
  | store t =>
    obtain ⟨q, hmember, hbegins⟩ := hinsert t (Or.inl rfl) hwrite
    exact ⟨q, hmember, Or.inr ⟨t, Or.inl (hself t (Or.inl rfl)), hbegins⟩⟩
  | commit t =>
    obtain ⟨q, hmember, hbegins⟩ := hinsert t (Or.inr rfl) hwrite
    exact ⟨q, hmember, Or.inr ⟨t, Or.inr (hself t (Or.inr rfl)), hbegins⟩⟩
  | _ => cases hwrite

/-- In every run of any number of nodes and controllers, whatever the order of their statements: a
row of `presence`, `typing` or `messages` that a step inserts or updates is that of a user `u` and a
room `r` such that a request authenticated as `u` was in handling at an instant when `u` was a
member of `r`, and this request runs the statement, or has begun the INSERT that now stores or
commits the row. -/
theorem writes_authorised {nodeIds : List JsString} {es : List ClusterEvent} {e : ClusterEvent}
    (hrun : run step (start nodeIds) es = some c) (hstep : c.step e = some c') :
    ((∀ row ∈ c'.db.presence, row ∈ c.db.presence ∨ (row.userId, row.roomId) ∈ c.written e) ∧
      (∀ row ∈ c'.db.typing, row ∈ c.db.typing ∨ (row.userId, row.roomId) ∈ c.written e) ∧
      ∀ row ∈ c'.db.messages, row ∈ c.db.messages ∨ (row.userId, row.roomId) ∈ c.written e) ∧
    ∀ u r, (u, r) ∈ c.written e →
      ∃ q, Happened step (HandledAsMember q u r) (start nodeIds) es ∧
        (e.origin = some q ∧ c.user q = some u ∨
          ∃ t, (e = .db (.store t) ∨ e = .db (.commit t)) ∧
            Happened step (BeginsInsert q u t) (start nodeIds) es) := by
  have hauthorised := happened_invariant Fact.Seen Authorised (fun h hstep ↦ h.step hstep)
    (authorised_start nodeIds) hrun
  exact ⟨written_of_step hstep, fun u r hwrite ↦ hauthorised.write hstep hwrite⟩

/-- A member posts a message, and leaves the room between the check and the INSERT. -/
theorem writes_authorised_of_leaving :
    ∃ c, run step (start [[0x6E]]) [.db (.createUser [0x61] [0x61]), .db (.createRoom .nil),
        .request [0x61] (.join Uuid.nil.text), .runStatement 0 .answered, .resume 0,
        .runStatement 0 .answered, .request [0x61] (.postMessage Uuid.nil.text [0x68]),
        .runStatement 1 .answered, .resume 1, .request [0x61] (.leave Uuid.nil.text),
        .runStatement 2 .answered, .beginInsert 1, .db (.assignSequence 0),
        .db (.setUsername 0)] = some c ∧ c.db.roomMembers = [] ∧
      ∃ es q, run step (start [[0x6E]]) es = some c ∧
        Happened step (HandledAsMember q [0x61] .nil) (start [[0x6E]]) es := by
  refine exists_run_of_any (fun c : Cluster ↦ c.db.roomMembers = [] ∧
    (c.step (.db (.store 0))).isSome = true ∧ ([0x61], Uuid.nil) ∈ c.written (.db (.store 0)))
    (by decide +kernel) ?_
  rintro c hrun ⟨hleft, hsome, hwrite⟩
  obtain ⟨c', hstep⟩ := Option.isSome_iff_exists.mp hsome
  obtain ⟨q, hmember, -⟩ := (writes_authorised hrun hstep).2 _ _ hwrite
  exact ⟨hleft, _, q, hrun, hmember⟩

end Cluster

end PostgresChat
