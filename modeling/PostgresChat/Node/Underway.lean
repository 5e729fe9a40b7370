import PostgresChat.Node.Batching
import PostgresChat.Node.Sockets
import PostgresChat.Node.Tasks

/-!
# Messages underway to a socket

A socket is sent messages in two ways: in a batch, which a callback of `setImmediate` carries from
the flush that has picked the recipients, and in the history frame of its own `join_room`, which a
handler has ready once its query has been answered. `Underway` says that a message has been sent to
a socket or is on one of these two ways. It comes to be underway at a flush or when a history query
runs, and at no other step (`underway_of_step`). Either way it has been committed by then
(`Backed`).
-/

namespace PostgresChat

open Execution

/-! ## What is sent -/

/-- The messages in a frame. -/
def ServerFrame.rows : ServerFrame → List MessageRow
  | .newMessageBatch messages | .history messages _ => messages
  | .error .. | .joinedRoom _ | .presence _ | .typing _ => []

/-- The messages a socket is sent. -/
def Observation.rowsTo (s : SocketId) : Observation → List MessageRow
  | .delivered s' frame | .replied _ s' frame => if s' = s then frame.rows else []
  | _ => []

/-- The messages a handler has got for its socket. -/
def Task.fetched (task : Task) : List MessageRow :=
  match task.state with
  | .awaiting (.joinHistory _ _) (.settled (.resolved result)) => result.messageRows
  | _ => []

namespace Node

/-- The messages a socket has been sent. -/
def rowsTo (log : List Observation) (s : SocketId) : List MessageRow :=
  log.flatMap (Observation.rowsTo s)

/-- The message has been sent to the socket, or a callback is going to send it. -/
def Posted (n : Node) (s : SocketId) (m : MessageRow) : Prop :=
  m ∈ rowsTo n.log s ∨ ∃ entry ∈ n.immediates, s ∈ entry.1 ∧ m ∈ entry.2.rows

/-- A handler has got the message for its socket. -/
def Fetched (n : Node) (s : SocketId) (m : MessageRow) : Prop :=
  ∃ task ∈ n.tasks, task.socket = s ∧ m ∈ task.fetched

/-- The message has been sent to the socket, or it is on its way. -/
def Underway (n : Node) (s : SocketId) (m : MessageRow) : Prop := n.Posted s m ∨ n.Fetched s m

/-- The flush timer fires while the message is in the buffer of a room whose recipients the socket
is among. -/
def FlushesTo (n : Node) (e : Event) (s : SocketId) (m : MessageRow) : Prop :=
  e = .flush ∧ ∃ R, s ∈ n.openSockets R ∧ m ∈ n.buffered R

/-- The history query of a `join_room` of the socket is answered, and the message is in the room. -/
def FetchesFor (n : Node) (e : Event) (s : SocketId) (m : MessageRow) : Prop :=
  ∃ k task R lastSeenSeq, e = .runQuery k .answered ∧ n.tasks[k]? = some task ∧ task.socket = s ∧
    task.state = .awaiting (.joinHistory R lastSeenSeq) .query ∧ Uuid.parse R = some m.roomId ∧
    m ∈ n.db.messages

variable {n n' : Node} {s : SocketId} {m : MessageRow}

theorem mem_rowsTo_append {log os : List Observation} :
    m ∈ rowsTo (log ++ os) s ↔ m ∈ rowsTo log s ∨ ∃ o ∈ os, m ∈ o.rowsTo s := by
  rw [rowsTo, List.flatMap_append, List.mem_append, ← rowsTo, List.mem_flatMap]

/-- No callback is scheduled: what is posted then is among what is observed. -/
theorem Posted.of_log {os : List Observation} (h : n'.Posted s m)
    (himmediates : n'.immediates = n.immediates) (hlog : n'.log = n.log ++ os) :
    n.Posted s m ∨ ∃ o ∈ os, m ∈ o.rowsTo s := by
  rw [Posted, hlog, mem_rowsTo_append, himmediates, or_right_comm] at h
  exact h

theorem Posted.of_silent {os : List Observation} (h : n'.Posted s m)
    (himmediates : n'.immediates = n.immediates) (hlog : n'.log = n.log ++ os)
    (hos : ∀ o ∈ os, o.rowsTo s = []) : n.Posted s m := by
  rcases h.of_log himmediates hlog with h | ⟨o, ho, hm⟩
  · exact h
  · rw [hos o ho] at hm
    cases hm

/-- A broadcast posts its frame to the sockets it picks. -/
theorem Posted.of_broadcastToRoom {R : RoomId} {frame : ServerFrame}
    (h : (n.broadcastToRoom R frame).Posted s m) :
    n.Posted s m ∨ s ∈ n.openSockets R ∧ m ∈ frame.rows := by
  rw [broadcastToRoom] at h
  split at h
  · exact Or.inl h
  · rcases h with hsent | ⟨entry, hentry, hs, hm⟩
    · rcases mem_rowsTo_append.mp hsent with hsent | ⟨o, ho, hm⟩
      · exact Or.inl (Or.inl hsent)
      · rw [List.mem_singleton.mp ho] at hm
        cases hm
    · rcases List.mem_append.mp hentry with hentry | hentry
      · exact Or.inl (Or.inr ⟨entry, hentry, hs, hm⟩)
      · rw [List.mem_singleton.mp hentry] at hs hm
        exact Or.inr ⟨hs, hm⟩

/-- The loop of `flushRoomMessageBatches` posts the batches to the recipients there were before. -/
theorem Posted.of_flushBatches {l : List (RoomId × List MessageRow)} {n : Node}
    (h : (l.foldl flushBatch n).Posted s m) :
    n.Posted s m ∨ ∃ entry ∈ l, s ∈ n.openSockets entry.1 ∧ m ∈ entry.2 := by
  induction l generalizing n with
  | nil => exact Or.inl h
  | cons entry l ih =>
    have hentry : (n.flushBatch entry).openSockets = n.openSockets ∧
        ((n.flushBatch entry).Posted s m →
          n.Posted s m ∨ s ∈ n.openSockets entry.1 ∧ m ∈ entry.2) := by
      rw [flushBatch]
      split
      · exact ⟨rfl, Or.inl⟩
      · exact ⟨(broadcastToRoom_defers n _ _).2.2, Posted.of_broadcastToRoom⟩
    rcases ih h with h | ⟨entry', hmem, hs, hm⟩
    · exact (hentry.2 h).imp_right fun h ↦ ⟨entry, List.mem_cons_self, h⟩
    · rw [hentry.1] at hs
      exact Or.inr ⟨entry', List.mem_cons_of_mem _ hmem, hs, hm⟩

/-- A callback sends its frame to its recipients. -/
theorem Posted.of_sendToAll {recipients : List SocketId} {frame : ServerFrame} {n : Node}
    (h : (n.sendToAll recipients frame).Posted s m) :
    n.Posted s m ∨ s ∈ recipients ∧ m ∈ frame.rows := by
  induction recipients generalizing n with
  | nil => exact Or.inl h
  | cons s' recipients ih =>
    rcases ih (n := n.send s' (.delivered s' frame)) h with h | ⟨hs, hm⟩
    · rw [send] at h
      split at h
      · rcases h.of_log (n := n) rfl rfl with h | ⟨o, ho, hm⟩
        · exact Or.inl h
        · rw [List.mem_singleton.mp ho, Observation.rowsTo] at hm
          split at hm
          · rename_i hs'
            exact Or.inr ⟨List.mem_cons.mpr (Or.inl hs'.symm), hm⟩
          · cases hm
      · exact Or.inl h
    · exact Or.inr ⟨List.mem_cons_of_mem _ hs, hm⟩

/-! ## Steps -/

/-- Only a history frame that a handler sends has messages. -/
theorem fetched_of_resume {task : Task} {stage : Stage} {promise : Promise} {settled : Settled}
    (hstate : task.state = .awaiting stage promise) (hsettled : n.settledOf promise = some settled)
    {send : Send} (hsend : (stage.resume settled).send = some send) (hm : m ∈ send.frame.rows) :
    m ∈ task.fetched := by
  cases settled with
  | rejected => cases hsend
  | resolved result =>
    cases stage with
    | joinHistory R lastSeenSeq =>
      cases hsend
      rw [Task.fetched, hstate]
      cases promise with
      | settled settled =>
        obtain rfl := Option.some.inj hsettled
        exact hm
      | call id =>
        rw [settledOf.eq_def] at hsettled
        dsimp only at hsettled
        split at hsettled
        · rename_i ok _
          cases ok <;> cases hsettled
          exact hm
        · cases hsettled
      | query => cases hsettled
      | inserting t => cases hsettled
    | joinSubscribe R lastSeenSeq => cases lastSeenSeq <;> cases hsend
    | joinMember R lastSeenSeq =>
      rw [Stage.resume, Stage.proceed] at hsend
      split at hsend <;> cases hsend
      cases hm
    | sendMember R content =>
      rw [Stage.resume, Stage.proceed] at hsend
      split at hsend <;> cases hsend
      cases hm
    | typingStartMember R =>
      rw [Stage.resume, Stage.proceed] at hsend
      split at hsend <;> cases hsend
      cases hm
    | joinPresence R =>
      cases hsend
      cases hm
    | _ => cases hsend

/-- What a step that is not quiet sends, a handler has got before. -/
theorem posted_of_calling_step {e : Event} (he : e.quiet = false) (hstep : n.step e = some n')
    (h : n'.Posted s m) : n.Underway s m := by
  obtain ⟨-, himmediates, -⟩ := batches_of_calling_step he hstep
  cases stepped_of_step hstep with
  | connected => exact Or.inl h
  | received s' frame socket _ _ hreceived =>
    obtain ⟨os, hlog, hos⟩ := hreceived.log_cases
    refine Or.inl (h.of_silent himmediates hlog fun o ho ↦ ?_)
    rcases hos o ho with ⟨_, -, rfl⟩ | ⟨_, -, rfl⟩ | ⟨_, ⟨_, _, rfl⟩, rfl⟩
    · rfl
    · rfl
    · exact ite_self _
  | resumed k task stage settled _ hresumed =>
    obtain ⟨os, hlog, hos⟩ := hresumed.log
    obtain ⟨promise, hstate, hsettled⟩ := hresumed.awaiting
    rcases h.of_log himmediates hlog with h | ⟨o, ho, hm⟩
    · exact Or.inl h
    · rcases hos o ho with rfl | ⟨send, hsend, rfl⟩
      · cases hm
      · rw [Observation.rowsTo, List.mem_ite_nil_right] at hm
        exact Or.inr ⟨task, List.mem_of_getElem? hresumed.get, hm.1,
          fetched_of_resume hstate hsettled hsend hm.2⟩
  | marked _ s' _ _ hmarked =>
    rw [Posted, hmarked.log, himmediates] at h
    exact Or.inl h
  | cleaned _ s' _ _ _ hcleaned =>
    obtain ⟨os, hlog, hos⟩ := hcleaned.log_cases
    refine Or.inl (h.of_silent himmediates hlog fun o ho ↦ ?_)
    rcases hos o ho with rfl | rfl <;> rfl
  | quiet _ _ hquiet => cases he.symm.trans hquiet

/-- What a quiet step posts is flushed. -/
theorem posted_of_quiet_step {e : Event} (he : e.quiet = true) (hstep : n.step e = some n')
    (h : n'.Posted s m) : n.Posted s m ∨ n.FlushesTo e s m := by
  cases hmoves : e.moves with
  | false =>
    left
    rcases stores_of_quiet_step he hmoves hstep with hsame | ⟨d, db, notes, -, hsame⟩
    · rwa [Posted, hsame.log, hsame.immediates] at h
    · obtain ⟨-, -, himmediates⟩ := withDb_frame n db notes
      obtain ⟨os, hlog, hos, -⟩ := log_withDb n db notes
      refine h.of_silent (hsame.immediates.trans himmediates) (hsame.log.trans hlog) fun o ho ↦ ?_
      obtain ⟨c, note, rfl⟩ := hos o ho
      rfl
  | true =>
    cases e with
    | pg d =>
      left
      simp only [step, Option.bind_eq_bind, Option.bind_eq_some_iff] at hstep
      obtain ⟨-, -, pg, -, hstep⟩ := hstep
      cases hstep
      refine h.of_silent rfl rfl fun o ho ↦ ?_
      rw [PgEvent.observation.eq_def] at ho
      split at ho
      · obtain ⟨cmd, -, rfl⟩ := Option.map_eq_some_iff.mp (Option.mem_toList.mp ho)
        rfl
      · cases ho
    | deliver c =>
      left
      simp only [step, Option.bind_eq_bind, Option.bind_eq_some_iff] at hstep
      obtain ⟨pg, -, hstep⟩ := hstep
      split at hstep
      · rename_i note _
        cases hstep
        have hbroadcast : ∀ {R : RoomId} {frame : ServerFrame}, frame.rows = [] →
            (Node.broadcastToRoom { n with pg := pg } R frame).Posted s m → n.Posted s m := by
          intro R frame hframe h
          rcases h.of_broadcastToRoom with h | ⟨-, hm⟩
          · exact h
          · rw [hframe] at hm
            cases hm
        cases note with
        | message row => exact h
        | presence row => exact hbroadcast rfl h
        | typing row => exact hbroadcast rfl h
      · cases hstep
        exact h
    | flush =>
      simp only [step, Option.ite_none_right_eq_some, Option.some.injEq] at hstep
      obtain ⟨-, rfl⟩ := hstep
      rcases Posted.of_flushBatches (n := { n with flushTimer := false }) h with
        h | ⟨⟨R, rows⟩, hentry, hs, hm⟩
      · exact Or.inl h
      · refine Or.inr ⟨rfl, R, hs, ?_⟩
        rw [buffered, EsMap.get_eq_some_iff.mpr (EsMap.mem_toList.mp hentry)]
        exact hm
    | immediate =>
      left
      simp only [step] at hstep
      split at hstep
      · cases hstep
      · rename_i recipients frame rest himmediates
        cases hstep
        have hrest : Node.Posted { n with immediates := rest } s m → n.Posted s m := by
          rintro (h | ⟨entry, hentry, h⟩)
          · exact Or.inl h
          · exact Or.inr ⟨entry, himmediates ▸ List.mem_cons_of_mem _ hentry, h⟩
        rcases Posted.of_sendToAll h with h | h
        · exact hrest h
        · exact Or.inr ⟨_, himmediates ▸ List.mem_cons_self, h⟩
    | _ => cases hmoves

/-- The history query returns messages of the room. -/
theorem of_mem_history {db db' : Db} {R : RoomId} {lastSeenSeq : JsNumber} {result : QueryResult}
    {notes : List Notification}
    (h : db.exec (.selectHistory R lastSeenSeq) = some (db', result, notes))
    (hm : m ∈ result.messageRows) : Uuid.parse R = some m.roomId ∧ m ∈ db.messages := by
  simp only [Db.exec, Option.bind_eq_bind, Option.bind_eq_some_iff, Option.pure_def,
    Option.some.injEq, Prod.mk.injEq] at h
  obtain ⟨r, hr, lastSeen, -, -, rfl, -⟩ := h
  have hbacklog := List.mem_insertionSort _ |>.mp (List.mem_of_mem_take hm)
  obtain ⟨hmessages, hroom⟩ := List.mem_filter.mp (List.mem_filter.mp hbacklog).1
  rw [hr, of_decide_eq_true hroom]
  exact ⟨rfl, hmessages⟩

/-- A handler gets messages for its socket from the history query. -/
theorem fetched_of_step {e : Event} (hstep : n.step e = some n') (h : n'.Fetched s m) :
    n.Fetched s m ∨ n.FetchesFor e s m := by
  obtain ⟨task', htask', rfl, hm⟩ := h
  obtain ⟨k, hget'⟩ := List.mem_iff_getElem?.mp htask'
  rw [Task.fetched] at hm
  rcases task_of_step hstep hget' with
    ⟨task, hget, hsocket, -, hmoves⟩ | ⟨s', socket, frame, -, -, -, rfl⟩
  · generalize task'.state = state' at hm hmoves
    cases hmoves with
    | stays => exact Or.inl ⟨task, List.mem_of_getElem? hget, hsocket.symm, hm⟩
    | ran stage q fate settled event state request result =>
      cases stage with
      | joinHistory R lastSeenSeq =>
        cases settled with
        | rejected => cases hm
        | resolved rows =>
          obtain ⟨rfl, db, notes, hexec⟩ := result rows rfl
          cases request
          obtain ⟨hr, hmessages⟩ := of_mem_history hexec hm
          exact Or.inr ⟨k, task, R, lastSeenSeq, event, hget, hsocket.symm, state, hr, hmessages⟩
      | _ => cases hm
    | inserts => cases hm
    | continues stage stage' promise promise' settled state settles next pending =>
      split at hm
      · rename_i heq
        exact absurd (TaskState.awaiting.inj heq).2 (pending _)
      · cases hm
    | ends => cases hm
  · dsimp only at hm
    split at hm
    · rename_i heq
      rw [firstState] at heq
      split at heq <;> cases heq
    · cases hm

/-- **Step lemma.** A message comes to be underway to a socket when the buffer of a room is flushed
to it, or when a history query runs for it. -/
theorem underway_of_step {e : Event} (hstep : n.step e = some n') (h : n'.Underway s m) :
    n.Underway s m ∨ n.FlushesTo e s m ∨ n.FetchesFor e s m := by
  rcases h with h | h
  · cases hquiet : e.quiet with
    | false => exact Or.inl (posted_of_calling_step hquiet hstep h)
    | true =>
      exact (posted_of_quiet_step hquiet hstep h).imp Or.inl Or.inl
  · exact (fetched_of_step hstep h).imp Or.inr Or.inr

/-! ## What is underway is committed -/

/-- The messages underway, those in the buffers and those that wait at a client are committed. A
buffer holds messages of its own room, a handler works for the user of its socket, and what is
underway is so to a socket there is. -/
structure Backed (n : Node) : Prop where
  keyed : Keyed n
  handlers : ∀ task ∈ n.tasks, n.socketUsers[task.socket]? = some task.userId
  addressed : ∀ s m, n.Underway s m → ∃ userId, n.socketUsers[s]? = some userId
  underway : ∀ s m, n.Underway s m → m ∈ n.db.messages
  buffered : ∀ R, ∀ m ∈ n.buffered R, m ∈ n.db.messages
  waiting : ∀ m, n.pg.Waiting (.message m) → m ∈ n.db.messages

theorem not_underway_start {nodeId : JsString} : ¬ (start nodeId).Underway s m := by
  rintro ((hm | ⟨entry, hentry, -⟩) | ⟨task, htask, -⟩)
  · cases hm
  · cases hentry
  · cases htask

theorem backed_start (nodeId : JsString) : Backed (start nodeId) where
  keyed := by rintro R m ⟨⟩
  handlers := by rintro task ⟨⟩
  addressed _ _ hm := absurd hm not_underway_start
  underway _ _ hm := absurd hm not_underway_start
  buffered := by rintro R m ⟨⟩
  waiting := by
    rintro m ⟨cl, hcl, hm⟩
    rw [List.eq_of_mem_singleton hcl] at hm
    cases hm

/-- A message comes into a buffer, that of its room, when the node handles its notification. -/
theorem buffered_of_step {e : Event} {R : RoomId} (hstep : n.step e = some n')
    (h : m ∈ n'.buffered R) :
    m ∈ n.buffered R ∨ m.roomId.text = R ∧ n.pg.Waiting (.message m) := by
  have hsame : n'.roomMessageBatchBuffers = n.roomMessageBatchBuffers → m ∈ n.buffered R := by
    intro hbuffers
    rwa [buffered, hbuffers] at h
  cases hquiet : e.quiet with
  | false => exact Or.inl (hsame (batches_of_calling_step hquiet hstep).1)
  | true =>
    cases hmoves : e.moves with
    | false =>
      left
      rcases stores_of_quiet_step hquiet hmoves hstep with hstores | ⟨d, db, notes, -, hstores⟩
      · exact hsame hstores.buffers
      · exact hsame (hstores.buffers.trans (withDb_frame n db notes).2.1)
    | true =>
      cases e with
      | deliver c =>
        simp only [step, Option.bind_eq_bind, Option.bind_eq_some_iff] at hstep
        obtain ⟨pg, -, hstep⟩ := hstep
        split at hstep
        · rename_i note hnote
          cases hstep
          cases note with
          | message row =>
            have hkey : (Notification.message row).channel.drop roomChannelPrefix.length =
                row.roomId.text := drop_getRoomNotifyChannel _
            rw [buffered, onNotification, hkey, enqueueRoomMessage, EsMap.get_set] at h
            split at h
            · rename_i hR
              -- It was in the buffer, or is the one delivered in this step.
              rcases List.mem_append.mp h with h | h
              · exact Or.inl (hR ▸ h)
              · obtain rfl := List.mem_singleton.mp h
                exact Or.inr ⟨hR.symm, PostgresService.waiting_of_emitted hnote⟩
            · exact Or.inl h
          | presence row =>
            exact Or.inl (hsame (broadcastToRoom_carries { n with pg := pg } _ _ 0).2.2.1)
          | typing row =>
            exact Or.inl (hsame (broadcastToRoom_carries { n with pg := pg } _ _ 0).2.2.1)
        · cases hstep
          exact Or.inl h
      | flush =>
        simp only [step, Option.ite_none_right_eq_some, Option.some.injEq] at hstep
        obtain ⟨-, rfl⟩ := hstep
        cases h
      | immediate =>
        simp only [step] at hstep
        split at hstep
        · cases hstep
        · rename_i recipients frame rest _
          cases hstep
          refine Or.inl (hsame (foldl_frame roomMessageBatchBuffers (fun n s ↦ ?_) recipients _))
          rw [send]
          split <;> rfl
      | pg d =>
        simp only [step, Option.bind_eq_bind, Option.bind_eq_some_iff] at hstep
        obtain ⟨-, -, pg, -, hstep⟩ := hstep
        cases hstep
        exact Or.inl h
      | _ => cases hmoves

/-- What the database notifies waits at the clients. -/
theorem waiting_of_notify {p p' : PostgresService} {note : Notification}
    {notes : List Notification}
    (hrun : run PostgresService.step p (notes.map PgEvent.notify) = some p')
    (h : p'.Waiting note) : p.Waiting note ∨ note ∈ notes := by
  induction notes generalizing p with
  | nil =>
    cases hrun
    exact Or.inl h
  | cons note' notes ih =>
    obtain ⟨q, hq, hrun⟩ := run_cons_eq_some.mp hrun
    rcases ih hrun with h | h
    · rcases PostgresService.waiting_of_step hq h with h | h
      · exact Or.inl h
      · cases h
        exact Or.inr List.mem_cons_self
    · exact Or.inr (List.mem_cons_of_mem _ h)

/-- A message waits at a client from when it is committed. -/
theorem waiting_of_step {e : Event} (hstep : n.step e = some n')
    (h : n'.pg.Waiting (.message m)) : n.pg.Waiting (.message m) ∨ m ∈ n'.db.messages := by
  have hpasses : ∀ {p p' : PostgresService} {d : PgEvent}, (∀ note, d ≠ .notify note) →
      p.step d = some p' → p'.Waiting (.message m) → p.Waiting (.message m) :=
    fun hd hstep h ↦ (PostgresService.waiting_of_step hstep h).resolve_right (hd _)
  have hbackend : ∀ {n₁ n₂ : Node}, n₁.backend = n₂.backend →
      n₁.pg.Waiting (.message m) → n₂.pg.Waiting (.message m) := by
    intro n₁ n₂ heq h
    have hpg : n₁.pg = n₂.pg := congrArg Prod.snd heq
    rwa [hpg] at h
  cases hquiet : e.quiet with
  | false =>
    exact Or.inl (pg_of_calling_step (P := fun pg ↦ pg.Waiting (.message m) →
      n.pg.Waiting (.message m)) hquiet
      (fun pg R hpg h ↦ hpg (hpasses (d := .subscribe R) (by rintro _ ⟨⟩) rfl h))
      (fun pg R hpg h ↦ hpg (hpasses (d := .unsubscribe R) (by rintro _ ⟨⟩) rfl h)) id hstep h)
  | true =>
    cases hmoves : e.moves with
    | false =>
      rcases stores_of_quiet_step hquiet hmoves hstep with hsame | ⟨d, db, notes, happly, hsame⟩
      · exact Or.inl (hsame.pg ▸ h)
      · rw [hsame.pg] at h
        refine (waiting_of_notify (pg_withDb n db notes) h).imp_right fun hnote ↦ ?_
        rw [hsame.db, (withDb_frame n db notes).1, Db.messages_of_apply happly]
        exact List.mem_append_right _ (List.mem_filterMap.mpr ⟨_, hnote, rfl⟩)
    | true =>
      left
      cases e with
      | pg d =>
        simp only [step, Option.bind_eq_bind, Option.bind_eq_some_iff,
          Option.guard_eq_some'] at hstep
        obtain ⟨-, hinternal, pg, hd, hstep⟩ := hstep
        cases hstep
        refine hpasses ?_ hd h
        rintro note rfl
        cases hinternal
      | deliver c =>
        simp only [step, Option.bind_eq_bind, Option.bind_eq_some_iff] at hstep
        obtain ⟨pg, hd, hstep⟩ := hstep
        refine hpasses (d := .deliver c) (by rintro _ ⟨⟩) hd ?_
        split at hstep
        · cases hstep
          exact hbackend (backend_onNotification { n with pg := pg } _) h
        · cases hstep
          exact h
      | flush =>
        simp only [step, Option.ite_none_right_eq_some, Option.some.injEq] at hstep
        obtain ⟨-, rfl⟩ := hstep
        exact hbackend (backend_flushRoomMessageBatches { n with flushTimer := false }) h
      | immediate =>
        simp only [step] at hstep
        split at hstep
        · cases hstep
        · rename_i recipients frame rest _
          cases hstep
          exact hbackend (backend_sendToAll { n with immediates := rest } recipients frame) h
      | _ => cases hmoves

theorem socket_of_accepts (h : n.accepts s = true) : ∃ socket, n.sockets[s]? = some socket := by
  rw [accepts] at h
  split at h
  · rename_i socket hsocket
    exact ⟨socket, hsocket⟩
  · cases h

/-- A handler works for the user of the socket whose frame has started it. -/
theorem handlers_of_step {e : Event} (hstep : n.step e = some n')
    (h : ∀ task ∈ n.tasks, n.socketUsers[task.socket]? = some task.userId) :
    ∀ task ∈ n'.tasks, n'.socketUsers[task.socket]? = some task.userId := by
  intro task' htask'
  obtain ⟨k, hget'⟩ := List.mem_iff_getElem?.mp htask'
  refine socketUser_of_step hstep ?_
  rcases task_of_step hstep hget' with
    ⟨task, hget, hsocket, hu, -⟩ | ⟨s, socket, frame, -, hsocket, -, rfl⟩
  · rw [hsocket, hu]
    exact h task (List.mem_of_getElem? hget)
  · exact socketUsers_get hsocket

theorem Backed.step (h : Backed n) {e : Event} (hstep : n.step e = some n') : Backed n' := by
  obtain ⟨rows, -, hmessages, -⟩ := committed_of_step hstep
  have hgrows : ∀ m ∈ n.db.messages, m ∈ n'.db.messages := fun m hm ↦
    hmessages ▸ List.mem_append_left _ hm
  refine ⟨fun R m hm ↦ ?_, handlers_of_step hstep h.handlers, fun s m hm ↦ ?_,
    fun s m hm ↦ hgrows m ?_, fun R m hm ↦ hgrows m ?_, fun m hm ↦ ?_⟩
  · rcases buffered_of_step hstep hm with hm | ⟨hR, -⟩
    · exact h.keyed R m hm
    · exact hR
  · suffices hsome : ∃ userId, n.socketUsers[s]? = some userId from
      hsome.imp fun _ hget ↦ socketUser_of_step hstep hget
    rcases underway_of_step hstep hm with hm | ⟨-, R, hs, -⟩ |
      ⟨k, task, _, _, -, hget, rfl, -, -, -⟩
    · exact h.addressed s m hm
    · obtain ⟨socket, hsocket⟩ := socket_of_accepts (List.mem_filter.mp hs).2
      exact ⟨_, socketUsers_get hsocket⟩
    · exact ⟨_, h.handlers task (List.mem_of_getElem? hget)⟩
  · rcases underway_of_step hstep hm with hm | ⟨-, R, -, hm⟩ | ⟨_, _, _, _, -, -, -, -, -, hm⟩
    · exact h.underway s m hm
    · exact h.buffered R m hm
    · exact hm
  · rcases buffered_of_step hstep hm with hm | ⟨-, hm⟩
    · exact h.buffered R m hm
    · exact h.waiting m hm
  · rcases waiting_of_step hstep hm with hm | hm
    · exact hgrows m (h.waiting m hm)
    · exact hm

end Node

end PostgresChat
