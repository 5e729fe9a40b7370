import PostgresChat.Chat.Wire
import PostgresChat.Node.Underway

/-!
# The frames a socket is sent

A frame reaches a socket as the reply of a handler, or from a callback of `setImmediate` that a
broadcast has scheduled. A property of frames that all broadcasts and all replies have is therefore
one of all frames that are sent (`Writes.step`).

One such property is that the `next_cursor` of a history frame can be written as JSON. It is a
`seq`, or the `last_seen_seq` of the request, which came as JSON, and which the database has read as
a `bigint`; so it is a finite double (`Written`).
-/

namespace PostgresChat

open Execution

/-! ## What is sent -/

/-- The frame an entry of the log is about, and the socket it has been sent to. -/
def Observation.sent? : Observation → Option (SocketId × ServerFrame)
  | .replied _ s frame | .delivered s frame => some (s, frame)
  | _ => none

/-- The frames that `broadcastToRoom` is called with. -/
def ServerFrame.isBroadcast : ServerFrame → Bool
  | .newMessageBatch _ | .presence _ | .typing _ => true
  | .error .. | .history .. | .joinedRoom _ => false

/-- The `last_seen_seq` a handler still has. -/
def Stage.lastSeenSeq : Stage → Option JsNumber
  | .joinMember _ lastSeenSeq | .joinSubscribe _ lastSeenSeq => lastSeenSeq
  | .joinHistory _ lastSeenSeq => some lastSeenSeq
  | _ => none

/-- The cursor of a history frame is a `seq`, or a finite number of the runtime. -/
def ServerFrame.CursorFits : ServerFrame → Prop
  | .history _ (.lastSeenSeq n) => ∃ q, n = .finite q ∧ JsNumber.IsDouble q
  | _ => True

/-- A number of the runtime. -/
def IsNumber (n : JsNumber) : Prop := ∀ q, n = .finite q → JsNumber.IsDouble q

/-- A frame that arrives has been read from bytes. -/
def Event.FromWire (e : Event) : Prop :=
  ∀ s frame, e = .frame s frame → ∃ raw, receivedFrame raw = some frame

theorem finite_of_bigintParam {n : JsNumber} (h : (bigintParam n).isSome = true) :
    ∃ q, n = .finite q := by
  rcases n with _ | negative | q
  · exact absurd h (by decide)
  · rcases negative with _ | _ <;> exact absurd h (by decide)
  · exact ⟨q, rfl⟩

/-- The `last_seen_seq` that was read is a number of the runtime. -/
theorem isNumber_of_receivedFrame {raw : List UInt8} {payload : JoinRoomPayload}
    (h : receivedFrame raw = some (.joinRoom payload)) {n : JsNumber}
    (hn : payload.lastSeenSeq = some n) : IsNumber n := by
  rintro q rfl
  have hrequest : (ClientFrame.joinRoom payload).request? =
      some (.joinRoom payload.roomId (some q)) := by
    rw [ClientFrame.request?, hn]
  exact (writable_of_receivedFrame h hrequest).1 q rfl

namespace Node

variable {n n' : Node} {s : SocketId} {frame : ServerFrame} {Q : ServerFrame → Prop}

/-- The socket has been sent the frame. -/
def Sent (n : Node) (s : SocketId) (frame : ServerFrame) : Prop :=
  ∃ o ∈ n.log, o.sent? = some (s, frame)

instance (n : Node) (s : SocketId) (frame : ServerFrame) : Decidable (n.Sent s frame) :=
  inferInstanceAs (Decidable (∃ o ∈ n.log, o.sent? = some (s, frame)))

/-- All frames that have been sent, or that callbacks are going to send, have the property. -/
structure Writes (Q : ServerFrame → Prop) (n : Node) : Prop where
  sent : ∀ s frame, n.Sent s frame → Q frame
  scheduled : ∀ entry ∈ n.immediates, Q entry.2

theorem Writes.of_log (h : Writes Q n) {os : List Observation}
    (himmediates : n'.immediates = n.immediates) (hlog : n'.log = n.log ++ os)
    (hos : ∀ o ∈ os, ∀ s frame, o.sent? = some (s, frame) → Q frame) : Writes Q n' := by
  refine ⟨?_, himmediates ▸ h.scheduled⟩
  rintro s frame ⟨o, ho, hsent⟩
  rw [hlog] at ho
  rcases List.mem_append.mp ho with ho | ho
  · exact h.sent s frame ⟨o, ho, hsent⟩
  · exact hos o ho s frame hsent

theorem Writes.of_silent (h : Writes Q n) {os : List Observation}
    (himmediates : n'.immediates = n.immediates) (hlog : n'.log = n.log ++ os)
    (hos : ∀ o ∈ os, o.sent? = none) : Writes Q n' :=
  h.of_log himmediates hlog fun o ho _ _ hsent ↦ absurd ((hos o ho).symm.trans hsent) nofun

/-! ## Broadcasts -/

theorem Writes.broadcastToRoom (h : Writes Q n) {R : RoomId} (hQ : Q frame) :
    Writes Q (n.broadcastToRoom R frame) := by
  rw [Node.broadcastToRoom]
  split
  · exact h
  · have hselected : Writes Q (n.observe (.selected R frame (n.openSockets R))) :=
      h.of_silent rfl rfl fun o ho ↦ List.mem_singleton.mp ho ▸ rfl
    refine ⟨hselected.sent, fun entry hentry ↦ ?_⟩
    rcases List.mem_append.mp hentry with hentry | hentry
    · exact h.scheduled entry hentry
    · exact List.mem_singleton.mp hentry ▸ hQ

theorem Writes.flushBatches (hQ : ∀ frame, frame.isBroadcast = true → Q frame)
    {l : List (RoomId × List MessageRow)} {n : Node} (h : Writes Q n) :
    Writes Q (l.foldl flushBatch n) := by
  induction l generalizing n with
  | nil => exact h
  | cons entry l ih =>
    refine ih ?_
    rw [flushBatch]
    split
    · exact h
    · exact h.broadcastToRoom (hQ _ rfl)

theorem Writes.sendToAll {recipients : List SocketId} (hQ : Q frame) {n : Node}
    (h : Writes Q n) : Writes Q (n.sendToAll recipients frame) := by
  induction recipients generalizing n with
  | nil => exact h
  | cons s recipients ih =>
    refine ih (n := n.send s (.delivered s frame)) ?_
    rw [Node.send]
    split
    · refine h.of_log rfl rfl fun o ho s' frame' hsent ↦ ?_
      rw [List.mem_singleton.mp ho] at hsent
      cases hsent
      exact hQ
    · exact h

/-! ## Steps -/

/-- **Step lemma.** Frames come from broadcasts, from errors in payloads, and from handlers that
continue. -/
theorem Writes.step (h : Writes Q n) (hbroadcast : ∀ frame, frame.isBroadcast = true → Q frame)
    (herror : ∀ message code, Q (.error message code))
    (hresume : ∀ (k : ℕ) (task : Task) (stage : Stage) (promise : Promise) (settled : Settled)
      (send : Send), n.tasks[k]? = some task → task.state = .awaiting stage promise →
      n.settledOf promise = some settled → (stage.resume settled).send = some send →
      Q send.frame)
    {e : Event} (hstep : n.step e = some n') : Writes Q n' := by
  cases hquiet : e.quiet with
  | false =>
    obtain ⟨-, himmediates, -⟩ := batches_of_calling_step hquiet hstep
    cases stepped_of_step hstep with
    | connected => exact ⟨h.sent, h.scheduled⟩
    | received s' frame socket _ _ hreceived =>
      obtain ⟨os, hlog, hos⟩ := hreceived.log_cases
      refine h.of_log himmediates hlog fun o ho s frame hsent ↦ ?_
      rcases hos o ho with ⟨_, -, rfl⟩ | ⟨_, -, rfl⟩ | ⟨_, ⟨message, code, rfl⟩, rfl⟩
      · cases hsent
      · cases hsent
      · cases hsent
        exact herror message code
    | resumed k task stage settled _ hresumed =>
      obtain ⟨os, hlog, hos⟩ := hresumed.log
      obtain ⟨promise, hstate, hsettled⟩ := hresumed.awaiting
      refine h.of_log himmediates hlog fun o ho s frame hsent ↦ ?_
      rcases hos o ho with rfl | ⟨send, hsend, rfl⟩
      · cases hsent
      · cases hsent
        exact hresume k task stage promise settled send hresumed.get hstate hsettled hsend
    | marked _ s' _ _ hmarked =>
      exact h.of_silent himmediates (hmarked.log.trans (List.append_nil _).symm) nofun
    | cleaned _ s' _ _ _ hcleaned =>
      obtain ⟨os, hlog, hos⟩ := hcleaned.log_cases
      refine h.of_silent himmediates hlog fun o ho ↦ ?_
      rcases hos o ho with rfl | rfl <;> rfl
    | quiet _ _ hquiet' => cases hquiet.symm.trans hquiet'
  | true =>
    cases hmoves : e.moves with
    | false =>
      rcases stores_of_quiet_step hquiet hmoves hstep with hsame | ⟨d, db, notes, -, hsame⟩
      · exact h.of_silent hsame.immediates (hsame.log.trans (List.append_nil _).symm) nofun
      · obtain ⟨-, -, himmediates⟩ := withDb_frame n db notes
        obtain ⟨os, hlog, hos, -⟩ := log_withDb n db notes
        refine h.of_silent (hsame.immediates.trans himmediates) (hsame.log.trans hlog)
          fun o ho ↦ ?_
        obtain ⟨c, note, rfl⟩ := hos o ho
        rfl
    | true =>
      cases e with
      | pg d =>
        simp only [Node.step, Option.bind_eq_bind, Option.bind_eq_some_iff] at hstep
        obtain ⟨-, -, pg, -, hstep⟩ := hstep
        cases hstep
        refine h.of_silent rfl rfl fun o ho ↦ ?_
        rw [PgEvent.observation.eq_def] at ho
        split at ho
        · obtain ⟨cmd, -, rfl⟩ := Option.map_eq_some_iff.mp (Option.mem_toList.mp ho)
          rfl
        · cases ho
      | deliver c =>
        simp only [Node.step, Option.bind_eq_bind, Option.bind_eq_some_iff] at hstep
        obtain ⟨pg, -, hstep⟩ := hstep
        have hpg : Writes Q { n with pg := pg } := ⟨h.sent, h.scheduled⟩
        split at hstep
        · rename_i note _
          cases hstep
          rcases note with row | row | row
          · exact ⟨h.sent, h.scheduled⟩
          · exact hpg.broadcastToRoom (hbroadcast _ rfl)
          · exact hpg.broadcastToRoom (hbroadcast _ rfl)
        · cases hstep
          exact hpg
      | flush =>
        simp only [Node.step, Option.ite_none_right_eq_some, Option.some.injEq] at hstep
        obtain ⟨-, rfl⟩ := hstep
        have htimer : Writes Q { n with flushTimer := false } := ⟨h.sent, h.scheduled⟩
        have hfold := htimer.flushBatches hbroadcast (l := n.roomMessageBatchBuffers.toList)
        exact ⟨hfold.sent, hfold.scheduled⟩
      | immediate =>
        simp only [Node.step] at hstep
        split at hstep
        · cases hstep
        · rename_i recipients frame rest himmediates
          cases hstep
          have hrest : Writes Q { n with immediates := rest } :=
            ⟨h.sent, fun entry hentry ↦
              h.scheduled entry (himmediates ▸ List.mem_cons_of_mem _ hentry)⟩
          exact hrest.sendToAll (h.scheduled _ (himmediates ▸ List.mem_cons_self))
      | _ => cases hmoves

/-! ## Cursors -/

/-- The cursors of history frames can be written: those that have been sent, and those of handlers
on the way. -/
structure Written (n : Node) : Prop where
  writes : Writes ServerFrame.CursorFits n
  received : ∀ (k : ℕ) (task : Task) (stage : Stage) (promise : Promise), n.tasks[k]? = some task →
    task.state = .awaiting stage promise → ∀ m ∈ stage.lastSeenSeq, IsNumber m
  /-- The history query has read the cursor as a `bigint`. -/
  fetched : ∀ (k : ℕ) (task : Task) (R : RoomId) (m : JsNumber) (promise : Promise),
    n.tasks[k]? = some task → task.state = .awaiting (.joinHistory R m) promise →
    promise = .query ∨ ∃ settled, promise = .settled settled ∧
      ∀ result, settled = .resolved result → ∃ q, m = .finite q

theorem written_start (nodeId : JsString) : Written (start nodeId) := by
  refine ⟨⟨?_, by rintro _ ⟨⟩⟩, by rintro _ _ _ _ ⟨⟩, by rintro _ _ _ _ _ ⟨⟩⟩
  rintro s frame ⟨o, ho, -⟩
  cases ho

/-- A handler keeps the `last_seen_seq` of its frame. -/
theorem lastSeenSeq_of_resume {stage stage' : Stage} {settled : Settled}
    (hnext : (stage.resume settled).next = .await stage') {m : JsNumber}
    (hm : m ∈ stage'.lastSeenSeq) : m ∈ stage.lastSeenSeq := by
  rcases settled with result | _
  · cases stage with
    | joinSubscribe R lastSeenSeq =>
      rcases lastSeenSeq with _ | m'
      · cases hnext
        cases hm
      · cases hnext
        exact hm
    | joinMember R lastSeenSeq =>
      rw [Stage.resume, Stage.proceed] at hnext
      split at hnext <;> cases hnext
      exact hm
    | sendMember R content =>
      rw [Stage.resume, Stage.proceed] at hnext
      split at hnext <;> cases hnext
      cases hm
    | typingStartMember R =>
      rw [Stage.resume, Stage.proceed] at hnext
      split at hnext <;> cases hnext
      cases hm
    | joinHistory R lastSeenSeq =>
      cases hnext
      cases hm
    | leavePresence R =>
      cases hnext
      cases hm
    | _ => cases hnext
  · cases hnext

/-- The `last_seen_seq` of a handler that has just started is that of its frame. -/
theorem lastSeenSeq_of_firstState {userId : UserId} {frame : ClientFrame} {stage : Stage}
    {promise : Promise} (hstate : firstState userId frame = .awaiting stage promise) {m : JsNumber}
    (hm : m ∈ stage.lastSeenSeq) :
    ∃ payload, frame = .joinRoom payload ∧ payload.lastSeenSeq = some m := by
  by_cases hu : userId = []
  · simp only [firstState, handleFrame, hu, if_true] at hstate
    cases hstate
  · cases frame with
    | joinRoom payload =>
      simp only [firstState, handleFrame, hu, if_false] at hstate
      cases hstate
      exact ⟨payload, rfl, hm⟩
    | sendMessage payload =>
      simp only [firstState, handleFrame, hu, if_false, handleSendMessage_eq] at hstate
      cases hstate
      cases hm
    | _ =>
      simp only [firstState, handleFrame, hu, if_false] at hstate
      cases hstate <;> cases hm

theorem promise_of_firstState {userId : UserId} {frame : ClientFrame} {stage : Stage}
    {promise : Promise} (hstate : firstState userId frame = .awaiting stage promise) :
    promise = .query := by
  rw [firstState] at hstate
  split at hstate <;> cases hstate
  rfl

/-- What a handler that continues replies. -/
theorem Written.reply (h : Written n) {k : ℕ} {task : Task} {stage : Stage} {promise : Promise}
    {settled : Settled} {send : Send} (hget : n.tasks[k]? = some task)
    (hstate : task.state = .awaiting stage promise) (hsettled : n.settledOf promise = some settled)
    (hsend : (stage.resume settled).send = some send) : send.frame.CursorFits := by
  rcases settled with result | _
  · cases stage with
    | joinHistory R m =>
      obtain rfl := Option.some.inj hsend
      have hnumber := h.received k task _ promise hget hstate m rfl
      obtain ⟨q, rfl⟩ : ∃ q, m = .finite q := by
        rcases h.fetched k task R m promise hget hstate with rfl | ⟨settled, rfl, hfetched⟩
        · cases hsettled
        · exact hfetched result (Option.some.inj hsettled)
      dsimp only
      rw [nextCursor]
      split
      · exact trivial
      · exact ⟨q, rfl, hnumber q rfl⟩
    | joinSubscribe R lastSeenSeq => cases lastSeenSeq <;> cases hsend
    | joinMember R lastSeenSeq =>
      rw [Stage.resume, Stage.proceed] at hsend
      split at hsend <;> cases hsend
      exact trivial
    | sendMember R content =>
      rw [Stage.resume, Stage.proceed] at hsend
      split at hsend <;> cases hsend
      exact trivial
    | typingStartMember R =>
      rw [Stage.resume, Stage.proceed] at hsend
      split at hsend <;> cases hsend
      exact trivial
    | joinPresence R =>
      cases hsend
      exact trivial
    | _ => cases hsend
  · cases hsend

/-- **Step lemma.** -/
theorem Written.step (h : Written n) {e : Event} (he : e.FromWire) (hstep : n.step e = some n') :
    Written n' := by
  refine ⟨h.writes.step (fun frame hframe ↦ ?_) (fun _ _ ↦ trivial)
    (fun k task stage promise settled send ↦ h.reply) hstep,
    fun k task' stage' promise' hget' hstate' m hm ↦ ?_,
    fun k task' R m promise' hget' hstate' ↦ ?_⟩
  · cases frame <;> first | exact trivial | cases hframe
  · rcases task_of_step hstep hget' with
      ⟨task, hget, -, -, hmoves⟩ | ⟨s, socket, frame, rfl, -, -, rfl⟩
    · rw [hstate'] at hmoves
      generalize hstate : TaskState.awaiting stage' promise' = state' at hmoves
      cases hmoves with
      | stays => exact h.received k task stage' promise' hget hstate.symm m hm
      | ran stage q fate settled event state =>
        cases hstate
        exact h.received k task _ _ hget state m hm
      | inserts R content promise promise'' state =>
        cases hstate
        exact h.received k task _ _ hget state m hm
      | continues stage _ promise _ settled state settles next =>
        cases hstate
        exact h.received k task stage promise hget state m (lastSeenSeq_of_resume next hm)
      | ends => cases hstate
    · obtain ⟨payload, rfl, hpayload⟩ := lastSeenSeq_of_firstState hstate' hm
      obtain ⟨raw, hraw⟩ := he s _ rfl
      exact isNumber_of_receivedFrame hraw hpayload
  · rcases task_of_step hstep hget' with
      ⟨task, hget, -, -, hmoves⟩ | ⟨s, socket, frame, -, -, -, rfl⟩
    · rw [hstate'] at hmoves
      generalize hstate : TaskState.awaiting (.joinHistory R m) promise' = state' at hmoves
      cases hmoves with
      | stays => exact h.fetched k task R m promise' hget hstate.symm
      | ran stage q fate settled event state request result =>
        cases hstate
        refine Or.inr ⟨settled, rfl, fun rows hrows ↦ ?_⟩
        obtain ⟨-, db, notes, hexec⟩ := result rows hrows
        cases request
        simp only [Db.exec, Option.bind_eq_bind, Option.bind_eq_some_iff] at hexec
        obtain ⟨r, -, lastSeen, hlast, -⟩ := hexec
        exact finite_of_bigintParam (Option.isSome_iff_exists.mpr ⟨lastSeen, hlast⟩)
      | inserts => cases hstate
      | continues stage _ promise _ settled state settles next pending asks =>
        cases hstate
        exact Or.inl (asks _ rfl)
      | ends => cases hstate
    · exact Or.inl (promise_of_firstState hstate')

end Node

end PostgresChat
