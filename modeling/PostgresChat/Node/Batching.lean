import PostgresChat.Node.Delivery
import PostgresChat.Node.FailedJoin

/-!
# Batching

A message that arrives is put into the buffer of its room. When the flush timer fires, every buffer
is passed to `broadcastToRoom`, which picks the recipients among the sockets of the room and leaves
the sending to a callback of `setImmediate`.

The traffic of a run is the list of these calls. Three equations say that none of them loses or
duplicates anything (`Batched`): the payloads of a room that have arrived are those in its batches
and in its buffer; the callbacks that have been scheduled are those that have run and those that
wait; and what a socket has been sent in batches is what the callbacks sent to it while it was open.
The flush timer is armed as long as there is a buffer.

A callback sends to the recipients that were picked at the flush. One that has closed meanwhile gets
nothing.
-/

namespace PostgresChat

open Execution

/-! ## Traffic -/

/-- A call on the way from a notification to the sockets. -/
inductive Traffic where
  /-- `enqueueRoomMessage` is called. -/
  | enqueued (roomId : RoomId) (row : MessageRow)
  /-- `broadcastToRoom` is called and picks `recipients`. -/
  | broadcast (roomId : RoomId) (frame : ServerFrame) (recipients : List SocketId)
  /-- A callback of `setImmediate` calls `socket.send` for `recipients`; `opened` are open. -/
  | sent (recipients opened : List SocketId) (frame : ServerFrame)
  deriving DecidableEq

namespace Traffic

/-- The payload that arrives for a room. -/
def arrival (R : RoomId) : Traffic → List MessageRow
  | enqueued R' row => if R' = R then [row] else []
  | broadcast .. | sent .. => []

/-- The batch that is passed to `broadcastToRoom` for a room. -/
def batchFor (R : RoomId) : Traffic → List MessageRow
  | broadcast R' frame _ => if R' = R then frame.batch else []
  | enqueued .. | sent .. => []

/-- The callback that `broadcastToRoom` passes to `setImmediate`. -/
def deferred : Traffic → List (List SocketId × ServerFrame)
  | broadcast _ frame recipients => if recipients = [] then [] else [(recipients, frame)]
  | enqueued .. | sent .. => []

/-- The callback that runs. -/
def ran : Traffic → List (List SocketId × ServerFrame)
  | sent recipients _ frame => [(recipients, frame)]
  | enqueued .. | broadcast .. => []

/-- The batch that a socket is sent. -/
def sentTo (s : SocketId) : Traffic → List MessageRow
  | sent _ opened frame => if s ∈ opened then frame.batch else []
  | enqueued .. | broadcast .. => []

end Traffic

namespace Node

/-- The buffers that `flushRoomMessageBatches` does not skip. -/
def batches (n : Node) : List (RoomId × List MessageRow) :=
  n.roomMessageBatchBuffers.toList.filter fun entry ↦ entry.2 ≠ []

/-- What the listener for a notification calls. -/
def announced (n : Node) : Notification → List Traffic
  | .message row =>
    [.enqueued ((Notification.message row).channel.drop roomChannelPrefix.length) row]
  | .presence row =>
    [.broadcast row.roomId.text (.presence row) (n.openSockets row.roomId.text)]
  | .typing row => [.broadcast row.roomId.text (.typing row) (n.openSockets row.roomId.text)]

/-- The calls made in a step. -/
def traffic (n : Node) : Event → List Traffic
  | .deliver c => (n.pg.emitted c).elim [] n.announced
  | .flush =>
    n.batches.map fun entry ↦
      .broadcast entry.1 (.newMessageBatch entry.2) (n.openSockets entry.1)
  | .immediate =>
    match n.immediates with
    | [] => []
    | (recipients, frame) :: _ => [.sent recipients (recipients.filter n.isOpen) frame]
  | _ => []

/-- **The accounts of a run.** `ts` is the traffic up to now. -/
structure Batched (ts : List Traffic) (n : Node) : Prop where
  /-- What has arrived for a room has been passed on, in its order, or is in the buffer. -/
  complete : ∀ R, ts.flatMap (·.arrival R) = ts.flatMap (·.batchFor R) ++ n.buffered R
  /-- The flush timer is armed exactly when there is a buffer. -/
  armed : n.flushTimer = true ↔ ∃ R rows, n.roomMessageBatchBuffers.get R = some rows
  filled : ∀ R rows, n.roomMessageBatchBuffers.get R = some rows → rows ≠ []
  /-- The callbacks run once, in the order in which they have been scheduled. -/
  once : ts.flatMap Traffic.deferred = ts.flatMap Traffic.ran ++ n.immediates
  /-- What a socket has been sent. -/
  sent : ∀ s, batchesTo n.log s = ts.flatMap (·.sentTo s)
  /-- A callback sends to each of its recipients once. -/
  nodup : ∀ R frame recipients, .broadcast R frame recipients ∈ ts → recipients.Nodup

variable {n n' : Node} {ts : List Traffic}

/-! ## The flush timer -/

theorem flushTimer_removeSocketFromRoom (n : Node) (R : RoomId) (s : SocketId) :
    (n.removeSocketFromRoom R s).flushTimer = n.flushTimer := by
  rw [removeSocketFromRoom]
  split
  · rfl
  · split <;> rfl

theorem flushTimer_cleanupSocket (n : Node) (s : SocketId) (userId : UserId) :
    (n.cleanupSocket s userId).flushTimer = n.flushTimer := by
  rw [cleanupSocket]
  refine (foldl_frame flushTimer (fun n R ↦ ?_) _ _).trans ?_
  · change (if s ∈ n.socketsOf R then n.removeSocketFromRoom R s else n).flushTimer = _
    split
    · exact flushTimer_removeSocketFromRoom n R s
    · rfl
  · rw [removeUserSocket]
    split
    · rfl
    · split <;> rfl

theorem flushTimer_takeTurn (n : Node) (k : ℕ) (task : Task) (turn : Turn) :
    (n.takeTurn k task turn).flushTimer = n.flushTimer := by
  obtain ⟨send, next⟩ := turn
  have hproceed : ∀ n' : Node, (n'.proceed k task next).flushTimer = n'.flushTimer := fun n' ↦ by
    cases next <;> rfl
  rw [takeTurn, hproceed]
  cases send with
  | none => rfl
  | some send =>
    change (n.send task.socket _).flushTimer = _
    rw [Node.send]
    split <;> rfl

theorem flushTimer_updateRooms (n : Node) (k : ℕ) (s : SocketId) (frame : ClientFrame) :
    (n.updateRooms k s frame).flushTimer = n.flushTimer := by
  cases frame with
  | leaveRoom payload => exact flushTimer_removeSocketFromRoom _ _ _
  | _ => rfl

theorem flushTimer_withDb (n : Node) (db : Db) (notes : List Notification) :
    (n.withDb db notes).flushTimer = n.flushTimer :=
  foldl_frame flushTimer (f := notify) (fun _ _ ↦ rfl) notes { n with db := db }

/-- The timer belongs to the steps that move messages along. -/
theorem flushTimer_of_step {e : Event} (he : e.moves = false) (hdestroy : e ≠ .destroyChat)
    (hstep : n.step e = some n') : n'.flushTimer = n.flushTimer := by
  cases e with
  | connect userId =>
    simp only [step, Option.dite_none_right_eq_some, Option.some.injEq] at hstep
    obtain ⟨-, rfl⟩ := hstep
    rfl
  | frame s frame =>
    simp only [step, Option.bind_eq_bind, Option.bind_eq_some_iff] at hstep
    obtain ⟨socket, -, -, -, hstep⟩ := hstep
    cases hstep
    exact (flushTimer_takeTurn _ _ _ _).trans (flushTimer_updateRooms _ _ _ _)
  | runQuery k fate =>
    obtain ⟨task, stage, q, -, -, -, rfl⟩ := ran_of_step hstep
    unfold Node.runQuery
    split
    · exact flushTimer_withDb _ _ _
    · exact flushTimer_withDb _ _ _
    · rfl
  | beginInsert k =>
    simp only [step, Option.bind_eq_bind, Option.bind_eq_some_iff] at hstep
    obtain ⟨task, -, hstep⟩ := hstep
    split at hstep
    · cases hstep
      rw [Node.beginInsert]
      split
      · exact flushTimer_withDb _ _ _
      · rfl
    · cases hstep
  | insertSettles k lost =>
    simp only [step, Option.bind_eq_bind, Option.bind_eq_some_iff] at hstep
    obtain ⟨task, -, hstep⟩ := hstep
    split at hstep
    · simp only [Option.bind_eq_some_iff] at hstep
      obtain ⟨ins, -, -, -, hstep⟩ := hstep
      cases hstep
      rfl
    · cases hstep
  | db d =>
    simp only [step, Option.bind_eq_bind, Option.bind_eq_some_iff] at hstep
    obtain ⟨⟨db, notes⟩, -, hstep⟩ := hstep
    cases hstep
    exact flushTimer_withDb _ _ _
  | resume k =>
    simp only [step, Option.bind_eq_bind, Option.bind_eq_some_iff] at hstep
    obtain ⟨task, -, hstep⟩ := hstep
    split at hstep
    · rename_i stage promise _
      simp only [Option.bind_eq_some_iff] at hstep
      obtain ⟨settled, -, hstep⟩ := hstep
      cases hstep
      refine (flushTimer_takeTurn _ _ _ _).trans ?_
      rw [observeCheck.eq_def]
      split
      · split <;> rfl
      · rfl
    · cases hstep
  | heartbeat s =>
    simp only [step, Option.bind_eq_bind, Option.bind_eq_some_iff] at hstep
    obtain ⟨socket, -, -, -, hstep⟩ := hstep
    split at hstep
    · cases hstep
      rfl
    · cases hstep
      exact flushTimer_cleanupSocket _ _ _
  | socketError s =>
    simp only [step, Option.bind_eq_bind, Option.bind_eq_some_iff] at hstep
    obtain ⟨socket, -, -, -, hstep⟩ := hstep
    cases hstep
    exact flushTimer_cleanupSocket _ _ _
  | socketClosing s =>
    simp only [step, Option.bind_eq_bind, Option.bind_eq_some_iff] at hstep
    obtain ⟨socket, -, -, -, hstep⟩ := hstep
    cases hstep
    rfl
  | socketClose s =>
    simp only [step, Option.bind_eq_bind, Option.bind_eq_some_iff] at hstep
    obtain ⟨socket, -, -, -, hstep⟩ := hstep
    cases hstep
    exact flushTimer_cleanupSocket _ _ _
  | pong s =>
    cases hstep
    rfl
  | buffered s bytes =>
    cases hstep
    rfl
  | destroyChat => exact absurd rfl hdestroy
  | pg d => cases he
  | deliver c => cases he
  | flush => cases he
  | immediate => cases he

/-! ## What a step does -/

theorem batched_start (nodeId : JsString) : Batched [] (start nodeId) where
  complete _ := rfl
  armed := ⟨nofun, nofun⟩
  filled := nofun
  once := rfl
  sent _ := rfl
  nodup := nofun

/-- Nothing is called. -/
theorem Batched.of_same (h : Batched ts n)
    (hbuffers : n'.roomMessageBatchBuffers = n.roomMessageBatchBuffers)
    (htimer : n'.flushTimer = n.flushTimer) (himmediates : n'.immediates = n.immediates)
    (hbatches : ∀ s, batchesTo n'.log s = batchesTo n.log s) : Batched ts n' where
  complete R := by
    rw [h.complete R, Node.buffered, Node.buffered, hbuffers]
  armed := by
    rw [htimer, hbuffers]
    exact h.armed
  filled := by
    rw [hbuffers]
    exact h.filled
  once := by rw [himmediates, h.once]
  sent s := by rw [hbatches, h.sent]
  nodup := h.nodup

/-- A broadcast schedules a callback, unless nobody is to receive it. -/
theorem broadcastToRoom_defers (n : Node) (R : RoomId) (frame : ServerFrame) :
    (n.broadcastToRoom R frame).immediates =
        n.immediates ++ (Traffic.broadcast R frame (n.openSockets R)).deferred ∧
      (n.broadcastToRoom R frame).flushTimer = n.flushTimer ∧
      (n.broadcastToRoom R frame).openSockets = n.openSockets := by
  rw [broadcastToRoom, Traffic.deferred]
  split
  · exact ⟨(List.append_nil _).symm, rfl, rfl⟩
  · exact ⟨rfl, rfl, rfl⟩

/-- A presence or typing row is broadcast. -/
theorem Batched.broadcast (h : Batched ts n) (R : RoomId) {frame : ServerFrame}
    (hframe : frame.batch = []) :
    Batched (ts ++ [.broadcast R frame (n.openSockets R)]) (n.broadcastToRoom R frame) := by
  obtain ⟨himmediates, htimer, -⟩ := broadcastToRoom_defers n R frame
  obtain ⟨-, -, hbuffers, -⟩ := broadcastToRoom_carries n R frame 0
  refine ⟨fun R' ↦ ?_, ?_, ?_, ?_, fun s ↦ ?_, fun R' frame' recipients hmem ↦ ?_⟩
  · rw [Node.buffered, hbuffers, List.flatMap_append, List.flatMap_append, h.complete R',
      List.flatMap_singleton, List.flatMap_singleton, Traffic.arrival, Traffic.batchFor, hframe,
      ite_self, List.append_nil, List.append_nil, Node.buffered]
  · rw [htimer, hbuffers]
    exact h.armed
  · rw [hbuffers]
    exact h.filled
  · rw [List.flatMap_append, List.flatMap_append, h.once, himmediates, List.flatMap_singleton,
      List.flatMap_singleton, Traffic.ran, List.append_nil, List.append_assoc]
  · obtain ⟨-, hbatches, -, -⟩ := broadcastToRoom_carries n R frame s
    rw [hbatches, List.flatMap_append, List.flatMap_singleton, Traffic.sentTo, List.append_nil,
      h.sent]
  · rcases List.mem_append.mp hmem with hmem | hmem
    · exact h.nodup R' frame' recipients hmem
    · obtain ⟨rfl, rfl, rfl⟩ := Traffic.broadcast.inj (List.mem_singleton.mp hmem)
      exact openSockets_nodup n _

/-- A message arrives. -/
theorem Batched.enqueue (h : Batched ts n) (R : RoomId) (row : MessageRow) :
    Batched (ts ++ [.enqueued R row]) (n.enqueueRoomMessage R row) := by
  have hget : ∀ R', (n.enqueueRoomMessage R row).roomMessageBatchBuffers.get R' =
      if R' = R then some (n.buffered R ++ [row]) else n.roomMessageBatchBuffers.get R' :=
    fun R' ↦ EsMap.get_set _ _ _ _
  refine ⟨fun R' ↦ ?_, ⟨fun _ ↦ ⟨R, _, (hget R).trans (if_pos rfl)⟩, fun _ ↦ rfl⟩,
    fun R' rows hrows ↦ ?_, ?_, fun s ↦ ?_, fun R' frame recipients hmem ↦ ?_⟩
  · rw [List.flatMap_append, List.flatMap_append, h.complete R', List.flatMap_singleton,
      List.flatMap_singleton, Traffic.arrival, Traffic.batchFor, List.append_nil, Node.buffered,
      Node.buffered, hget, List.append_assoc]
    refine congrArg _ ?_
    by_cases hR : R' = R
    · subst hR
      rw [if_pos rfl, if_pos rfl, Node.buffered]
      rfl
    · rw [if_neg hR, if_neg fun h ↦ hR h.symm, List.append_nil]
  · rw [hget] at hrows
    split at hrows
    · rw [← Option.some.inj hrows]
      exact List.append_ne_nil_of_right_ne_nil _ (List.cons_ne_nil _ _)
    · exact h.filled R' rows hrows
  · rw [List.flatMap_append, List.flatMap_append, h.once, List.flatMap_singleton,
      List.flatMap_singleton, Traffic.deferred, Traffic.ran, List.append_nil, List.append_nil]
    rfl
  · rw [List.flatMap_append, List.flatMap_singleton, Traffic.sentTo, List.append_nil, ← h.sent]
    rfl
  · rcases List.mem_append.mp hmem with hmem | hmem
    · exact h.nodup R' frame recipients hmem
    · cases List.mem_singleton.mp hmem

/-- The buffers that are passed on hold what is buffered. -/
theorem flatMap_batches (n : Node) (R : RoomId) :
    (n.batches.flatMap fun entry ↦ if entry.1 = R then entry.2 else []) = n.buffered R := by
  have hskipped : (n.batches.flatMap fun entry ↦ if entry.1 = R then entry.2 else []) =
      n.roomMessageBatchBuffers.toList.flatMap fun entry ↦ if entry.1 = R then entry.2 else [] := by
    rw [batches]
    induction n.roomMessageBatchBuffers.toList with
    | nil => rfl
    | cons entry l ih =>
      rw [List.filter_cons, List.flatMap_cons]
      split
      · rw [List.flatMap_cons, ih]
      · rename_i hempty
        have hnil : entry.2 = [] := by_contra fun h ↦ hempty (decide_eq_true h)
        rw [ih, hnil, ite_self, List.nil_append]
  rw [hskipped, EsMap.flatMap_toList (k := R) fun R' rows hR _ ↦ if_neg hR, Node.buffered]
  simp only [if_true, Option.map_id']

/-- The loop of `flushRoomMessageBatches`: `broadcastToRoom` is called for the buffers that are not
skipped, and the recipients are those that could be picked before the loop. -/
theorem foldl_flushBatch_defers (l : List (RoomId × List MessageRow)) (n : Node) :
    (l.foldl flushBatch n).immediates = n.immediates ++
        ((l.filter fun entry ↦ entry.2 ≠ []).map fun entry ↦ Traffic.broadcast entry.1
          (.newMessageBatch entry.2) (n.openSockets entry.1)).flatMap Traffic.deferred ∧
      (l.foldl flushBatch n).flushTimer = n.flushTimer := by
  induction l generalizing n with
  | nil => exact ⟨(List.append_nil _).symm, rfl⟩
  | cons entry l ih =>
    obtain ⟨himmediates, htimer⟩ := ih (n.flushBatch entry)
    rw [List.foldl_cons, himmediates, htimer, flushBatch, List.filter_cons]
    by_cases hempty : entry.2 = []
    · rw [if_pos hempty, if_neg (by simpa using hempty)]
      exact ⟨rfl, rfl⟩
    · obtain ⟨hdeferred, htimer, hopen⟩ :=
        broadcastToRoom_defers n entry.1 (.newMessageBatch entry.2)
      rw [if_neg hempty, if_pos (by simpa using hempty), hdeferred, htimer, hopen, List.map_cons,
        List.flatMap_cons, List.append_assoc]
      exact ⟨rfl, rfl⟩

/-- Nothing but broadcasts happens in a flush. -/
theorem flatMap_flush {α : Type} {f : Traffic → List α}
    (hf : ∀ R frame recipients, f (.broadcast R frame recipients) = []) :
    (ts ++ n.traffic .flush).flatMap f = ts.flatMap f := by
  rw [traffic, List.flatMap_append, List.flatMap_map,
    List.flatMap_eq_nil_iff.mpr fun _ _ ↦ hf _ _ _, List.append_nil]

/-- The flush timer fires. -/
theorem Batched.flush (h : Batched ts n) (hstep : n.step .flush = some n') :
    Batched (ts ++ n.traffic .flush) n' := by
  simp only [step, Option.ite_none_right_eq_some, Option.some.injEq] at hstep
  obtain ⟨-, rfl⟩ := hstep
  obtain ⟨himmediates, htimer⟩ :=
    foldl_flushBatch_defers n.roomMessageBatchBuffers.toList { n with flushTimer := false }
  refine ⟨fun R ↦ ?_, ?_, ?_, ?_, fun s ↦ ?_, fun R frame recipients hmem ↦ ?_⟩
  · have hpassed : (n.traffic .flush).flatMap (·.batchFor R) = n.buffered R := by
      rw [← flatMap_batches, traffic, List.flatMap_map]
      rfl
    rw [flatMap_flush (fun _ _ _ ↦ rfl), h.complete R, List.flatMap_append, hpassed]
    exact (List.append_nil _).symm
  · refine iff_of_false ?_ ?_
    · rw [flushRoomMessageBatches]
      exact Bool.not_eq_true _ ▸ htimer
    · rintro ⟨R, rows, ⟨⟩⟩
  · rintro R rows ⟨⟩
  · rw [flatMap_flush (f := Traffic.ran) (fun _ _ _ ↦ rfl), List.flatMap_append, h.once,
      List.append_assoc, traffic]
    exact congrArg _ himmediates.symm
  · obtain ⟨-, hbatches, -⟩ :=
      foldl_flushBatch_carries n.roomMessageBatchBuffers.toList { n with flushTimer := false } s
    rw [flatMap_flush (fun _ _ _ ↦ rfl), ← h.sent]
    exact hbatches
  · rcases List.mem_append.mp hmem with hmem | hmem
    · exact h.nodup R frame recipients hmem
    · obtain ⟨entry, -, heq⟩ := List.mem_map.mp hmem
      obtain ⟨-, -, rfl⟩ := Traffic.broadcast.inj heq
      exact openSockets_nodup n _

/-- The recipients of a callback that waits have been picked by a broadcast. -/
theorem Batched.nodup_of_mem (h : Batched ts n) {recipients : List SocketId} {frame : ServerFrame}
    (hmem : (recipients, frame) ∈ n.immediates) : recipients.Nodup := by
  have hdeferred : (recipients, frame) ∈ ts.flatMap Traffic.deferred := by
    rw [h.once]
    exact List.mem_append_right _ hmem
  obtain ⟨call, hcall, hmem⟩ := List.mem_flatMap.mp hdeferred
  cases call with
  | broadcast R frame' recipients' =>
    rw [Traffic.deferred] at hmem
    split at hmem
    · cases hmem
    · obtain ⟨rfl, rfl⟩ := Prod.mk.inj (List.mem_singleton.mp hmem)
      exact h.nodup R _ _ hcall
  | enqueued R row => cases hmem
  | sent recipients opened frame => cases hmem

/-- A callback of `setImmediate` runs. -/
theorem Batched.immediate (h : Batched ts n) (hstep : n.step .immediate = some n') :
    Batched (ts ++ n.traffic .immediate) n' := by
  simp only [step] at hstep
  split at hstep
  · cases hstep
  · rename_i recipients frame rest himmediates
    cases hstep
    have hmem : (recipients, frame) ∈ n.immediates := by
      rw [himmediates]
      exact List.mem_cons_self
    have hnodup := h.nodup_of_mem hmem
    have htraffic : n.traffic .immediate =
        [.sent recipients (recipients.filter n.isOpen) frame] := by rw [traffic, himmediates]
    have hsend := sendToAll_carries hnodup frame { n with immediates := rest }
    obtain ⟨-, himmediates', hbuffers, -⟩ := hsend 0
    have htimer : (Node.sendToAll { n with immediates := rest } recipients frame).flushTimer =
        n.flushTimer := by
      refine (foldl_frame flushTimer (fun n s ↦ ?_) _ _).trans rfl
      rw [Node.send]
      split <;> rfl
    rw [htraffic]
    refine ⟨fun R ↦ ?_, ?_, ?_, ?_, fun s ↦ ?_, fun R frame' recipients' hmem ↦ ?_⟩
    · rw [List.flatMap_append, List.flatMap_append, h.complete R, List.flatMap_singleton,
        List.flatMap_singleton, Traffic.arrival, Traffic.batchFor, List.append_nil, List.append_nil,
        Node.buffered, Node.buffered, hbuffers]
    · rw [htimer, hbuffers]
      exact h.armed
    · rw [hbuffers]
      exact h.filled
    · rw [List.flatMap_append, List.flatMap_append, h.once, List.flatMap_singleton,
        List.flatMap_singleton, Traffic.deferred, Traffic.ran, himmediates', himmediates,
        List.append_nil, List.append_assoc, List.singleton_append]
    · rw [(hsend s).1, List.flatMap_append, List.flatMap_singleton, Traffic.sentTo, ← h.sent]
      rfl
    · rcases List.mem_append.mp hmem with hmem | hmem
      · exact h.nodup R frame' recipients' hmem
      · cases List.mem_singleton.mp hmem

/-- A notification is handled. -/
theorem Batched.deliver (h : Batched ts n) {c : ℕ} (hstep : n.step (.deliver c) = some n') :
    Batched (ts ++ n.traffic (.deliver c)) n' := by
  simp only [step, Option.bind_eq_bind, Option.bind_eq_some_iff] at hstep
  obtain ⟨pg, -, hstep⟩ := hstep
  have hpg : Batched ts { n with pg := pg } := h.of_same rfl rfl rfl fun _ ↦ rfl
  rw [traffic]
  split at hstep
  · rename_i note hnote
    cases hstep
    rw [hnote, Option.elim_some]
    cases note with
    | message row => exact hpg.enqueue _ row
    | presence row => exact hpg.broadcast _ rfl
    | typing row => exact hpg.broadcast _ rfl
  · rename_i hnote
    cases hstep
    rw [hnote, Option.elim_none, List.append_nil]
    exact hpg

/-- **A step keeps the accounts.** -/
theorem Batched.step (h : Batched ts n) {e : Event} (hdestroy : e ≠ .destroyChat)
    (hstep : n.step e = some n') : Batched (ts ++ n.traffic e) n' := by
  cases hmoves : e.moves with
  | false =>
    have htimer := flushTimer_of_step hmoves hdestroy hstep
    have htraffic : n.traffic e = [] := by cases e <;> first | rfl | cases hmoves
    rw [htraffic, List.append_nil]
    cases hquiet : e.quiet with
    | false =>
      obtain ⟨hbuffers, himmediates, hbatches⟩ := batches_of_calling_step hquiet hstep
      exact h.of_same hbuffers htimer himmediates hbatches
    | true =>
      rcases stores_of_quiet_step hquiet hmoves hstep with hsame | ⟨d, db, notes, -, hsame⟩
      · exact h.of_same hsame.buffers htimer hsame.immediates fun _ ↦ by rw [hsame.log]
      · obtain ⟨-, hbuffers, himmediates⟩ := withDb_frame n db notes
        obtain ⟨os, hlog, hos, -⟩ := log_withDb n db notes
        refine h.of_same (hsame.buffers.trans hbuffers) htimer
          (hsame.immediates.trans himmediates) fun s ↦ ?_
        rw [hsame.log, hlog]
        refine batchesTo_append fun o ho ↦ ?_
        obtain ⟨c, note, rfl⟩ := hos o ho
        rfl
  | true =>
    cases e with
    | pg d =>
      simp only [Node.step, Option.bind_eq_bind, Option.bind_eq_some_iff] at hstep
      obtain ⟨-, -, pg, -, hstep⟩ := hstep
      cases hstep
      change Batched (ts ++ []) _
      rw [List.append_nil]
      refine h.of_same rfl rfl rfl fun s ↦ batchesTo_append fun o ho ↦ ?_
      rw [PgEvent.observation.eq_def] at ho
      split at ho
      · obtain ⟨cmd, -, rfl⟩ := Option.map_eq_some_iff.mp (Option.mem_toList.mp ho)
        rfl
      · cases ho
    | deliver c => exact h.deliver hstep
    | flush => exact h.flush hstep
    | immediate => exact h.immediate hstep
    | _ => cases hmoves

/-! ## Runs -/

/-- The traffic of a run. -/
def trafficOf (nodeId : JsString) (es : List Event) : List Traffic :=
  trace step traffic (start nodeId) es

theorem batched_of_run {nodeId : JsString} {es : List Event} (hdestroy : .destroyChat ∉ es)
    (hrun : run Node.step (start nodeId) es = some n) : Batched (trafficOf nodeId es) n :=
  trace_invariant Batched (fun h he hstep ↦ h.step he hstep) (batched_start nodeId)
    (guarded_of_forall (fun e : Event ↦ e ≠ .destroyChat)
      (fun _ he ↦ ne_of_mem_of_not_mem he hdestroy) _) hrun

/-- Only a flush passes a batch on. -/
theorem batchFor_traffic {e : Event} (he : e ≠ .flush) (R : RoomId) :
    (n.traffic e).flatMap (·.batchFor R) = [] := by
  cases e with
  | flush => exact absurd rfl he
  | deliver c =>
    rw [traffic]
    cases n.pg.emitted c with
    | none => rfl
    | some note =>
      rw [Option.elim_some]
      cases note with
      | message row => rfl
      | presence row => exact (List.append_nil _).trans (ite_self _)
      | typing row => exact (List.append_nil _).trans (ite_self _)
  | immediate =>
    rw [traffic]
    split <;> rfl
  | _ => rfl

theorem batchFor_trace {es : List Event} (hes : .flush ∉ es) (R : RoomId) :
    (trace Node.step traffic n es).flatMap (·.batchFor R) = [] := by
  rw [flatMap_trace]
  exact trace_eq_nil_of_guarded (G := fun _ e ↦ e ≠ .flush) (fun he ↦ batchFor_traffic he R)
    (guarded_of_forall _ (fun _ he ↦ ne_of_mem_of_not_mem he hes) n)

/-- A buffer that is not empty is passed on in a flush, and no other is passed on for its room. -/
theorem flush_splits (n : Node) {R : RoomId} (hR : n.buffered R ≠ []) :
    ∃ ts ts', n.traffic .flush =
        ts ++ .broadcast R (.newMessageBatch (n.buffered R)) (n.openSockets R) :: ts' ∧
      ts.flatMap (·.batchFor R) = [] ∧ ts.flatMap Traffic.ran = [] := by
  obtain ⟨rows, hrows⟩ : ∃ rows, n.roomMessageBatchBuffers.get R = some rows :=
    Option.ne_none_iff_exists'.mp fun h ↦ hR (by rw [buffered, h]; rfl)
  have hbuffered : n.buffered R = rows := by rw [buffered, hrows, Option.getD_some]
  rw [hbuffered] at hR ⊢
  have hmem : (R, rows) ∈ n.batches :=
    List.mem_filter.mpr ⟨EsMap.mem_toList.mpr (EsMap.get_eq_some_iff.mp hrows), by simpa using hR⟩
  obtain ⟨l, l', hl⟩ := List.append_of_mem hmem
  refine ⟨l.map fun entry ↦ .broadcast entry.1 (.newMessageBatch entry.2) (n.openSockets entry.1),
    l'.map fun entry ↦ .broadcast entry.1 (.newMessageBatch entry.2) (n.openSockets entry.1),
    ?_, ?_, ?_⟩
  · rw [traffic, hl, List.map_append, List.map_cons]
  · have hflat := flatMap_batches n R
    rw [hl, hbuffered, List.flatMap_append, List.flatMap_cons, if_pos rfl] at hflat
    have hlength := congrArg List.length hflat
    simp only [List.length_append] at hlength
    rw [List.flatMap_map]
    exact List.length_eq_zero_iff.mp (by
      change (l.flatMap fun entry ↦ if entry.1 = R then entry.2 else []).length = 0
      omega)
  · rw [List.flatMap_map]
    exact List.flatMap_eq_nil_iff.mpr fun _ _ ↦ rfl

/-- What arrives stays in the buffer, behind what has arrived before, until the next flush. -/
theorem buffered_of_arrival {nodeId : JsString} {pre mid : List Event} {c : ℕ} {n₁ n₂ : Node}
    {row : MessageRow} (hdestroy : .destroyChat ∉ pre ++ .deliver c :: mid)
    (hpre : run Node.step (start nodeId) pre = some n₁)
    (hemitted : n₁.pg.emitted c = some (.message row))
    (hmid : run Node.step (start nodeId) (pre ++ .deliver c :: mid) = some n₂)
    (hflush : .flush ∉ mid) :
    (∃ later, n₂.buffered row.roomId.text = n₁.buffered row.roomId.text ++ row :: later) ∧
      (trafficOf nodeId (pre ++ .deliver c :: mid)).flatMap (·.batchFor row.roomId.text) =
        (trafficOf nodeId pre).flatMap (·.batchFor row.roomId.text) := by
  have hbefore := (batched_of_run (fun h ↦ hdestroy (List.mem_append_left _ h)) hpre).complete
    row.roomId.text
  have hafter := (batched_of_run hdestroy hmid).complete row.roomId.text
  obtain ⟨m, hm, hrest⟩ := run_append_eq_some.mp hmid
  obtain rfl := Option.some.inj (hm.symm.trans hpre)
  obtain ⟨m', hdeliver, -⟩ := run_cons_eq_some.mp hrest
  have htraffic : trafficOf nodeId (pre ++ .deliver c :: mid) =
      trafficOf nodeId pre ++
        (.enqueued row.roomId.text row :: trace Node.step traffic m' mid) := by
    rw [trafficOf, trace_append hpre, trace_cons_of_eq_some hdeliver, traffic, hemitted,
      Option.elim_some, announced, Notification.channel, drop_getRoomNotifyChannel]
    rfl
  have hpassed : (trafficOf nodeId (pre ++ .deliver c :: mid)).flatMap
      (·.batchFor row.roomId.text) =
        (trafficOf nodeId pre).flatMap (·.batchFor row.roomId.text) := by
    rw [htraffic, List.flatMap_append, List.flatMap_cons, batchFor_trace hflush, Traffic.batchFor,
      List.append_nil, List.append_nil]
  refine ⟨⟨(trace Node.step traffic m' mid).flatMap (·.arrival row.roomId.text), ?_⟩, hpassed⟩
  rw [hpassed, htraffic, List.flatMap_append, List.flatMap_cons, Traffic.arrival, if_pos rfl,
    hbefore, List.append_assoc] at hafter
  exact (List.append_cancel_left hafter).symm

/-- **Batching loses and duplicates nothing.** In every run before `onModuleDestroy` the accounts
balance. A payload that arrives is in one batch, at its place in the order of arrival, and a socket
that the flush of this batch picks is one recipient of the callback the batch is left to; when no
callback waits any more, this one has run. -/
theorem batching_exact {nodeId : JsString} {es : List Event} (hdestroy : .destroyChat ∉ es)
    (hrun : run Node.step (start nodeId) es = some n) :
    Batched (trafficOf nodeId es) n ∧
      ∀ pre c mid post n₁ row n₂ s, es = pre ++ .deliver c :: mid ++ .flush :: post →
        run Node.step (start nodeId) pre = some n₁ → n₁.pg.emitted c = some (.message row) →
        run Node.step (start nodeId) (pre ++ .deliver c :: mid) = some n₂ → .flush ∉ mid →
        s ∈ n₂.openSockets row.roomId.text →
        ∃ later recipients ts ts', trafficOf nodeId es = ts ++ .broadcast row.roomId.text
            (.newMessageBatch (n₁.buffered row.roomId.text ++ row :: later)) recipients :: ts' ∧
          (trafficOf nodeId pre).flatMap (·.arrival row.roomId.text) =
            ts.flatMap (·.batchFor row.roomId.text) ++ n₁.buffered row.roomId.text ∧
          s ∈ recipients ∧
          (n.immediates = [] → ∃ opened, .sent recipients opened
            (.newMessageBatch (n₁.buffered row.roomId.text ++ row :: later)) ∈ ts') := by
  refine ⟨batched_of_run hdestroy hrun, ?_⟩
  rintro pre c mid post n₁ row n₂ s rfl hpre hemitted hmid hflush hs
  have hdestroy₂ : .destroyChat ∉ pre ++ .deliver c :: mid :=
    fun h ↦ hdestroy (List.mem_append_left _ h)
  obtain ⟨⟨later, hlater⟩, hpassed⟩ := buffered_of_arrival hdestroy₂ hpre hemitted hmid hflush
  obtain ⟨ts, ts', hsplit, hnone, hran⟩ := flush_splits n₂ (R := row.roomId.text) (by
    rw [hlater]
    exact List.append_ne_nil_of_right_ne_nil _ (List.cons_ne_nil _ _))
  obtain ⟨m, hm, hrest⟩ := run_append_eq_some.mp hrun
  obtain rfl := Option.some.inj (hm.symm.trans hmid)
  obtain ⟨n₃, hn₃, -⟩ := run_cons_eq_some.mp hrest
  have htraffic : trafficOf nodeId (pre ++ .deliver c :: mid ++ .flush :: post) =
      (trafficOf nodeId (pre ++ .deliver c :: mid) ++ ts) ++ .broadcast row.roomId.text
        (.newMessageBatch (m.buffered row.roomId.text)) (m.openSockets row.roomId.text) ::
          (ts' ++ trace Node.step traffic n₃ post) := by
    rw [trafficOf, trace_append hmid, trace_cons_of_eq_some hn₃, hsplit]
    simp only [trafficOf, List.append_assoc, List.cons_append]
  rw [hlater] at htraffic
  refine ⟨later, _, _, _, htraffic, ?_, hs, fun himmediates ↦ ?_⟩
  · rw [List.flatMap_append, hnone, List.append_nil, hpassed]
    exact (batched_of_run (fun h ↦ hdestroy₂ (List.mem_append_left _ h)) hpre).complete _
  · -- The callbacks that have run before the flush were scheduled before it.
    have honce := (batched_of_run hdestroy hrun).once
    have honce₂ := (batched_of_run hdestroy₂ hmid).once
    have hrecipients : m.openSockets row.roomId.text ≠ [] := List.ne_nil_of_mem hs
    rw [himmediates, List.append_nil, htraffic] at honce
    simp only [List.flatMap_append, List.flatMap_cons, Traffic.deferred, if_neg hrecipients,
      List.singleton_append, hran, List.append_nil] at honce
    have hmem := Lists.mem_of_append_cons_eq_append honce (by
      rw [honce₂, List.length_append, List.length_append]
      omega)
    rw [Traffic.ran, List.nil_append, ← List.flatMap_append] at hmem
    obtain ⟨call, hcall, hmem⟩ := List.mem_flatMap.mp hmem
    cases call with
    | sent recipients opened frame =>
      obtain ⟨rfl, rfl⟩ := Prod.mk.inj (List.mem_singleton.mp hmem)
      exact ⟨opened, hcall⟩
    | enqueued R row => cases hmem
    | broadcast R frame recipients => cases hmem

/-- INSERT number `t` is run and committed. -/
def messageInserted (t : ℕ) : List Event :=
  [.db (.beginInsert .nil [0x61] [0x62]), .db (.assignSequence t), .db (.setUsername t),
    .db (.store t), .db (.commit t)]

/-- A member joins, and a message of the room comes in on the LISTEN connection. -/
def messageComes : List Event :=
  memberJoins ++ [.deliver 0, .immediate] ++ messageInserted 0

/-- Message number `t + 1` as it is notified. -/
def comingMessage (t : ℕ) : MessageRow := ⟨t + 1, t + 1, .nil, [0x61], [0x61], [0x62], 0⟩

/-- A second message comes in, and the first is delivered. -/
def firstDelivered : List Event := messageComes ++ messageInserted 1 ++ [.deliver 0]

/-- A third message comes in after the first flush, and is left to the second. -/
def secondFlush : List Event :=
  messageInserted 2 ++ [.deliver 0, .flush, .immediate, .immediate]

/-- Two messages are flushed together, and a third after them. The second comes in last before the
first flush, and is sent in the batch of this flush. -/
theorem batching_exact_two_flushes :
    ∃ n, run step (start []) (firstDelivered ++ .deliver 0 :: [] ++ .flush :: secondFlush) =
        some n ∧
      batchesTo n.log 0 = [comingMessage 0, comingMessage 1, comingMessage 2] ∧
      ∃ ts, Batched ts n ∧ ∃ later recipients opened, 0 ∈ recipients ∧
        .sent recipients opened (.newMessageBatch (comingMessage 0 :: comingMessage 1 :: later)) ∈
          ts := by
  refine exists_run_of_any (fun n : Node ↦ n.immediates = [] ∧
    batchesTo n.log 0 = [comingMessage 0, comingMessage 1, comingMessage 2]) (by decide) ?_
  rintro n hrun ⟨himmediates, hsent⟩
  obtain ⟨n₂, hmid, -⟩ := run_append_eq_some.mp hrun
  obtain ⟨n₁, hpre, -⟩ := run_append_eq_some.mp hmid
  have hopen := of_run_eq_some (fun n₂ : Node ↦ 0 ∈ n₂.openSockets Uuid.nil.text) hmid (by decide)
  obtain ⟨hemitted, hbuffered⟩ := of_run_eq_some
    (fun n₁ : Node ↦ n₁.pg.emitted 0 = some (.message (comingMessage 1)) ∧
      n₁.buffered Uuid.nil.text = [comingMessage 0]) hpre (by decide)
  obtain ⟨hbatched, hpicked⟩ := batching_exact (by simp [firstDelivered, secondFlush, messageComes,
    messageInserted, memberJoins, memberConnects, joinNil]) hrun
  obtain ⟨later, recipients, ts, ts', htraffic, -, hs, hran⟩ :=
    hpicked _ 0 [] _ n₁ (comingMessage 1) n₂ 0 rfl hpre hemitted hmid (by rintro ⟨⟩) hopen
  obtain ⟨opened, hmem⟩ := hran himmediates
  rw [comingMessage, hbuffered] at hmem
  exact ⟨hsent, _, hbatched, later, recipients, opened, hs,
    htraffic ▸ List.mem_append_right _ (List.mem_cons_of_mem _ hmem)⟩

/-- The socket starts to close between the flush and the callback of `setImmediate`: it was open and
in the room at the flush, and is not sent the message. -/
theorem not_sent_when_closing :
    ∃ n₁, run step (start []) messageComes = some n₁ ∧ 0 ∈ n₁.socketsOf Uuid.nil.text ∧
      n₁.pg.emitted 0 = some (.message (comingMessage 0)) ∧
      ∃ n₂, n₁.step (.deliver 0) = some n₂ ∧ 0 ∈ n₂.socketsOf Uuid.nil.text ∧
        n₂.accepts 0 = true ∧
        ∃ n, run step n₂ [.flush, .socketClosing 0, .immediate] = some n ∧ n.immediates = [] ∧
          batchesTo n.log 0 = [] := by
  refine exists_run_of_any (fun n₁ : Node ↦ (0 ∈ n₁.socketsOf Uuid.nil.text ∧
    n₁.pg.emitted 0 = some (.message (comingMessage 0))) ∧
    (n₁.step (.deliver 0)).any (fun n₂ ↦ decide (0 ∈ n₂.socketsOf Uuid.nil.text ∧
      n₂.accepts 0 = true) && (run step n₂ [.flush, .socketClosing 0, .immediate]).any fun n ↦
        decide (n.immediates = [] ∧ batchesTo n.log 0 = [])) = true) (by decide) ?_
  rintro n₁ - ⟨⟨hmem, hemitted⟩, hany⟩
  obtain ⟨n₂, hdeliver, hany⟩ := (Option.any_eq_true _ _).mp hany
  obtain ⟨haccepts, hany⟩ := Bool.and_eq_true_iff.mp hany
  obtain ⟨n, hrun, hsent⟩ := (Option.any_eq_true _ _).mp hany
  obtain ⟨hmem₂, haccepts⟩ := of_decide_eq_true haccepts
  exact ⟨hmem, hemitted, n₂, hdeliver, hmem₂, haccepts, n, hrun, of_decide_eq_true hsent⟩

end Node

end PostgresChat
