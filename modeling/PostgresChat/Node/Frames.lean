import PostgresChat.Lib.Lists
import PostgresChat.Node.System

/-!
# What a step leaves alone

Most steps of a node touch neither the rooms nor the stages of its handlers: they move messages
along, settle promises, or change the state of a socket. `Quiet` says what is left of such a step
for a statement about rooms and handlers, so that only the four kinds of steps that are not quiet
(a connection, a frame, a continuation, a cleanup) have to be looked at one by one.
-/

namespace PostgresChat

open Execution

namespace Node

variable {n n' n'' : Node}

/-! ## Outputs -/

/-- The entries of the log that a quiet step may add, when it broadcasts to the rooms `S` only. -/
def Output (n : Node) (S : RoomId → Prop) : Observation → Prop
  | .selected roomId _ recipients => S roomId ∧ recipients = n.openSockets roomId
  | .delivered _ _ | .notified _ _ | .executed _ _ _ => True
  | _ => False

/-- Rooms, handlers and sockets are the same; the log grows by outputs. -/
structure Outputs (S : RoomId → Prop) (n n' : Node) : Prop where
  rooms : n'.roomSockets = n.roomSockets
  tasks : n'.tasks = n.tasks
  sockets : n'.sockets = n.sockets
  log : ∃ os, n'.log = n.log ++ os ∧ ∀ o ∈ os, n.Output S o

theorem openSockets_congr (hrooms : n'.roomSockets = n.roomSockets)
    (hsockets : n'.sockets = n.sockets) (R : RoomId) : n'.openSockets R = n.openSockets R := by
  rw [openSockets, openSockets, socketsOf, socketsOf, hrooms]
  refine List.filter_congr fun s _ ↦ ?_
  rw [accepts, accepts, hsockets]

theorem Outputs.output {S : RoomId → Prop} (h : Outputs S n n') {o : Observation}
    (ho : n'.Output S o) : n.Output S o := by
  cases o with
  | selected R frame recipients =>
    exact ⟨ho.1, ho.2.trans (openSockets_congr h.rooms h.sockets R)⟩
  | _ => exact ho

theorem Outputs.refl (S : RoomId → Prop) (n : Node) : Outputs S n n :=
  ⟨rfl, rfl, rfl, [], (List.append_nil _).symm, nofun⟩

theorem Outputs.trans {S : RoomId → Prop} (h : Outputs S n n') (h' : Outputs S n' n'') :
    Outputs S n n'' := by
  obtain ⟨os, hos, hout⟩ := h.log
  obtain ⟨os', hos', hout'⟩ := h'.log
  refine ⟨h'.rooms.trans h.rooms, h'.tasks.trans h.tasks, h'.sockets.trans h.sockets,
    os ++ os', by rw [hos', hos, List.append_assoc], fun o ho ↦ ?_⟩
  rcases List.mem_append.mp ho with ho | ho
  · exact hout o ho
  · exact h.output (hout' o ho)

/-- Other components of the node change. -/
theorem Outputs.of_eq (S : RoomId → Prop) (hrooms : n'.roomSockets = n.roomSockets)
    (htasks : n'.tasks = n.tasks) (hsockets : n'.sockets = n.sockets) (hlog : n'.log = n.log) :
    Outputs S n n' :=
  ⟨hrooms, htasks, hsockets, [], by rw [hlog, List.append_nil], nofun⟩

/-- One output is observed. -/
theorem Outputs.observe {S : RoomId → Prop} (o : Observation) (ho : n.Output S o) :
    Outputs S n (n.observe o) :=
  ⟨rfl, rfl, rfl, [o], rfl, fun _ ho' ↦ List.mem_singleton.mp ho' ▸ ho⟩

/-- What every step of a fold keeps to, the fold keeps to. -/
theorem Outputs.foldl {α : Type} {S : RoomId → Prop} {f : Node → α → Node}
    {l : List α} (hf : ∀ n, ∀ a ∈ l, Outputs S n (f n a)) (n : Node) :
    Outputs S n (l.foldl f n) := by
  induction l generalizing n with
  | nil => exact Outputs.refl S n
  | cons a l ih =>
    exact (hf n a List.mem_cons_self).trans
      (ih (fun n b hb ↦ hf n b (List.mem_cons_of_mem a hb)) (f n a))

theorem Outputs.send {S : RoomId → Prop} {s : SocketId} {o : Observation} (ho : n.Output S o) :
    Outputs S n (n.send s o) := by
  rw [Node.send]
  split
  · exact Outputs.observe o ho
  · exact Outputs.refl S n

theorem Outputs.broadcastToRoom {S : RoomId → Prop} {R : RoomId} (hR : S R) (frame : ServerFrame) :
    Outputs S n (n.broadcastToRoom R frame) := by
  rw [Node.broadcastToRoom]
  split
  · exact Outputs.refl S n
  · exact (Outputs.observe (.selected R frame (n.openSockets R)) ⟨hR, rfl⟩).trans
      (Outputs.of_eq S rfl rfl rfl rfl)

theorem Outputs.flushRoomMessageBatches {S : RoomId → Prop}
    (hS : ∀ R ∈ n.roomMessageBatchBuffers.keys, S R) :
    Outputs S n n.flushRoomMessageBatches := by
  have hfold : Outputs S n (n.roomMessageBatchBuffers.toList.foldl flushBatch n) := by
    refine Outputs.foldl (fun n' entry hentry ↦ ?_) n
    rw [flushBatch]
    split
    · exact Outputs.refl S n'
    · refine Outputs.broadcastToRoom (hS entry.1 ?_) _
      exact EsMap.mem_keysOf.mpr ⟨entry.2, EsMap.mem_toList.mp hentry⟩
  exact hfold.trans (Outputs.of_eq S rfl rfl rfl rfl)

theorem Outputs.sendToAll {S : RoomId → Prop} (recipients : List SocketId) (frame : ServerFrame) :
    Outputs S n (n.sendToAll recipients frame) :=
  Outputs.foldl (fun n s _ ↦ Outputs.send (show n.Output S (.delivered s frame) from trivial)) n

/-- The room an emitted notification is broadcast to at once. Messages are batched first. -/
def broadcastRoom : Notification → Option RoomId
  | .message _ => none
  | .presence row => some row.roomId.text
  | .typing row => some row.roomId.text

theorem Outputs.onNotification {S : RoomId → Prop} {note : Notification}
    (hS : ∀ R, broadcastRoom note = some R → S R) : Outputs S n (n.onNotification note) := by
  cases note with
  | message row => exact Outputs.of_eq S rfl rfl rfl rfl
  | presence row => exact Outputs.broadcastToRoom (hS _ rfl) _
  | typing row => exact Outputs.broadcastToRoom (hS _ rfl) _

theorem Outputs.notify {S : RoomId → Prop} (note : Notification) : Outputs S n (n.notify note) := by
  refine ⟨rfl, rfl, rfl, _, rfl, fun o ho ↦ ?_⟩
  obtain ⟨c, -, rfl⟩ := List.mem_map.mp ho
  trivial

theorem Outputs.withDb {S : RoomId → Prop} (db : Db) (notes : List Notification) :
    Outputs S n (n.withDb db notes) := by
  have hdb : Outputs S n { n with db := db } := Outputs.of_eq S rfl rfl rfl rfl
  exact hdb.trans (Outputs.foldl (fun _ note _ ↦ Outputs.notify note) _)

end Node

/-! ## Quiet steps -/

/-- The `await` a handler stands at, if it has not ended. -/
def Task.stage? (task : Task) : Option Stage :=
  match task.state with
  | .awaiting stage _ => some stage
  | .ended => none

/-- What others can tell of a handler: its socket and the `await` it stands at. -/
def Task.key (task : Task) : SocketId × Option Stage := (task.socket, task.stage?)

/-- The promise is one of a statement that has not come to its end. -/
def Promise.ofStatement : Promise → Bool
  | .query | .inserting _ => true
  | .call _ | .settled _ => false

/-- The steps that touch neither rooms nor stages. -/
def Event.quiet : Event → Bool
  | .connect _ | .frame _ _ | .resume _ | .heartbeat _ | .socketError _ | .socketClose _ => false
  | _ => true

namespace Node

variable {n n' : Node}

/-- The rooms a step broadcasts to. -/
def BroadcastsTo (n : Node) (e : Event) (R : RoomId) : Prop :=
  match e with
  | .flush => R ∈ n.roomMessageBatchBuffers.keys
  | .deliver c => (n.pg.emitted c).bind broadcastRoom = some R
  | _ => False

/-- Handlers are the same, but that the statement awaited by one of them comes further. -/
def Settles (n n' : Node) : Prop :=
  n'.tasks = n.tasks ∨ ∃ k task stage promise promise', n.tasks[k]? = some task ∧
    task.state = .awaiting stage promise ∧ promise.ofStatement = true ∧
    n'.tasks = n.tasks.set k { task with state := .awaiting stage promise' }

/-- Rooms and stages are the same, no socket opens, and the log grows by outputs. -/
structure Quiet (S : RoomId → Prop) (n n' : Node) : Prop where
  rooms : n'.roomSockets = n.roomSockets
  settles : Settles n n'
  opened : ∀ s, n'.isOpen s = true → n.isOpen s = true
  length : n'.sockets.length = n.sockets.length
  log : ∃ os, n'.log = n.log ++ os ∧ ∀ o ∈ os, n.Output S o

theorem Outputs.quiet {S : RoomId → Prop} (h : Outputs S n n') : Quiet S n n' :=
  ⟨h.rooms, Or.inl h.tasks, fun s hs ↦ by rw [isOpen, h.sockets] at hs; exact hs,
    by rw [h.sockets], h.log⟩

theorem stage?_eq {task : Task} {stage : Stage} {promise : Promise}
    (h : task.state = .awaiting stage promise) : task.stage? = some stage := by
  rw [Task.stage?, h]

theorem key_eq {task : Task} {stage : Stage} {promise : Promise}
    (h : task.state = .awaiting stage promise) : task.key = (task.socket, some stage) := by
  rw [Task.key, stage?_eq h]

theorem Settles.handlers (h : Settles n n') : n'.tasks.map Task.key = n.tasks.map Task.key := by
  rcases h with htasks | ⟨k, task, stage, promise, promise', hget, hstate, -, htasks⟩
  · rw [htasks]
  · rw [htasks]
    exact Lists.map_set_eq hget (key_eq hstate).symm

theorem Quiet.handlers {S : RoomId → Prop} (h : Quiet S n n') :
    n'.tasks.map Task.key = n.tasks.map Task.key := h.settles.handlers

/-- The promise of a statement comes further, after some outputs. -/
theorem Outputs.quiet_setPromise {S : RoomId → Prop} (h : Outputs S n n') {k : ℕ} {task : Task}
    {stage : Stage} {promise : Promise} (hget : n.tasks[k]? = some task)
    (hstate : task.state = .awaiting stage promise) (hpromise : promise.ofStatement = true)
    (promise' : Promise) : Quiet S n (n'.setPromise k task stage promise') := by
  refine ⟨h.rooms, Or.inr ⟨k, task, stage, promise, promise', hget, hstate, hpromise, ?_⟩,
    fun s hs ↦ h.quiet.opened s hs, h.quiet.length, h.log⟩
  rw [← h.tasks]
  rfl

theorem Outputs.runQuery {S : RoomId → Prop} {k : ℕ} {task : Task} {stage : Stage}
    (hget : n.tasks[k]? = some task) (hstate : task.state = .awaiting stage .query) (q : Query)
    (fate : Fate) : Quiet S n (n.runQuery k task stage q fate) := by
  unfold Node.runQuery
  split
  · exact (Outputs.withDb _ _).quiet_setPromise hget hstate rfl _
  · exact (Outputs.withDb _ _).quiet_setPromise hget hstate rfl _
  · exact (Outputs.refl S n).quiet_setPromise hget hstate rfl _

theorem isOpen_updateSocket {s s' : SocketId} {f : Socket → Socket}
    (hf : ∀ socket, (f socket).readyState = .opened → socket.readyState = .opened)
    (h : (n.updateSocket s f).isOpen s' = true) : n.isOpen s' = true := by
  rw [isOpen, decide_eq_true_iff, Option.map_eq_some_iff] at h ⊢
  obtain ⟨socket, hget, hopen⟩ := h
  change (n.sockets.modify s f)[s']? = some socket at hget
  rw [List.getElem?_modify, Option.map_eq_map, Option.map_eq_some_iff] at hget
  obtain ⟨old, hold, rfl⟩ := hget
  refine ⟨old, hold, ?_⟩
  split at hopen
  · exact hf old hopen
  · exact hopen

/-- The state of a socket changes. -/
theorem quiet_updateSocket {S : RoomId → Prop} {s : SocketId} {f : Socket → Socket}
    (hf : ∀ socket, (f socket).readyState = .opened → socket.readyState = .opened) :
    Quiet S n (n.updateSocket s f) :=
  ⟨rfl, Or.inl rfl, fun _ ↦ isOpen_updateSocket hf, List.length_modify _ _ _, [],
    (List.append_nil _).symm, nofun⟩

/-- **Quiet steps are quiet**, and broadcast to the rooms of `BroadcastsTo` only. -/
theorem quiet_of_step {e : Event} (he : e.quiet = true) (hstep : n.step e = some n') :
    Quiet (n.BroadcastsTo e) n n' := by
  cases e with
  | runQuery k fate =>
    simp only [step, Option.bind_eq_bind, Option.bind_eq_some_iff] at hstep
    obtain ⟨task, hget, hstep⟩ := hstep
    split at hstep
    · cases hstep
    · rename_i stage _ hstate
      split at hstep
      · cases hstep
        exact Outputs.runQuery hget hstate _ _
      · cases hstep
    · cases hstep
  | beginInsert k =>
    simp only [step, Option.bind_eq_bind, Option.bind_eq_some_iff] at hstep
    obtain ⟨task, hget, hstep⟩ := hstep
    split at hstep
    · rename_i R content hstate
      cases hstep
      rw [Node.beginInsert]
      split
      · exact (Outputs.withDb _ _).quiet_setPromise hget hstate rfl _
      · exact (Outputs.refl _ n).quiet_setPromise hget hstate rfl _
    · cases hstep
  | insertSettles k lost =>
    simp only [step, Option.bind_eq_bind, Option.bind_eq_some_iff] at hstep
    obtain ⟨task, hget, hstep⟩ := hstep
    split at hstep
    · rename_i R content t hstate
      simp only [Option.bind_eq_some_iff] at hstep
      obtain ⟨ins, -, -, -, hstep⟩ := hstep
      cases hstep
      exact (Outputs.refl _ n).quiet_setPromise hget hstate rfl _
    · cases hstep
  | db e =>
    simp only [step, Option.bind_eq_bind, Option.bind_eq_some_iff] at hstep
    obtain ⟨⟨db, notes⟩, -, hstep⟩ := hstep
    cases hstep
    exact (Outputs.withDb db notes).quiet
  | pg e =>
    simp only [step, Option.bind_eq_bind, Option.bind_eq_some_iff] at hstep
    obtain ⟨-, -, pg, -, hstep⟩ := hstep
    cases hstep
    refine ⟨rfl, Or.inl rfl, fun _ ↦ id, rfl, _, rfl, fun o ho ↦ ?_⟩
    rw [PgEvent.observation.eq_def] at ho
    split at ho
    · obtain ⟨cmd, -, rfl⟩ := Option.map_eq_some_iff.mp (Option.mem_toList.mp ho)
      trivial
    · cases ho
  | deliver c =>
    simp only [step, Option.bind_eq_bind, Option.bind_eq_some_iff] at hstep
    obtain ⟨pg, -, hstep⟩ := hstep
    split at hstep
    · rename_i note hnote
      cases hstep
      have hpg : Outputs (n.BroadcastsTo (.deliver c)) n { n with pg := pg } :=
        Outputs.of_eq _ rfl rfl rfl rfl
      refine Outputs.quiet (hpg.trans (Outputs.onNotification fun R hR ↦ ?_))
      rw [BroadcastsTo, hnote]
      exact hR
    · cases hstep
      exact Outputs.quiet (Outputs.of_eq _ rfl rfl rfl rfl)
  | flush =>
    simp only [step, Option.ite_none_right_eq_some, Option.some.injEq] at hstep
    obtain ⟨-, rfl⟩ := hstep
    have htimer : Outputs (n.BroadcastsTo .flush) n { n with flushTimer := false } :=
      Outputs.of_eq _ rfl rfl rfl rfl
    exact Outputs.quiet (htimer.trans (Outputs.flushRoomMessageBatches fun R hR ↦ hR))
  | immediate =>
    simp only [step] at hstep
    split at hstep
    · cases hstep
    · rename_i recipients frame rest himmediates
      cases hstep
      have hrest : Outputs (n.BroadcastsTo .immediate) n { n with immediates := rest } :=
        Outputs.of_eq _ rfl rfl rfl rfl
      exact Outputs.quiet (hrest.trans (Outputs.sendToAll recipients frame))
  | pong s =>
    cases hstep
    exact quiet_updateSocket fun _ ↦ id
  | socketClosing s =>
    simp only [step, Option.bind_eq_bind, Option.bind_eq_some_iff] at hstep
    obtain ⟨socket, -, -, -, hstep⟩ := hstep
    cases hstep
    exact quiet_updateSocket nofun
  | buffered s bytes =>
    cases hstep
    exact quiet_updateSocket fun _ ↦ id
  | destroyChat =>
    cases hstep
    exact Outputs.quiet (Outputs.of_eq _ rfl rfl rfl rfl)
  | connect userId => cases he
  | frame s frame => cases he
  | resume k => cases he
  | heartbeat s => cases he
  | socketError s => cases he
  | socketClose s => cases he

/-! ## Turns -/

/-- What the end of a turn does to the LISTEN connection, and the state of its handler after it. -/
def afterTurn (pg : PostgresService) (userId : UserId) : Next → PostgresService × TaskState
  | .await stage =>
    let made := request pg (stage.request userId pg.nodeId)
    (made.1, .awaiting stage made.2)
  | .returned | .threw => (pg, .ended)

/-- A turn sends at most one frame, sets the state of its handler, and makes at most one call of the
LISTEN connection. -/
structure Turned (n n' : Node) (k : ℕ) (task : Task) (turn : Turn) : Prop where
  rooms : n'.roomSockets = n.roomSockets
  sockets : n'.sockets = n.sockets
  db : n'.db = n.db
  buffers : n'.roomMessageBatchBuffers = n.roomMessageBatchBuffers
  immediates : n'.immediates = n.immediates
  pg : n'.pg = (afterTurn n.pg task.userId turn.next).1
  tasks : n'.tasks =
    n.tasks.set k { task with state := (afterTurn n.pg task.userId turn.next).2 }
  log : ∃ os, n'.log = n.log ++ os ∧ ∀ o ∈ os, n.isOpen task.socket = true ∧
    ∃ send, turn.send = some send ∧ o = .replied k task.socket send.frame
  /-- A frame is sent when the socket is open. -/
  sent : ∀ send, turn.send = some send → n.isOpen task.socket = true →
    n'.log = n.log ++ [.replied k task.socket send.frame]

theorem turned_takeTurn (n : Node) (k : ℕ) (task : Task) (turn : Turn) :
    Turned n (n.takeTurn k task turn) k task turn := by
  obtain ⟨send, next⟩ := turn
  have hproceed : ∀ n' : Node, n'.tasks = n.tasks → n'.pg = n.pg →
      n'.roomSockets = n.roomSockets → n'.sockets = n.sockets → n'.db = n.db →
      n'.roomMessageBatchBuffers = n.roomMessageBatchBuffers → n'.immediates = n.immediates →
      (∃ os, n'.log = n.log ++ os ∧ ∀ o ∈ os, n.isOpen task.socket = true ∧
        ∃ send', send = some send' ∧ o = .replied k task.socket send'.frame) →
      (∀ send', send = some send' → n.isOpen task.socket = true →
        n'.log = n.log ++ [.replied k task.socket send'.frame]) →
      Turned n (n'.proceed k task next) k task ⟨send, next⟩ := by
    intro n' htasks hpg hrooms hsockets hdb hbuffers himmediates hlog hsent
    cases next with
    | await stage =>
      exact ⟨hrooms, hsockets, hdb, hbuffers, himmediates, by rw [← hpg]; rfl,
        by rw [← htasks, ← hpg]; rfl, hlog, hsent⟩
    | returned =>
      exact ⟨hrooms, hsockets, hdb, hbuffers, himmediates, hpg, by rw [← htasks]; rfl, hlog, hsent⟩
    | threw =>
      exact ⟨hrooms, hsockets, hdb, hbuffers, himmediates, hpg, by rw [← htasks]; rfl, hlog, hsent⟩
  rw [takeTurn]
  cases send with
  | none =>
    exact hproceed n rfl rfl rfl rfl rfl rfl rfl ⟨[], (List.append_nil _).symm, nofun⟩ nofun
  | some send =>
    change Turned n ((n.send task.socket _).proceed k task next) k task _
    rw [Node.send]
    split
    · rename_i hopen
      refine hproceed _ rfl rfl rfl rfl rfl rfl rfl ⟨[_], rfl, fun o ho ↦ ?_⟩ ?_
      · exact ⟨hopen, send, rfl, List.mem_singleton.mp ho⟩
      · rintro _ ⟨⟩ -
        rfl
    · rename_i hclosed
      exact hproceed _ rfl rfl rfl rfl rfl rfl rfl ⟨[], (List.append_nil _).symm, nofun⟩
        fun _ _ hopen ↦ absurd hopen hclosed

/-- The state of a handler after its first turn. It waits for a statement, if for anything. -/
def firstState (userId : UserId) (frame : ClientFrame) : TaskState :=
  match (handleFrame userId frame).next with
  | .await stage => .awaiting stage .query
  | .returned | .threw => .ended

theorem afterTurn_handleFrame (pg : PostgresService) (userId : UserId) (frame : ClientFrame) :
    afterTurn pg userId (handleFrame userId frame).next = (pg, firstState userId frame) := by
  by_cases hu : userId = []
  · simp only [firstState, handleFrame, hu, if_true, afterTurn]
  · cases frame with
    | sendMessage payload =>
      simp only [firstState, handleFrame, hu, if_false, handleSendMessage_eq]
      rfl
    | _ =>
      simp only [firstState, handleFrame, hu, if_false]
      rfl

/-- Nothing changes beside rooms, the LISTEN connection and the log. -/
structure SameBeside (n n' : Node) : Prop where
  tasks : n'.tasks = n.tasks
  sockets : n'.sockets = n.sockets
  db : n'.db = n.db
  buffers : n'.roomMessageBatchBuffers = n.roomMessageBatchBuffers
  immediates : n'.immediates = n.immediates

theorem SameBeside.refl (n : Node) : SameBeside n n := ⟨rfl, rfl, rfl, rfl, rfl⟩

theorem SameBeside.trans {n n' n'' : Node} (h : SameBeside n n') (h' : SameBeside n' n'') :
    SameBeside n n'' :=
  ⟨h'.tasks.trans h.tasks, h'.sockets.trans h.sockets, h'.db.trans h.db,
    h'.buffers.trans h.buffers, h'.immediates.trans h.immediates⟩

theorem removeSocketFromRoom_frame (n : Node) (R : RoomId) (s : SocketId) :
    SameBeside n (n.removeSocketFromRoom R s) ∧ (n.removeSocketFromRoom R s).log = n.log := by
  rw [removeSocketFromRoom]
  split
  · exact ⟨SameBeside.refl n, rfl⟩
  · split <;> exact ⟨⟨rfl, rfl, rfl, rfl, rfl⟩, rfl⟩

/-- What `handleFrame` observes before it changes the rooms. -/
def roomObservation (k : ℕ) (s : SocketId) : ClientFrame → List Observation
  | .joinRoom payload => [.joinReceived k s payload.roomId]
  | .leaveRoom payload => [.leaveReceived k s payload.roomId]
  | .null | .unknown | .invalid _ | .sendMessage _ | .typingStart _ | .typingStop _ => []

/-- Only two kinds of frames are about rooms. -/
theorem updateRooms_cases (frame : ClientFrame) :
    (∃ payload, frame = .joinRoom payload) ∨ (∃ payload, frame = .leaveRoom payload) ∨
      ∀ (n : Node) (k : ℕ) (s : SocketId),
        n.updateRooms k s frame = n ∧ roomObservation k s frame = [] := by
  cases frame with
  | joinRoom payload => exact Or.inl ⟨payload, rfl⟩
  | leaveRoom payload => exact Or.inr (Or.inl ⟨payload, rfl⟩)
  | _ => exact Or.inr (Or.inr fun _ _ _ ↦ ⟨rfl, rfl⟩)

theorem updateRooms_frame (n : Node) (k : ℕ) (s : SocketId) (frame : ClientFrame) :
    SameBeside n (n.updateRooms k s frame) ∧
      (n.updateRooms k s frame).log = n.log ++ roomObservation k s frame := by
  cases frame with
  | joinRoom payload => exact ⟨⟨rfl, rfl, rfl, rfl, rfl⟩, rfl⟩
  | leaveRoom payload =>
    obtain ⟨hsame, hlog⟩ :=
      removeSocketFromRoom_frame (n.observe (.leaveReceived k s payload.roomId)) payload.roomId s
    exact ⟨⟨hsame.tasks, hsame.sockets, hsame.db, hsame.buffers, hsame.immediates⟩, hlog⟩
  | _ => exact ⟨SameBeside.refl n, (List.append_nil _).symm⟩

/-- The only frames `handleFrame` sends in its first turn are errors. -/
def IsError (frame : ServerFrame) : Prop := ∃ message code, frame = .error message code

theorem isError_of_handleFrame {userId : UserId} {frame : ClientFrame} {send : Send}
    (h : (handleFrame userId frame).send = some send) : IsError send.frame := by
  by_cases hu : userId = []
  · simp only [handleFrame, hu, if_true] at h
    cases h
  · simp only [handleFrame, hu, if_false] at h
    cases frame with
    | sendMessage payload =>
      simp only [handleSendMessage_eq] at h
      cases h
    | invalid err =>
      cases h
      exact ⟨_, _, rfl⟩
    | _ => cases h

/-- A frame changes rooms as `updateRooms` does, and adds a handler. -/
structure Received (n n' : Node) (s : SocketId) (userId : UserId) (frame : ClientFrame) :
    Prop where
  rooms : n'.roomSockets = (n.updateRooms n.tasks.length s frame).roomSockets
  pg : n'.pg = (n.updateRooms n.tasks.length s frame).pg
  sockets : n'.sockets = n.sockets
  db : n'.db = n.db
  buffers : n'.roomMessageBatchBuffers = n.roomMessageBatchBuffers
  immediates : n'.immediates = n.immediates
  tasks : n'.tasks = n.tasks ++ [⟨s, userId, firstState userId frame⟩]
  log : ∃ os, n'.log = n.log ++ roomObservation n.tasks.length s frame ++ os ∧
    ∀ o ∈ os, ∃ error, IsError error ∧ o = .replied n.tasks.length s error

theorem received_receive (n : Node) (s : SocketId) (userId : UserId) (frame : ClientFrame) :
    Received n (n.receive s userId frame) s userId frame := by
  obtain ⟨hsame, hlog⟩ := updateRooms_frame n n.tasks.length s frame
  have h := turned_takeTurn
    { n.updateRooms n.tasks.length s frame with
      tasks := (n.updateRooms n.tasks.length s frame).tasks ++ [⟨s, userId, .ended⟩] }
    n.tasks.length ⟨s, userId, .ended⟩ (handleFrame userId frame)
  obtain ⟨os, hos, hsends⟩ := h.log
  have hafter := afterTurn_handleFrame (n.updateRooms n.tasks.length s frame).pg userId frame
  refine ⟨h.rooms, ?_, h.sockets.trans hsame.sockets, h.db.trans hsame.db,
    h.buffers.trans hsame.buffers, h.immediates.trans hsame.immediates, ?_, os, ?_, ?_⟩
  · exact h.pg.trans (congrArg Prod.fst hafter)
  · refine h.tasks.trans ?_
    change ((n.updateRooms _ s frame).tasks ++ [_]).set n.tasks.length _ = _
    rw [hsame.tasks, List.set_append_right _ _ (Nat.le_refl _), Nat.sub_self, List.set_cons_zero,
      hafter]
  · exact hos.trans (congrArg (· ++ os) hlog)
  · intro o ho
    obtain ⟨-, send, hsend, rfl⟩ := hsends o ho
    exact ⟨send.frame, isError_of_handleFrame hsend, rfl⟩

/-- What is observed when a frame arrives: what it asks of a room, or an error. -/
theorem Received.log_cases {n n' : Node} {s : SocketId} {userId : UserId} {frame : ClientFrame}
    (h : Received n n' s userId frame) :
    ∃ os, n'.log = n.log ++ os ∧ ∀ o ∈ os,
      (∃ payload, frame = .joinRoom payload ∧ o = .joinReceived n.tasks.length s payload.roomId) ∨
      (∃ payload, frame = .leaveRoom payload ∧ o = .leaveReceived n.tasks.length s payload.roomId) ∨
      ∃ error, IsError error ∧ o = .replied n.tasks.length s error := by
  obtain ⟨os, hlog, hos⟩ := h.log
  refine ⟨_, hlog.trans (List.append_assoc _ _ _), fun o ho ↦ ?_⟩
  rcases List.mem_append.mp ho with ho | ho
  · rcases updateRooms_cases frame with ⟨payload, rfl⟩ | ⟨payload, rfl⟩ | hother
    · exact Or.inl ⟨payload, rfl, List.mem_singleton.mp ho⟩
    · exact Or.inr (Or.inl ⟨payload, rfl, List.mem_singleton.mp ho⟩)
    · rw [(hother n _ s).2] at ho
      cases ho
  · exact Or.inr (Or.inr (hos o ho))

/-! ## Continuations -/

/-- A handler continues. -/
structure Resumed (n n' : Node) (k : ℕ) (task : Task) (stage : Stage) (settled : Settled) :
    Prop where
  get : n.tasks[k]? = some task
  awaiting : ∃ promise, task.state = .awaiting stage promise ∧ n.settledOf promise = some settled
  turned : Turned (n.observeCheck k stage settled) n' k task (stage.resume settled)

theorem resumed_of_step {n n' : Node} {k : ℕ} (h : n.step (.resume k) = some n') :
    ∃ task stage settled, Resumed n n' k task stage settled := by
  simp only [step, Option.bind_eq_bind, Option.bind_eq_some_iff] at h
  obtain ⟨task, hget, h⟩ := h
  split at h
  · rename_i stage promise hstate
    simp only [Option.bind_eq_some_iff] at h
    obtain ⟨settled, hsettled, h⟩ := h
    cases h
    exact ⟨task, stage, settled, hget, ⟨promise, hstate, hsettled⟩, turned_takeTurn _ _ _ _⟩
  · cases h

theorem received_of_step {n n' : Node} {s : SocketId} {frame : ClientFrame}
    (h : n.step (.frame s frame) = some n') :
    ∃ socket, n.sockets[s]? = some socket ∧ socket.readyState ≠ .closed ∧
      Received n n' s socket.userId frame := by
  simp only [step, Option.bind_eq_bind, Option.bind_eq_some_iff, Option.guard_eq_some'] at h
  obtain ⟨socket, hget, -, hopen, h⟩ := h
  cases h
  exact ⟨socket, hget, hopen, received_receive n s socket.userId frame⟩

theorem observeCheck_frame (n : Node) (k : ℕ) (stage : Stage) (settled : Settled) :
    SameBeside n (n.observeCheck k stage settled) ∧
      (n.observeCheck k stage settled).roomSockets = n.roomSockets ∧
      (n.observeCheck k stage settled).pg = n.pg ∧
      ∃ os, (n.observeCheck k stage settled).log = n.log ++ os ∧ ∀ o ∈ os, o = .checkPassed k := by
  unfold observeCheck
  split
  · split
    · exact ⟨SameBeside.refl n, rfl, rfl, [], (List.append_nil _).symm, nofun⟩
    · exact ⟨⟨rfl, rfl, rfl, rfl, rfl⟩, rfl, rfl, [_], rfl, fun _ ↦ List.mem_singleton.mp⟩
  · exact ⟨SameBeside.refl n, rfl, rfl, [], (List.append_nil _).symm, nofun⟩

end Node

end PostgresChat
