import PostgresChat.Chat.Service
import PostgresChat.Database.Messages
import PostgresChat.Postgres.Listen

/-!
# One node and the database

The state machine of a chat node: the maps of `ChatWsService`, the handlers in progress, the LISTEN
connection, and the database all of them talk to. JavaScript runs one block of code at a time, so a
step is one such block, from where it is entered to its next `await` or its end, or one step of the
world outside the node: a statement runs, a notification arrives, a socket closes. Which of the
enabled steps comes next is not determined, so a statement about all runs is one about all
interleavings.

Other nodes and the HTTP controllers reach this node through the database only; their statements are
the steps `Event.db`.

## The log

What a statement about a node can observe is kept in `log`, oldest first: frames received and sent,
recipients selected, notifications, and what becomes of sockets. No step reads it.
-/

namespace PostgresChat

/-! ## Sockets and handlers -/

/-- A socket is known by its position in `Node.sockets`. -/
abbrev SocketId := ℕ

/-- `socket.readyState` of an accepted socket. -/
inductive ReadyState where
  | opened
  | closing
  | closed
  deriving DecidableEq

/-- A socket that `handleConnection` has accepted. -/
structure Socket where
  userId : UserId
  userId_ne_nil : userId ≠ []
  isAlive : Bool := true
  readyState : ReadyState := .opened
  bufferedAmount : ℕ := 0
  deriving DecidableEq

/-- A promise a handler awaits. -/
inductive Promise where
  /-- A statement handed to the pool that has not run yet. -/
  | query
  /-- The message INSERT number `t`. -/
  | inserting (t : ℕ)
  /-- A call of the LISTEN connection. -/
  | call (id : ℕ)
  | settled (settled : Settled)
  deriving DecidableEq

inductive TaskState where
  | awaiting (stage : Stage) (promise : Promise)
  | ended
  deriving DecidableEq

/-- One run of `handleFrame`, known by its position in `Node.tasks`. -/
structure Task where
  socket : SocketId
  userId : UserId
  state : TaskState
  deriving DecidableEq

/-! ## Observations -/

/-- An entry of the log. The handler an entry belongs to is given by its position `k`. -/
inductive Observation where
  | joinReceived (k : ℕ) (s : SocketId) (roomId : RoomId)
  | leaveReceived (k : ℕ) (s : SocketId) (roomId : RoomId)
  /-- The membership check of `handleJoinRoom` has passed. -/
  | checkPassed (k : ℕ)
  /-- A handler has sent a frame. -/
  | replied (k : ℕ) (s : SocketId) (frame : ServerFrame)
  /-- `broadcastToRoom` has chosen its recipients. -/
  | selected (roomId : RoomId) (frame : ServerFrame) (recipients : List SocketId)
  /-- A broadcast frame has been sent to one of its recipients. -/
  | delivered (s : SocketId) (frame : ServerFrame)
  | cleaned (s : SocketId)
  | closed (s : SocketId)
  /-- The server has sent a notification to client `c`. -/
  | notified (c : ℕ) (note : Notification)
  /-- The server has executed a command of client `c`. -/
  | executed (c : ℕ) (verb : Verb) (channel : Channel)
  deriving DecidableEq

/-! ## The state -/

/-- The state of a node and of the database. -/
structure Node where
  db : Db := {}
  pg : PostgresService
  sockets : List Socket := []
  userSockets : EsMap UserId (EsSet SocketId) := ∅
  roomSockets : EsMap RoomId (EsSet SocketId) := ∅
  roomMessageBatchBuffers : EsMap RoomId (List MessageRow) := ∅
  /-- `roomMessageBatchFlushTimer` is set. -/
  flushTimer : Bool := false
  tasks : List Task := []
  /-- The callbacks of `setImmediate`: recipients and frame. -/
  immediates : List (List SocketId × ServerFrame) := []
  log : List Observation := []

/-- The node when its modules have been initialized, before any connection. -/
def Node.start (nodeId : JsString) : Node := { pg := .ready nodeId }

namespace Node

def observe (n : Node) (o : Observation) : Node := { n with log := n.log ++ [o] }

def setTask (n : Node) (k : ℕ) (task : Task) : Node := { n with tasks := n.tasks.set k task }

/-- Handler `k` awaits `promise` at `stage`. -/
def setPromise (n : Node) (k : ℕ) (task : Task) (stage : Stage) (promise : Promise) : Node :=
  n.setTask k { task with state := .awaiting stage promise }

def isOpen (n : Node) (s : SocketId) : Bool :=
  (n.sockets[s]?.map Socket.readyState) = some .opened

/-- `socket.send`: nothing is sent on a socket that is no longer open. -/
def send (n : Node) (s : SocketId) (o : Observation) : Node := if n.isOpen s then n.observe o else n

/-! ## Rooms -/

/-- The members of `roomSockets.get(roomId)`, none when there is no entry. -/
def socketsOf (n : Node) (roomId : RoomId) : EsSet SocketId := (n.roomSockets.get roomId).getD ∅

def addSocketToRoom (n : Node) (roomId : RoomId) (s : SocketId) : Node :=
  { n with roomSockets := n.roomSockets.set roomId ((n.socketsOf roomId).add s) }

def removeSocketFromRoom (n : Node) (roomId : RoomId) (s : SocketId) : Node :=
  match n.roomSockets.get roomId with
  | none => n
  | some sockets =>
    if (sockets.delete s).size = 0 then
      { n with
        roomSockets := n.roomSockets.delete roomId
        pg := n.pg.unsubscribeFromRoomChannel roomId }
    else { n with roomSockets := n.roomSockets.set roomId (sockets.delete s) }

/-- The body of the loop of `cleanupSocket`. -/
def cleanupRoom (n : Node) (s : SocketId) (roomId : RoomId) : Node :=
  if s ∈ n.socketsOf roomId then n.removeSocketFromRoom roomId s else n

/-- The part of `cleanupSocket` about `userSockets`. -/
def removeUserSocket (n : Node) (s : SocketId) (userId : UserId) : Node :=
  match n.userSockets.get userId with
  | none => n
  | some sockets =>
    if (sockets.delete s).size = 0 then { n with userSockets := n.userSockets.delete userId }
    else { n with userSockets := n.userSockets.set userId (sockets.delete s) }

/-- `cleanupSocket`. The loop deletes no entry but the one it is at, so it visits the keys there are
when it starts. -/
def cleanupSocket (n : Node) (s : SocketId) (userId : UserId) : Node :=
  let n := (n.observe (.cleaned s)).removeUserSocket s userId
  n.roomSockets.keys.foldl (fun n roomId ↦ n.cleanupRoom s roomId) n

/-! ## Broadcasts -/

/-- The filter of `broadcastToRoom`: open, and not over the backpressure threshold. -/
def accepts (n : Node) (s : SocketId) : Bool :=
  match n.sockets[s]? with
  | some socket =>
    socket.readyState = .opened && decide (socket.bufferedAmount ≤ wsBackpressureThresholdBytes)
  | none => false

def openSockets (n : Node) (roomId : RoomId) : List SocketId :=
  (n.socketsOf roomId).items.filter n.accepts

def broadcastToRoom (n : Node) (roomId : RoomId) (frame : ServerFrame) : Node :=
  if n.openSockets roomId = [] then n
  else
    { n.observe (.selected roomId frame (n.openSockets roomId)) with
      immediates := n.immediates ++ [(n.openSockets roomId, frame)] }

def enqueueRoomMessage (n : Node) (roomId : RoomId) (row : MessageRow) : Node :=
  { n with
    roomMessageBatchBuffers := n.roomMessageBatchBuffers.set roomId
      ((n.roomMessageBatchBuffers.get roomId).getD [] ++ [row])
    flushTimer := true }

/-- The body of the loop of `flushRoomMessageBatches`. -/
def flushBatch (n : Node) (entry : RoomId × List MessageRow) : Node :=
  if entry.2 = [] then n else n.broadcastToRoom entry.1 (.newMessageBatch entry.2)

def flushRoomMessageBatches (n : Node) : Node :=
  { n.roomMessageBatchBuffers.toList.foldl flushBatch n with roomMessageBatchBuffers := ∅ }

/-- The listeners `ChatWsService` has registered with the emitter. The room id of a message is read
from its channel, that of a presence or typing row from its payload. -/
def onNotification (n : Node) : Notification → Node
  | .message row =>
    n.enqueueRoomMessage
      ((Notification.message row).channel.drop roomChannelPrefix.length) row
  | .presence row => n.broadcastToRoom row.roomId.text (.presence row)
  | .typing row => n.broadcastToRoom row.roomId.text (.typing row)

/-- A callback of `setImmediate`. -/
def sendToAll (n : Node) (recipients : List SocketId) (frame : ServerFrame) : Node :=
  recipients.foldl (fun n s ↦ n.send s (.delivered s frame)) n

/-! ## Handlers -/

/-- The calls of the LISTEN connection; a statement only waits for its turn on the pool. -/
def request (pg : PostgresService) : Request → PostgresService × Promise
  | .query _ => (pg, .query)
  | .subscribe roomId => (pg.subscribeToRoomChannel roomId, .call pg.calls.length)
  | .unsubscribe roomId => (pg.unsubscribeFromRoomChannel roomId, .call pg.calls.length)

/-- What a turn sends. -/
def reply (n : Node) (k : ℕ) (s : SocketId) : Option Send → Node
  | some send => n.send s (.replied k s send.frame)
  | none => n

/-- How a turn ends: its handler creates the promise it awaits next, or is over. -/
def proceed (n : Node) (k : ℕ) (task : Task) : Next → Node
  | .await stage =>
    let made := request n.pg (stage.request task.userId n.pg.nodeId)
    { n with pg := made.1 }.setPromise k task stage made.2
  | .returned | .threw => n.setTask k { task with state := .ended }

/-- A turn of a handler. -/
def takeTurn (n : Node) (k : ℕ) (task : Task) (turn : Turn) : Node :=
  (n.reply k task.socket turn.send).proceed k task turn.next

/-- What `handleFrame` does to the rooms of a socket. -/
def updateRooms (n : Node) (k : ℕ) (s : SocketId) : ClientFrame → Node
  | .joinRoom payload =>
    (n.observe (.joinReceived k s payload.roomId)).addSocketToRoom payload.roomId s
  | .leaveRoom payload =>
    (n.observe (.leaveReceived k s payload.roomId)).removeSocketFromRoom payload.roomId s
  | .null | .unknown | .invalid _ | .sendMessage _ | .typingStart _ | .typingStop _ => n

/-- A frame arrives: `handleFrame` up to its first `await`. -/
def receive (n : Node) (s : SocketId) (userId : UserId) (frame : ClientFrame) : Node :=
  let task : Task := ⟨s, userId, .ended⟩
  let n' := n.updateRooms n.tasks.length s frame
  { n' with tasks := n'.tasks ++ [task] }.takeTurn n.tasks.length task (handleFrame userId frame)

/-- What an awaited promise has settled to, `none` while it has not. -/
def settledOf (n : Node) : Promise → Option Settled
  | .settled settled => some settled
  | .call id =>
    match n.pg.calls[id]?.map Call.status with
    | some (.returned ok) => some (if ok then .resolved .command else .rejected)
    | _ => none
  | .query | .inserting _ => none

/-- The observation that the check of `handleJoinRoom` has passed. -/
def observeCheck (n : Node) (k : ℕ) : Stage → Settled → Node
  | .joinMember _ _, .resolved result =>
      if result.rowCount = 0 then n else n.observe (.checkPassed k)
  | _, _ => n

/-! ## The database -/

/-- The clients that listen on the channel of a notification. -/
def listeners (n : Node) (note : Notification) : List ℕ :=
  (List.range n.pg.clients.length).filter fun c ↦
    (n.pg.clients[c]?.map fun cl ↦ decide (note.channel ∈ cl.listening)) = some true

def notify (n : Node) (note : Notification) : Node :=
  { n with
    pg := n.pg.notify note
    log := n.log ++ (n.listeners note).map fun c ↦ .notified c note }

/-- The database moves on and notifies. -/
def withDb (n : Node) (db : Db) (notes : List Notification) : Node :=
  notes.foldl notify { n with db := db }

end Node

/-! ## Steps -/

/-- What can happen next. -/
inductive Event where
  | connect (userId : UserId)
  | frame (s : SocketId) (frame : ClientFrame)
  /-- The statement awaited by handler `k` runs. -/
  | runQuery (k : ℕ) (fate : Fate)
  /-- The message INSERT awaited by handler `k` begins. -/
  | beginInsert (k : ℕ)
  /-- It has ended, or its connection is lost. -/
  | insertSettles (k : ℕ) (lost : Bool)
  | db (e : DbEvent)
  /-- Handler `k` continues. -/
  | resume (k : ℕ)
  | pg (e : PgEvent)
  /-- The node handles the next notification of client `c`. -/
  | deliver (c : ℕ)
  | flush
  | immediate
  /-- The heartbeat comes to socket `s`. -/
  | heartbeat (s : SocketId)
  | pong (s : SocketId)
  | socketError (s : SocketId)
  | socketClosing (s : SocketId)
  | socketClose (s : SocketId)
  | buffered (s : SocketId) (bytes : ℕ)
  | destroyChat

/-- The steps the LISTEN connection takes on its own. -/
def PgEvent.internal : PgEvent → Bool
  | .subscribe _ | .unsubscribe _ | .notify _ | .deliver _ => false
  | _ => true

/-- The command an event executes, as observed. -/
def PgEvent.observation (pg : PostgresService) : PgEvent → List Observation
  | .execCommand c true =>
    ((pg.clients[c]?.bind fun cl ↦ cl.queue.head?).map fun cmd ↦
      Observation.executed c cmd.verb cmd.channel).toList
  | _ => []

namespace Node

def updateSocket (n : Node) (s : SocketId) (f : Socket → Socket) : Node :=
  { n with sockets := n.sockets.modify s f }

/-- The statement of handler `k` runs. -/
def runQuery (n : Node) (k : ℕ) (task : Task) (stage : Stage) (q : Query) (fate : Fate) : Node :=
  match fate, n.db.exec q with
  | .answered, some (db, result, notes) =>
    (n.withDb db notes).setPromise k task stage (.settled (.resolved result))
  | .lost, some (db, _, notes) =>
    (n.withDb db notes).setPromise k task stage (.settled .rejected)
  | _, _ => n.setPromise k task stage (.settled .rejected)

/-- The message INSERT of handler `k` begins. -/
def beginInsert (n : Node) (k : ℕ) (task : Task) (roomId : RoomId) (content : JsString) : Node :=
  match (Uuid.parse roomId).bind fun r ↦ n.db.apply (.beginInsert r task.userId content) with
  | some (db, notes) =>
    (n.withDb db notes).setPromise k task (.sendInsert roomId content)
      (.inserting n.db.inserts.length)
  | none => n.setPromise k task (.sendInsert roomId content) (.settled .rejected)

/-- What the promise of an INSERT settles to. -/
def insertResult (stage : InsertStage) (lost : Bool) : Settled :=
  match lost, stage with
  | false, .committed _ => .resolved .command
  | _, _ => .rejected

/-- The step of an event, `none` when it cannot happen. -/
def step (n : Node) : Event → Option Node
  | .connect userId =>
    if h : userId ≠ [] then
      some { n with
        sockets := n.sockets ++ [{ userId := userId, userId_ne_nil := h }]
        userSockets := n.userSockets.set userId
          (((n.userSockets.get userId).getD ∅).add n.sockets.length) }
    else none
  | .frame s frame => do
    let socket ← n.sockets[s]?
    guard (socket.readyState ≠ .closed)
    return n.receive s socket.userId frame
  | .runQuery k fate => do
    let task ← n.tasks[k]?
    match task.state with
    | .awaiting (.sendInsert _ _) _ => none
    | .awaiting stage .query =>
      match stage.request task.userId n.pg.nodeId with
      | .query q => return n.runQuery k task stage q fate
      | _ => none
    | _ => none
  | .beginInsert k => do
    let task ← n.tasks[k]?
    match task.state with
    | .awaiting (.sendInsert roomId content) .query =>
      return n.beginInsert k task roomId content
    | _ => none
  | .insertSettles k lost => do
    let task ← n.tasks[k]?
    match task.state with
    | .awaiting (.sendInsert roomId content) (.inserting t) => do
      let ins ← n.db.inserts[t]?
      guard (lost = true ∨ ins.stage.inFlight = false)
      return n.setPromise k task (.sendInsert roomId content)
        (.settled (insertResult ins.stage lost))
    | _ => none
  | .db e => do
    let (db, notes) ← n.db.apply e
    return n.withDb db notes
  | .resume k => do
    let task ← n.tasks[k]?
    match task.state with
    | .awaiting stage promise => do
      let settled ← n.settledOf promise
      return (n.observeCheck k stage settled).takeTurn k task (stage.resume settled)
    | .ended => none
  | .pg e => do
    guard e.internal
    let pg ← n.pg.step e
    return { n with pg := pg, log := n.log ++ e.observation n.pg }
  | .deliver c => do
    let pg ← n.pg.step (.deliver c)
    let n' := { n with pg := pg }
    match n.pg.emitted c with
    | some note => return n'.onNotification note
    | none => return n'
  | .flush =>
    if n.flushTimer then some { n with flushTimer := false }.flushRoomMessageBatches else none
  | .immediate =>
    match n.immediates with
    | [] => none
    | (recipients, frame) :: rest =>
      some ({ n with immediates := rest }.sendToAll recipients frame)
  | .heartbeat s => do
    let socket ← n.sockets[s]?
    guard (socket.readyState ≠ .closed)
    if socket.isAlive then
      return n.updateSocket s fun socket ↦ { socket with isAlive := false }
    else
      return (n.cleanupSocket s socket.userId).updateSocket s fun socket ↦
        { socket with readyState := .closing }
  | .pong s => some (n.updateSocket s fun socket ↦ { socket with isAlive := true })
  | .socketError s => do
    let socket ← n.sockets[s]?
    guard (socket.readyState ≠ .closed)
    return n.cleanupSocket s socket.userId
  | .socketClosing s => do
    let socket ← n.sockets[s]?
    guard (socket.readyState = .opened)
    return n.updateSocket s fun socket ↦ { socket with readyState := .closing }
  | .socketClose s => do
    let socket ← n.sockets[s]?
    guard (socket.readyState ≠ .closed)
    return ((n.updateSocket s fun socket ↦ { socket with readyState := .closed }).observe
      (.closed s)).cleanupSocket s socket.userId
  | .buffered s bytes =>
      some (n.updateSocket s fun socket ↦ { socket with bufferedAmount := bytes })
  | .destroyChat => some { n with flushTimer := false }

end Node

end PostgresChat
