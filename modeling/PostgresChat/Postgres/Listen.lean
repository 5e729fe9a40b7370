import Mathlib.Data.Finset.Erase
import Mathlib.Data.Finset.Insert
import PostgresChat.Database.Tables
import PostgresChat.Lib.EsMap
import PostgresChat.Lib.Execution

/-!
# The LISTEN connection

`PostgresService` outside its query pool: the reference counts of the room channels, the dedicated
client on which LISTEN and UNLISTEN are issued, and the loop that replaces this client after an
error. The functions here are those of `postgres.service.ts`, cut at their `await`s, so that other
calls can run while one of them waits.

## Clients

A client is known by its position in `clients`. Commands issued on it wait in `queue` and are
executed in the order they were issued; `listening` is the set of channels the server has executed
a LISTEN for, and `inbox` holds the notifications the server has sent and the node not yet handled.
`wired` says that the service's handlers are attached.

## Calls and attempts

A call of `subscribeToRoomChannel` or `unsubscribeFromRoomChannel` and a run of `onModuleInit` or
`doReconnect` are numbered in the order they start. A command names the one that awaits it. Between
the moment a command settles and the moment its issuer continues anything else may run, which is why
`settled` is a status of its own.
-/

namespace PostgresChat

/-! ## Commands and clients -/

inductive Verb where
  | listen
  | unlisten
  deriving DecidableEq

/-- Who awaits a command. -/
inductive Issuer where
  | call (id : ℕ)
  | attempt (id : ℕ)
  deriving DecidableEq

/-- `LISTEN "channel"` or `UNLISTEN "channel"`. -/
structure Command where
  verb : Verb
  channel : Channel
  issuer : Issuer
  deriving DecidableEq

/-- What the server does to a connection's channels when it executes the command. -/
def Command.effect (cmd : Command) (listening : Finset Channel) : Finset Channel :=
  match cmd.verb with
  | .listen => insert cmd.channel listening
  | .unlisten => listening.erase cmd.channel

/-- A client of the driver, with its connection on the server. -/
structure Client where
  /-- The handlers of `wireListenClientHandlers` are attached. -/
  wired : Bool := true
  connected : Bool := false
  /-- It has emitted `'error'`. -/
  errored : Bool := false
  /-- `end()` was called. -/
  ended : Bool := false
  listening : Finset Channel := ∅
  queue : List Command := []
  inbox : List Notification := []
  deriving DecidableEq

/-- The server still executes commands of this client. -/
def Client.alive (cl : Client) : Bool := cl.connected && !cl.errored && !cl.ended

/-! ## Calls and attempts -/

inductive CallKind where
  | subscribe (roomId : RoomId)
  | unsubscribe (roomId : RoomId)
  deriving DecidableEq

/-- How far a call has come: awaiting its command, the command settled, or returned. -/
inductive CallStatus where
  | waiting
  | settled (ok : Bool)
  | returned (ok : Bool)
  deriving DecidableEq

structure Call where
  kind : CallKind
  status : CallStatus
  deriving DecidableEq

/-- The `await` at which `ensureListenChannels` stands. In the loop, `room i` awaits the LISTEN of a
room whose key was visited, and the iterator stands at position `i`. -/
inductive EnsurePoint where
  | presence
  | typing
  | room (i : ℕ)
  deriving DecidableEq

/-- How far a run of `onModuleInit` or `doReconnect` has come. -/
inductive AttemptStage where
  /-- Awaiting `old.end()`. -/
  | ending
  | connecting (client : ℕ)
  | ensuring (client : ℕ) (point : EnsurePoint)
  | finished (client : ℕ)
  | failed
  deriving DecidableEq

structure Attempt where
  stage : AttemptStage
  /-- What the awaited promise settled to. -/
  settled : Option Bool
  /-- A run of `onModuleInit`. -/
  initial : Bool
  deriving DecidableEq

/-! ## The service -/

def initialReconnectMs : ℕ := 1000

def maxReconnectMs : ℕ := 30000

/-- The state of `PostgresService`. -/
structure PostgresService where
  nodeId : JsString
  clients : List Client
  /-- `this.listenClient`. -/
  listenClient : ℕ
  roomSubscriptionCounts : EsMap RoomId ℕ := ∅
  calls : List Call := []
  attempts : List Attempt
  reconnectTimer : Bool := false
  reconnectBackoffMs : ℕ := initialReconnectMs
  destroyed : Bool := false

/-- `onModuleInit` up to its first `await`. -/
def PostgresService.start (nodeId : JsString) : PostgresService where
  nodeId := nodeId
  clients := [{}]
  listenClient := 0
  attempts := [⟨.connecting 0, none, true⟩]

/-- The state in which `onModuleInit` returns when nothing fails and nobody subscribes yet. -/
def PostgresService.ready (nodeId : JsString) : PostgresService where
  nodeId := nodeId
  clients := [{ connected := true, listening := {typingChannel, presenceChannel} }]
  listenClient := 0
  attempts := [⟨.finished 0, none, true⟩]

namespace PostgresService

def updateClient (p : PostgresService) (c : ℕ) (f : Client → Client) : PostgresService :=
  { p with clients := p.clients.modify c f }

theorem getElem?_updateClient (p : PostgresService) (c : ℕ) (f : Client → Client) (i : ℕ) :
    (p.updateClient c f).clients[i]? = if c = i then p.clients[i]?.map f else p.clients[i]? := by
  change (p.clients.modify c f)[i]? = _
  rw [List.getElem?_modify]
  split
  · rfl
  · exact Option.map_id'

@[simp] theorem length_updateClient (p : PostgresService) (c : ℕ) (f : Client → Client) :
    (p.updateClient c f).clients.length = p.clients.length := List.length_modify _ _ _

/-- `client.query(...)`: the command waits behind those issued before it. -/
def clientQuery (p : PostgresService) (c : ℕ) (cmd : Command) : PostgresService :=
  p.updateClient c fun cl ↦ { cl with queue := cl.queue ++ [cmd] }

/-- The stored count of a room, `?? 0`. -/
def roomCount (p : PostgresService) (roomId : RoomId) : ℕ :=
  (p.roomSubscriptionCounts.get roomId).getD 0

def setRoomCount (p : PostgresService) (roomId : RoomId) (n : ℕ) : PostgresService :=
  { p with roomSubscriptionCounts := p.roomSubscriptionCounts.set roomId n }

def deleteRoomCount (p : PostgresService) (roomId : RoomId) : PostgresService :=
  { p with roomSubscriptionCounts := p.roomSubscriptionCounts.delete roomId }

def addCall (p : PostgresService) (kind : CallKind) (status : CallStatus) : PostgresService :=
  { p with calls := p.calls ++ [⟨kind, status⟩] }

/-- `subscribeToRoomChannel` up to its `await`, if it has one. -/
def subscribeToRoomChannel (p : PostgresService) (roomId : RoomId) : PostgresService :=
  let counted := p.setRoomCount roomId (p.roomCount roomId + 1)
  if p.roomCount roomId = 0 then
    (counted.clientQuery p.listenClient
      ⟨.listen, getRoomNotifyChannel roomId, .call p.calls.length⟩).addCall
        (.subscribe roomId) .waiting
  else counted.addCall (.subscribe roomId) (.returned true)

/-- `unsubscribeFromRoomChannel` up to its `await`, if it has one. -/
def unsubscribeFromRoomChannel (p : PostgresService) (roomId : RoomId) : PostgresService :=
  if p.roomCount roomId = 0 then p.addCall (.unsubscribe roomId) (.returned true)
  else if 0 < p.roomCount roomId - 1 then
    (p.setRoomCount roomId (p.roomCount roomId - 1)).addCall (.unsubscribe roomId) (.returned true)
  else
    ((p.deleteRoomCount roomId).clientQuery p.listenClient
      ⟨.unlisten, getRoomNotifyChannel roomId, .call p.calls.length⟩).addCall
        (.unsubscribe roomId) .waiting

/-- The `catch` of a call whose command failed. -/
def rollback (p : PostgresService) : CallKind → PostgresService
  | .subscribe roomId => p.deleteRoomCount roomId
  | .unsubscribe roomId => p.setRoomCount roomId 1

def setCall (p : PostgresService) (id : ℕ) (call : Call) : PostgresService :=
  { p with calls := p.calls.set id call }

def setAttempt (p : PostgresService) (a : ℕ) (attempt : Attempt) : PostgresService :=
  { p with attempts := p.attempts.set a attempt }

/-- The promise of a command settles. -/
def settle (p : PostgresService) (issuer : Issuer) (ok : Bool) : PostgresService :=
  match issuer with
  | .call id => { p with calls := p.calls.modify id fun call ↦ { call with status := .settled ok } }
  | .attempt a =>
    { p with attempts := p.attempts.modify a fun attempt ↦ { attempt with settled := some ok } }

def scheduleReconnect (p : PostgresService) : PostgresService :=
  if p.destroyed || p.reconnectTimer then p
  else { p with
    reconnectBackoffMs := min (p.reconnectBackoffMs * 2) maxReconnectMs
    reconnectTimer := true }

/-- `doReconnect` up to its first `await`. -/
def doReconnect (p : PostgresService) : PostgresService :=
  if p.destroyed then p
  else { p.updateClient p.listenClient fun cl ↦ { cl with wired := false, ended := true } with
    attempts := p.attempts ++ [⟨.ending, none, false⟩] }

/-- `this.listenClient = new Client(...)`, its handlers and `connect()`. -/
def installClient (p : PostgresService) (a : ℕ) (attempt : Attempt) : PostgresService :=
  { p.setAttempt a { attempt with stage := .connecting p.clients.length } with
    clients := p.clients ++ [({} : Client)]
    listenClient := p.clients.length }

/-- `ensureListenChannels` from the resumption of its iterator at position `i`. -/
def visitRooms (p : PostgresService) (a : ℕ) (attempt : Attempt) (c i : ℕ) : PostgresService :=
  match p.roomSubscriptionCounts.next i with
  | some (j, roomId, _) =>
    (p.clientQuery c ⟨.listen, getRoomNotifyChannel roomId, .attempt a⟩).setAttempt a
      { attempt with stage := .ensuring c (.room (j + 1)), settled := none }
  | none =>
    -- The loop is over; `doReconnect` resets the backoff, `onModuleInit` has nothing left to do.
    { p.setAttempt a { attempt with stage := .finished c, settled := none } with
      reconnectBackoffMs :=
        if attempt.initial then p.reconnectBackoffMs else initialReconnectMs }

/-- The continuation of `onModuleInit` or `doReconnect` after a promise that was fulfilled. -/
def continueAttempt (p : PostgresService) (a : ℕ) (attempt : Attempt) : Option PostgresService :=
  match attempt.stage with
  | .connecting _ =>
    -- `this.listenClient` is read again here.
    some <| (p.clientQuery p.listenClient ⟨.listen, presenceChannel, .attempt a⟩).setAttempt a
      { attempt with stage := .ensuring p.listenClient .presence, settled := none }
  | .ensuring c .presence =>
    some <| (p.clientQuery c ⟨.listen, typingChannel, .attempt a⟩).setAttempt a
      { attempt with stage := .ensuring c .typing, settled := none }
  | .ensuring c .typing => some (p.visitRooms a attempt c 0)
  | .ensuring c (.room i) => some (p.visitRooms a attempt c i)
  | .ending | .finished _ | .failed => none

/-- The continuation after a promise that was rejected: `onModuleInit` throws, `doReconnect` tries
again later. -/
def failAttempt (p : PostgresService) (a : ℕ) (attempt : Attempt) : PostgresService :=
  let failed := p.setAttempt a { attempt with stage := .failed, settled := none }
  if attempt.initial then failed else failed.scheduleReconnect

/-- The server sends a notification to every connection that listens on its channel. -/
def notify (p : PostgresService) (note : Notification) : PostgresService :=
  { p with clients := p.clients.map fun cl ↦
      if note.channel ∈ cl.listening then { cl with inbox := cl.inbox ++ [note] } else cl }

/-- What the `'notification'` handler of client `c` emits for the next notification: nothing when
the handlers are detached or the emitter has no listeners left. -/
def emitted (p : PostgresService) (c : ℕ) : Option Notification := do
  let cl ← p.clients[c]?
  guard (cl.wired && !p.destroyed)
  cl.inbox.head?

end PostgresService

/-! ## Steps -/

/-- What can happen next. -/
inductive PgEvent where
  | subscribe (roomId : RoomId)
  | unsubscribe (roomId : RoomId)
  /-- The first command of client `c` settles: executed by the server, or rejected. -/
  | execCommand (c : ℕ) (ok : Bool)
  | resumeCall (id : ℕ)
  /-- Client `c` emits `'error'`. -/
  | clientError (c : ℕ)
  | reconnectTimerFires
  /-- `old.end()` settles and the attempt continues. -/
  | endSettles (a : ℕ)
  | connectSettles (a : ℕ) (ok : Bool)
  | resumeAttempt (a : ℕ)
  | notify (note : Notification)
  /-- The node handles the next notification of client `c`. -/
  | deliver (c : ℕ)
  | destroy

namespace PostgresService

/-- The step of an event, `none` when it cannot happen. -/
def step (p : PostgresService) : PgEvent → Option PostgresService
  | .subscribe roomId => some (p.subscribeToRoomChannel roomId)
  | .unsubscribe roomId => some (p.unsubscribeFromRoomChannel roomId)
  | .execCommand c ok => do
    let cl ← p.clients[c]?
    guard (ok = true → cl.alive = true)
    match cl.queue with
    | [] => none
    | cmd :: rest =>
      let listening := if ok then cmd.effect cl.listening else cl.listening
      return (p.updateClient c fun cl ↦
        { cl with queue := rest, listening := listening }).settle cmd.issuer ok
  | .resumeCall id => do
    let call ← p.calls[id]?
    match call.status with
    | .settled true => return p.setCall id { call with status := .returned true }
    | .settled false =>
      return (p.rollback call.kind).setCall id { call with status := .returned false }
    | .waiting | .returned _ => none
  | .clientError c => do
    let cl ← p.clients[c]?
    guard cl.wired
    return (p.updateClient c fun cl ↦ { cl with errored := true }).scheduleReconnect
  | .reconnectTimerFires =>
    if p.reconnectTimer then some { p with reconnectTimer := false }.doReconnect else none
  | .endSettles a => do
    let attempt ← p.attempts[a]?
    guard (attempt.stage = .ending)
    return p.installClient a attempt
  | .connectSettles a ok => do
    let attempt ← p.attempts[a]?
    match attempt.stage, attempt.settled with
    | .connecting c, none =>
      return (p.updateClient c fun cl ↦ { cl with connected := ok }).setAttempt a
        { attempt with settled := some ok }
    | _, _ => none
  | .resumeAttempt a => do
    let attempt ← p.attempts[a]?
    match attempt.settled with
    | some true => p.continueAttempt a attempt
    | some false => return p.failAttempt a attempt
    | none => none
  | .notify note => some (p.notify note)
  | .deliver c => do
    let cl ← p.clients[c]?
    guard (cl.inbox ≠ [])
    return p.updateClient c fun cl ↦ { cl with inbox := cl.inbox.tail }
  | .destroy => some { p.updateClient p.listenClient fun cl ↦ { cl with ended := true } with
      destroyed := true
      reconnectTimer := false }

/-! ## Counts -/

theorem roomCount_of_counts_eq {p p' : PostgresService}
    (h : p'.roomSubscriptionCounts = p.roomSubscriptionCounts) (R : RoomId) :
    p'.roomCount R = p.roomCount R := by
  rw [roomCount, roomCount, h]

theorem roomCount_set {p p' : PostgresService} {R : RoomId} {n : ℕ}
    (h : p'.roomSubscriptionCounts = p.roomSubscriptionCounts.set R n) (R' : RoomId) :
    p'.roomCount R' = if R' = R then n else p.roomCount R' := by
  rw [roomCount, roomCount, h, EsMap.get_set]
  split <;> rfl

theorem roomCount_delete {p p' : PostgresService} {R : RoomId}
    (h : p'.roomSubscriptionCounts = p.roomSubscriptionCounts.delete R) (R' : RoomId) :
    p'.roomCount R' = if R' = R then 0 else p.roomCount R' := by
  rw [roomCount, roomCount, h, EsMap.get_delete]
  split <;> rfl

/-- Every call of `subscribeToRoomChannel` counts one more. -/
theorem roomCount_subscribe (p : PostgresService) (R R' : RoomId) :
    (p.subscribeToRoomChannel R).roomCount R' =
      if R' = R then p.roomCount R + 1 else p.roomCount R' := by
  rw [subscribeToRoomChannel]
  split <;> exact roomCount_set rfl R'

/-- Every call of `unsubscribeFromRoomChannel` counts one less, down to zero. -/
theorem roomCount_unsubscribe (p : PostgresService) (R R' : RoomId) :
    (p.unsubscribeFromRoomChannel R).roomCount R' =
      if R' = R then p.roomCount R - 1 else p.roomCount R' := by
  rw [unsubscribeFromRoomChannel]
  split
  · rename_i hzero
    change p.roomCount R' = _
    split
    · rename_i hR
      rw [hR, hzero]
    · rfl
  · rename_i hne
    split
    · exact roomCount_set rfl R'
    · rename_i hle
      rw [roomCount_delete rfl, show p.roomCount R - 1 = 0 by omega]

end PostgresService

end PostgresChat
