import PostgresChat.Database.Tables
import PostgresChat.Lib.Execution
import PostgresChat.Lib.Lists

/-!
# Rooms and their members

`RoomsService`, cut at its `await`s in the way of `AuthService`, over the tables `rooms`,
`room_sequences` and `room_members`. Each statement is a transaction of its own, and an INSERT into
`rooms` fires the one trigger there is on that table in the three migrations,
`init_room_sequence_trigger`.

The log holds what a statement about runs needs: which rooms were inserted and for whom, which
memberships were inserted and deleted, and which calls of `leaveRoom` were made. No step reads it.
-/

namespace PostgresChat

/-! ## Tables -/

/-- A row of `rooms`. -/
structure Room where
  id : Uuid
  name : JsString
  description : Option JsString
  createdBy : Option Uuid
  createdAt : ℕ
  deriving DecidableEq

/-- A row of `room_members`. -/
structure RoomMember where
  roomId : Uuid
  userId : Uuid
  joinedAt : ℕ
  deriving DecidableEq

/-- The committed tables, and the clock in milliseconds. -/
structure RoomsDb where
  /-- `users.id`. -/
  users : List Uuid := []
  rooms : List Room := []
  /-- `room_id` and `next_seq`. -/
  roomSequences : List (Uuid × ℕ) := []
  roomMembers : List RoomMember := []
  /-- `NOW()`. -/
  now : ℕ := 0

/-- A parameterized statement. -/
inductive RoomsQuery where
  | insertRoom (name : JsString) (description : Option JsString) (createdBy : JsString)
  | selectRooms
  | selectRoom (id : JsString)
  | insertMember (roomId userId : JsString)
  | deleteMember (roomId userId : JsString)
  | selectMember (roomId userId : JsString)
  deriving DecidableEq

/-- `result.rows`. -/
inductive RoomsRows where
  | rooms (rows : List Room)
  | members (count : ℕ)
  | none
  deriving DecidableEq

namespace RoomsDb

/-- `room_members` has a row `(r, u)`. -/
def isMember (db : RoomsDb) (r u : Uuid) : Bool :=
  db.roomMembers.any fun m ↦ m.roomId = r ∧ m.userId = u

/-- `init_room_sequence`. -/
def initRoomSequence (db : RoomsDb) (r : Uuid) : RoomsDb :=
  if (db.roomSequences.map Prod.fst).contains r then db
  else { db with roomSequences := db.roomSequences ++ [(r, 1)] }

/-- A statement run to its end, with its triggers; `none` when it fails and leaves no effect, as
with a NUL in a text. The id of a new room is `fresh`. -/
def exec (db : RoomsDb) (fresh : Uuid) : RoomsQuery → Option (RoomsDb × RoomsRows)
  | .insertRoom name description createdBy => do
    let owner ← Uuid.parse createdBy
    guard (0 ∉ name ∧ 0 ∉ description.getD [])
    guard (owner ∈ db.users ∧ ∀ room ∈ db.rooms, room.id ≠ fresh ∧ room.name ≠ name)
    let room : Room := ⟨fresh, name, description, some owner, db.now⟩
    return ({ db with rooms := db.rooms ++ [room] }.initRoomSequence fresh, .rooms [room])
  | .selectRooms =>
    some (db, .rooms (db.rooms.insertionSort fun room room' ↦ room'.createdAt ≤ room.createdAt))
  | .selectRoom id => do
    let r ← Uuid.parse id
    return (db, .rooms (db.rooms.filter fun room ↦ room.id = r))
  | .insertMember roomId userId => do
    let r ← Uuid.parse roomId
    let u ← Uuid.parse userId
    guard (u ∈ db.users ∧ ∃ room ∈ db.rooms, room.id = r)
    return (if db.isMember r u then db
      else { db with roomMembers := db.roomMembers ++ [⟨r, u, db.now⟩] }, .none)
  | .deleteMember roomId userId => do
    let r ← Uuid.parse roomId
    let u ← Uuid.parse userId
    return ({ db with roomMembers := db.roomMembers.filter fun m ↦ ¬(m.roomId = r ∧ m.userId = u) },
      .none)
  | .selectMember roomId userId => do
    let r ← Uuid.parse roomId
    let u ← Uuid.parse userId
    return (db, .members (if db.isMember r u then 1 else 0))

@[simp] theorem rooms_initRoomSequence (db : RoomsDb) (r : Uuid) :
    (db.initRoomSequence r).rooms = db.rooms := by
  rw [initRoomSequence]
  split <;> rfl

@[simp] theorem roomMembers_initRoomSequence (db : RoomsDb) (r : Uuid) :
    (db.initRoomSequence r).roomMembers = db.roomMembers := by
  rw [initRoomSequence]
  split <;> rfl

theorem isMember_iff {db : RoomsDb} {r u : Uuid} :
    db.isMember r u = true ↔ ∃ m ∈ db.roomMembers, m.roomId = r ∧ m.userId = u := by
  rw [isMember, List.any_eq_true]
  simp only [decide_eq_true_eq]

end RoomsDb

/-! ## Calls -/

/-- A call of a method. `description` is `none` when it is left out. -/
inductive RoomsRequest where
  | createRoom (userId name : JsString) (description : Option JsString)
  | listRooms
  | getRoom (id : JsString)
  | joinRoom (userId roomId : JsString)
  | leaveRoom (userId roomId : JsString)
  | isMember (userId roomId : JsString)
  deriving DecidableEq

/-- An `await` of a query. `joinRoom` awaits `getRoom` first. -/
inductive RoomsStage where
  | createRoom (userId name : JsString) (description : Option JsString)
  | listRooms
  | getRoom (id : JsString)
  | joinFind (userId roomId : JsString)
  | joinInsert (userId roomId : JsString)
  | leaveRoom (userId roomId : JsString)
  | isMember (userId roomId : JsString)
  deriving DecidableEq

/-- What a call returns. -/
inductive RoomsResult where
  | room (room : Option Room)
  | rooms (rooms : List Room)
  | verdict (isMember : Bool)
  | done
  deriving DecidableEq

/-- How the code between two `await`s ends. -/
inductive RoomsNext where
  | await (stage : RoomsStage)
  | returned (result : RoomsResult)
  | notFound
  | threw
  deriving DecidableEq

/-- A call up to its first `await`. -/
def RoomsRequest.start : RoomsRequest → RoomsStage
  | .createRoom userId name description => .createRoom userId name description
  | .listRooms => .listRooms
  | .getRoom id => .getRoom id
  | .joinRoom userId roomId => .joinFind userId roomId
  | .leaveRoom userId roomId => .leaveRoom userId roomId
  | .isMember userId roomId => .isMember userId roomId

/-- The statement that is awaited. -/
def RoomsStage.query : RoomsStage → RoomsQuery
  | .createRoom userId name description => .insertRoom name description userId
  | .listRooms => .selectRooms
  | .getRoom id => .selectRoom id
  | .joinFind _ roomId => .selectRoom roomId
  | .joinInsert userId roomId => .insertMember roomId userId
  | .leaveRoom userId roomId => .deleteMember roomId userId
  | .isMember userId roomId => .selectMember roomId userId

/-- `result.rows` of a query on `rooms`. -/
def RoomsRows.found : RoomsRows → List Room
  | .rooms rows => rows
  | _ => []

/-- `result.rows.length` of a query on `room_members`. -/
def RoomsRows.count : RoomsRows → ℕ
  | .members count => count
  | _ => 0

/-- A call continues after a statement that was answered. -/
def RoomsStage.proceed (rows : RoomsRows) : RoomsStage → RoomsNext
  | .createRoom .. => .returned (.room rows.found.head?)
  | .listRooms => .returned (.rooms rows.found)
  | .getRoom _ =>
    match rows.found.head? with
    | some room => .returned (.room (some room))
    | none => .notFound
  | .joinFind userId roomId =>
    match rows.found.head? with
    | some _ => .await (.joinInsert userId roomId)
    | none => .notFound
  | .joinInsert .. | .leaveRoom .. => .returned .done
  | .isMember .. => .returned (.verdict (0 < rows.count))

/-- A call continues; it throws when its statement was rejected. -/
def RoomsStage.resume (stage : RoomsStage) : Option RoomsRows → RoomsNext
  | some rows => stage.proceed rows
  | none => .threw

/-! ## The system -/

/-- How far a call has come. What its statement settled to is `none` when it was rejected. -/
inductive RoomsCallState where
  | awaiting (stage : RoomsStage) (settled : Option (Option RoomsRows))
  | ended (next : RoomsNext)
  deriving DecidableEq

/-- A call, known by its position in `RoomsSystem.calls`. -/
structure RoomsCall where
  request : RoomsRequest
  state : RoomsCallState
  deriving DecidableEq

/-- An entry of the log. -/
inductive RoomsObservation where
  /-- `createRoom` has inserted room `r` for `owner`. -/
  | created (owner r : Uuid)
  /-- `leaveRoom(u, r)` has been called. -/
  | leaveCalled (u r : Uuid)
  /-- The INSERT of `joinRoom(u, r)` has run. -/
  | joined (u r : Uuid)
  /-- The DELETE of `leaveRoom(u, r)` has run. -/
  | left (u r : Uuid)
  deriving DecidableEq

/-- The tables, the calls made so far, and the log. -/
structure RoomsSystem where
  db : RoomsDb
  calls : List RoomsCall := []
  log : List RoomsObservation := []

/-- What can happen next. -/
inductive RoomsEvent where
  | tick (milliseconds : ℕ)
  /-- A method is called. -/
  | call (request : RoomsRequest)
  /-- The statement of call `c` settles. -/
  | settle (c : ℕ) (fate : Fate) (fresh : Uuid)
  /-- Call `c` continues. -/
  | resume (c : ℕ)
  deriving DecidableEq

def RoomsNext.state : RoomsNext → RoomsCallState
  | .await stage => .awaiting stage none
  | next => .ended next

/-- What the log says of a call. -/
def RoomsRequest.observed : RoomsRequest → List RoomsObservation
  | .leaveRoom userId roomId =>
    match Uuid.parse userId, Uuid.parse roomId with
    | some u, some r => [.leaveCalled u r]
    | _, _ => []
  | _ => []

/-- What the log says of a statement that has run. -/
def RoomsQuery.observed (fresh : Uuid) : RoomsQuery → List RoomsObservation
  | .insertRoom _ _ createdBy =>
    match Uuid.parse createdBy with
    | some owner => [.created owner fresh]
    | none => []
  | .insertMember roomId userId =>
    match Uuid.parse roomId, Uuid.parse userId with
    | some r, some u => [.joined u r]
    | _, _ => []
  | .deleteMember roomId userId =>
    match Uuid.parse roomId, Uuid.parse userId with
    | some r, some u => [.left u r]
    | _, _ => []
  | _ => []

namespace RoomsSystem

/-- The statement of call `c` settles. -/
def settle (s : RoomsSystem) (c : ℕ) (call : RoomsCall) (stage : RoomsStage) (fate : Fate)
    (fresh : Uuid) : RoomsSystem :=
  let settled := fun answer ↦
    s.calls.set c { call with state := .awaiting stage (some answer) }
  match fate, s.db.exec fresh stage.query with
  | .answered, some (db, rows) =>
    { db := db, calls := settled (some rows), log := s.log ++ stage.query.observed fresh }
  | .lost, some (db, _) =>
    { db := db, calls := settled none, log := s.log ++ stage.query.observed fresh }
  | _, _ => { s with calls := settled none }

/-- The step of an event, `none` when it cannot happen. -/
def step (s : RoomsSystem) : RoomsEvent → Option RoomsSystem
  | .tick ms => some { s with db := { s.db with now := s.db.now + ms } }
  | .call request =>
    some { s with
      calls := s.calls ++ [⟨request, .awaiting request.start none⟩]
      log := s.log ++ request.observed }
  | .settle c fate fresh => do
    let call ← s.calls[c]?
    match call.state with
    | .awaiting stage none => return s.settle c call stage fate fresh
    | _ => none
  | .resume c => do
    let call ← s.calls[c]?
    match call.state with
    | .awaiting stage (some settled) =>
      return { s with calls := s.calls.set c { call with state := (stage.resume settled).state } }
    | _ => none

end RoomsSystem

end PostgresChat
