import Mathlib.Data.List.Sort
import PostgresChat.Common
import PostgresChat.Database.Uuid
import PostgresChat.Js.Number

/-!
# Tables and single statements

The committed state of the database, as far as the chat node reads and writes it, and the statements
the services issue on it through `PostgresService.query`. Each statement runs in its own implicit
transaction (no caller of `query` opens one), so all of them but the INSERT into `messages` take
effect in one step. That INSERT runs triggers that wait for other transactions; it is a sequence of
steps of its own, and `inserts` holds the statements that have begun.

Query parameters are text. A room id that is not the text of a UUID makes the statement fail, as
does a `bigint` parameter that PostgreSQL cannot read.
-/

namespace PostgresChat

/-! ## Rows -/

/-- A row of `messages`, with the `username` column of the third migration. -/
structure MessageRow where
  id : ℕ
  seq : ℕ
  roomId : Uuid
  userId : UserId
  username : JsString
  content : JsString
  createdAt : ℕ
  deriving DecidableEq

/-- A row of `presence`; times are milliseconds. -/
structure PresenceRow where
  userId : UserId
  roomId : Uuid
  nodeId : JsString
  lastSeen : ℕ
  deriving DecidableEq

/-- A row of `typing`. -/
structure TypingRow where
  userId : UserId
  roomId : Uuid
  startedAt : ℕ
  deriving DecidableEq

/-- The payload a trigger passes to `pg_notify`. -/
inductive Notification where
  | message (row : MessageRow)
  | presence (row : PresenceRow)
  | typing (row : TypingRow)
  deriving DecidableEq

/-- The channel the trigger names: `'room:' || NEW.room_id::text`, `'presence'` or `'typing'`. -/
def Notification.channel : Notification → Channel
  | .message row => getRoomNotifyChannel row.roomId.text
  | .presence _ => presenceChannel
  | .typing _ => typingChannel

/-- The message that is notified. -/
def Notification.message? : Notification → Option MessageRow
  | .message row => some row
  | .presence _ | .typing _ => none

/-! ## INSERT statements on `messages` -/

/-- How far an INSERT into `messages` has come. The two BEFORE triggers run in the order of their
names, `set_message_seq` first. -/
inductive InsertStage where
  /-- Begun; the UPDATE of `assign_room_sequence` has not got its row, perhaps waiting for it. -/
  | begun
  /-- That UPDATE has run: `seq` is what `RETURNING next_seq - 1` gave, `none` when no row matched.
  A matched row stays locked until the statement's transaction ends. -/
  | sequenced (seq : Option ℕ)
  /-- `set_message_username` has run. -/
  | named (seq : Option ℕ) (username : Option JsString)
  /-- The constraints hold, the row is stored and `notify_new_message` has run; not committed. -/
  | stored (row : MessageRow)
  | committed (row : MessageRow)
  | aborted
  deriving DecidableEq

/-- The `seq` assigned so far. -/
def InsertStage.seq? : InsertStage → Option ℕ
  | .sequenced seq | .named seq _ => seq
  | .stored row | .committed row => some row.seq
  | .begun | .aborted => none

/-- The transaction has not ended. -/
def InsertStage.inFlight : InsertStage → Bool
  | .committed _ | .aborted => false
  | _ => true

/-- One INSERT into `messages`, with its parameters and the defaults it was begun with. -/
structure Insert where
  id : ℕ
  roomId : Uuid
  userId : UserId
  content : JsString
  createdAt : ℕ
  stage : InsertStage
  deriving DecidableEq

/-- The statement holds the lock on the `room_sequences` row of `r`. -/
def Insert.locks (ins : Insert) (r : Uuid) : Bool :=
  ins.roomId = r && ins.stage.inFlight && ins.stage.seq?.isSome

/-! ## The database -/

/-- The committed tables, the INSERT statements begun so far, and the clock. -/
structure Db where
  /-- `users.id` and `users.username`. -/
  users : List (UserId × JsString) := []
  rooms : List Uuid := []
  roomMembers : List (Uuid × UserId) := []
  /-- `room_sequences.next_seq` of a room, `none` when the room has no row. -/
  roomSequences : Uuid → Option ℕ := fun _ ↦ none
  /-- The rows of `messages`, in the order their transactions committed. -/
  messages : List MessageRow := []
  presence : List PresenceRow := []
  typing : List TypingRow := []
  inserts : List Insert := []
  /-- The sequence behind `messages.id`. -/
  nextMessageId : ℕ := 1
  /-- `NOW()`. -/
  now : ℕ := 0

/-- The messages of a room, in commit order. -/
def Db.messagesOf (db : Db) (r : Uuid) : List MessageRow := db.messages.filter fun m ↦ m.roomId = r

/-- `room_members` has the row `(r, u)`. -/
def Db.isMember (db : Db) (r : Uuid) (u : UserId) : Bool := (r, u) ∈ db.roomMembers

/-- The foreign keys `(user_id, room_id)` of `presence`, `typing` and `messages` are satisfied. -/
def Db.hasRefs (db : Db) (r : Uuid) (u : UserId) : Bool :=
  r ∈ db.rooms && (db.users.map Prod.fst).contains u

/-- The `username` of a user. -/
def Db.username (db : Db) (u : UserId) : Option JsString :=
  (db.users.find? fun row ↦ row.1 = u).map Prod.snd

/-! ## Statements -/

/-- The digits of `s`, read as a number. -/
def parseDecimal (s : JsString) : Option ℕ :=
  if s ≠ [] ∧ s.all fun u ↦ 0x30 ≤ u.toNat && u.toNat ≤ 0x39 then
    some (s.foldl (fun n u ↦ 10 * n + (u.toNat - 0x30)) 0)
  else none

/-- `text::bigint`, on the texts a driver sends for a number: an optional sign and digits, within
the range of the type. -/
def parseBigint (s : JsString) : Option ℤ :=
  let value : Option ℤ :=
    if s.head? = some 0x2D then (parseDecimal s.tail).map fun n ↦ -(n : ℤ)
    else (parseDecimal s).map fun n ↦ (n : ℤ)
  value.filter fun z ↦ -2 ^ 63 ≤ z ∧ z < 2 ^ 63

/-- The integer a JavaScript number is bound to as a `bigint` parameter. -/
def bigintParam (n : JsNumber) : Option ℤ := parseBigint n.toString

/-- A parameterized statement, with its parameters as the caller passes them. -/
inductive Query where
  | selectMember (roomId : RoomId) (userId : UserId)
  | selectHistory (roomId : RoomId) (lastSeenSeq : JsNumber)
  | upsertPresence (userId : UserId) (roomId : RoomId) (nodeId : JsString)
  | deletePresence (userId : UserId) (roomId : RoomId)
  | deleteStalePresence
  | upsertTyping (userId : UserId) (roomId : RoomId)
  | deleteTyping (userId : UserId) (roomId : RoomId)
  | insertMember (roomId : RoomId) (userId : UserId)
  | deleteMember (roomId : RoomId) (userId : UserId)
  | insertMessage (roomId : RoomId) (userId : UserId) (content : JsString)
  deriving DecidableEq

/-- What becomes of a statement on the pool. -/
inductive Fate where
  | answered
  /-- Rejected, and not executed. -/
  | refused
  /-- Executed, but the answer is lost and the promise rejected. -/
  | lost
  deriving DecidableEq

/-- What a statement returns: a number of rows of a fixed shape, rows of `messages`, or nothing. -/
inductive QueryResult where
  | rows (count : ℕ)
  | messages (rows : List MessageRow)
  | command
  deriving DecidableEq

/-- The messages of a room that a client has not seen. -/
def Db.backlog (db : Db) (r : Uuid) (lastSeen : ℤ) : List MessageRow :=
  (db.messagesOf r).filter fun m ↦ lastSeen < m.seq

/-- `SELECT ... FROM messages WHERE room_id = $1 AND seq > $2 ORDER BY seq ASC LIMIT 100`. -/
def Db.history (db : Db) (r : Uuid) (lastSeen : ℤ) : List MessageRow :=
  ((db.backlog r lastSeen).insertionSort fun m m' ↦ m.seq ≤ m'.seq).take 100

/-- A backlog of at most 100 messages is returned as a whole. -/
theorem Db.mem_history {db : Db} {r : Uuid} {lastSeen : ℤ}
    (h : (db.backlog r lastSeen).length ≤ 100) {row : MessageRow} (hrow : row ∈ db.messagesOf r)
    (hseq : lastSeen < row.seq) : row ∈ db.history r lastSeen := by
  rw [history, List.take_of_length_le (by rwa [List.length_insertionSort]),
    List.mem_insertionSort, backlog, List.mem_filter]
  exact ⟨hrow, decide_eq_true hseq⟩

/-- The statement run to its end in one step: the new tables, its result and what its triggers
notify; `none` when it fails and leaves no effect. The INSERT into `messages` is not run here. -/
def Db.exec (db : Db) : Query → Option (Db × QueryResult × List Notification)
  | .selectMember roomId userId => do
    let r ← Uuid.parse roomId
    return (db, .rows (if db.isMember r userId then 1 else 0), [])
  | .selectHistory roomId lastSeenSeq => do
    let r ← Uuid.parse roomId
    let lastSeen ← bigintParam lastSeenSeq
    return (db, .messages (db.history r lastSeen), [])
  | .upsertPresence userId roomId nodeId => do
    let r ← Uuid.parse roomId
    guard (db.hasRefs r userId)
    let row : PresenceRow := ⟨userId, r, nodeId, db.now⟩
    let rest := db.presence.filter fun p ↦ ¬(p.userId = userId ∧ p.roomId = r)
    return ({ db with presence := rest ++ [row] }, .command, [.presence row])
  | .deletePresence userId roomId => do
    let r ← Uuid.parse roomId
    let rest := db.presence.filter fun p ↦ ¬(p.userId = userId ∧ p.roomId = r)
    return ({ db with presence := rest }, .command, [])
  | .deleteStalePresence =>
    some ({ db with presence := db.presence.filter fun p ↦ ¬(p.lastSeen + 60000 < db.now) },
      .command, [])
  | .upsertTyping userId roomId => do
    let r ← Uuid.parse roomId
    guard (db.hasRefs r userId)
    let row : TypingRow := ⟨userId, r, db.now⟩
    let rest := db.typing.filter fun p ↦ ¬(p.userId = userId ∧ p.roomId = r)
    return ({ db with typing := rest ++ [row] }, .command, [.typing row])
  | .deleteTyping userId roomId => do
    let r ← Uuid.parse roomId
    let rest := db.typing.filter fun p ↦ ¬(p.userId = userId ∧ p.roomId = r)
    return ({ db with typing := rest }, .command, [])
  | .insertMember roomId userId => do
    let r ← Uuid.parse roomId
    guard (db.hasRefs r userId)
    return ({ db with roomMembers := db.roomMembers.insert (r, userId) }, .command, [])
  | .deleteMember roomId userId => do
    let r ← Uuid.parse roomId
    return ({ db with roomMembers := db.roomMembers.filter fun p ↦ p ≠ (r, userId) }, .command, [])
  | .insertMessage .. => none

end PostgresChat
