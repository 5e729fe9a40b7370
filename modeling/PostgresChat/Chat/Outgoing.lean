import PostgresChat.Chat.Views
import PostgresChat.Js.Printing
import PostgresChat.Js.WellFormed

/-!
# Frames as bytes: from the database to the client

A row of `messages`, `presence` or `typing` leaves the database as the payload of a notification.
The `'notification'` handler reads channel and payload, and what it emits is put into the buffer of
a room, or broadcast. `fanout_eq` follows the bytes along this way, for any texts: the room is that
of the row, and the object that is passed on has the texts of the row, as UTF-8 carries them.

Every frame is then written with `JSON.stringify`, and a client that reads it with `JSON.parse` has
the object that was written (`ServerFrame.ofBytes_toBytes`).
-/

namespace PostgresChat

open JsString (lit toWellFormed)
open Json (Readable AllNumbers allNumbers_object allNumbers_array allNumbers_string
  allNumbers_number)

/-! ## The payloads of the other triggers -/

/-- `row_to_json(...)::text`, of names and values that are JSON text already. -/
def rowToJson (members : List (JsString × Bytes)) : Bytes :=
  JsString.utf8 (lit "\x7b") ++ (JsString.utf8 (lit ",")).intercalate
    (members.map fun m ↦ escapeJson m.1 ++ JsString.utf8 (lit ":") ++ m.2) ++
    JsString.utf8 (lit "\x7d")

/-- The second argument of `pg_notify` in `notify_presence`. -/
def PresenceRow.notifyPayload (timestamp : ℕ → JsString) (row : PresenceRow) : Bytes :=
  rowToJson [(lit "user_id", escapeJson row.userId), (lit "room_id", escapeJson row.roomId.text),
    (lit "node_id", escapeJson row.nodeId), (lit "last_seen", escapeJson (timestamp row.lastSeen))]

/-- The second argument of `pg_notify` in `notify_typing`. -/
def TypingRow.notifyPayload (timestamp : ℕ → JsString) (row : TypingRow) : Bytes :=
  rowToJson [(lit "user_id", escapeJson row.userId), (lit "room_id", escapeJson row.roomId.text),
    (lit "started_at", escapeJson (timestamp row.startedAt))]

def Notification.notifyPayload (timestamp : ℕ → JsString) : Notification → Bytes
  | .message row => row.notifyPayload timestamp
  | .presence row => row.notifyPayload timestamp
  | .typing row => row.notifyPayload timestamp

/-- What is parsed. -/
def PresenceRow.payload (timestamp : ℕ → JsString) (row : PresenceRow) : Json :=
  .object [(lit "user_id", .string (toWellFormed row.userId)),
    (lit "room_id", .string (toWellFormed row.roomId.text)),
    (lit "node_id", .string (toWellFormed row.nodeId)),
    (lit "last_seen", .string (toWellFormed (timestamp row.lastSeen)))]

def TypingRow.payload (timestamp : ℕ → JsString) (row : TypingRow) : Json :=
  .object [(lit "user_id", .string (toWellFormed row.userId)),
    (lit "room_id", .string (toWellFormed row.roomId.text)),
    (lit "started_at", .string (toWellFormed (timestamp row.startedAt)))]

def Notification.payload (timestamp : ℕ → JsString) : Notification → Json
  | .message row => row.payload timestamp
  | .presence row => row.payload timestamp
  | .typing row => row.payload timestamp

/-- **`row_to_json`.** -/
theorem denotes_rowToJson {members : List (JsString × Bytes)} {values : List (JsString × Json)}
    (h : List.Forall₂ (fun m m' ↦ m'.1 = toWellFormed m.1 ∧ Denotes m.2 m'.2) members values) :
    Denotes (rowToJson members) (.object values) := by
  have hcomma : Json.Spells (toWellFormed (lit ",")) .comma := Json.spells_comma
  have hcolon : Json.Spells (toWellFormed (lit ":")) .colon := Json.spells_colon
  exact denotes_object hcomma hcolon h

/-- A column of text. -/
theorem denotes_column (name : String) (hname : (lit name).all JsString.isAscii = true)
    (s : JsString) :
    lit name = toWellFormed (lit name) ∧ Denotes (escapeJson s) (.string (toWellFormed s)) :=
  ⟨(JsString.toWellFormed_of_isAscii hname).symm, denotes_escapeJson s⟩

theorem Notification.ofBytes_notifyPayload (timestamp : ℕ → JsString) (note : Notification) :
    Json.ofBytes (note.notifyPayload timestamp) = some (note.payload timestamp) := by
  rcases note with row | row | row
  · exact announced_eq timestamp row
  · refine (denotes_rowToJson ?_).parse
    exact .cons (denotes_column "user_id" (by decide) _) <|
      .cons (denotes_column "room_id" (by decide) _) <|
      .cons (denotes_column "node_id" (by decide) _) <|
      .cons (denotes_column "last_seen" (by decide) _) .nil
  · refine (denotes_rowToJson ?_).parse
    exact .cons (denotes_column "user_id" (by decide) _) <|
      .cons (denotes_column "room_id" (by decide) _) <|
      .cons (denotes_column "started_at" (by decide) _) .nil

/-! ## The handlers of a notification -/

/-- An event of the emitter, with its arguments. -/
inductive Emission where
  | roomMessage (roomId : RoomId) (payload : Json)
  | presence (payload : Json)
  | typing (payload : Json)

/-- The `'notification'` handler of `wireListenClientHandlers`. -/
def emission (channel : Channel) (payload : Bytes) : Option Emission :=
  if payload = [] then none
  else if roomChannelPrefix <+: channel then
    (Json.ofBytes payload).map (.roomMessage (channel.drop roomChannelPrefix.length))
  else if channel = presenceChannel then (Json.ofBytes payload).map .presence
  else if channel = typingChannel then (Json.ofBytes payload).map .typing
  else none

/-- What is done for the sockets of a room. -/
inductive Fanout where
  /-- `enqueueRoomMessage(roomId, payload)` -/
  | enqueue (roomId : RoomId) (payload : Json)
  /-- `broadcastToRoom(roomId, message)` -/
  | broadcast (roomId : RoomId) (message : Json)

/-- `{ event, data }` -/
def serverFrame (event : String) (data : Json) : Json :=
  .object [(lit "event", .string (lit event)), (lit "data", data)]

/-- The handlers that the constructor of `ChatWsService` registers. A `room_id` that is no string is
the key of no room. -/
def Emission.fanout : Emission → Option Fanout
  | .roomMessage roomId payload => some (.enqueue roomId payload)
  | .presence payload =>
    match payload.member (lit "room_id") with
    | some (.string roomId) => some (.broadcast roomId (serverFrame "presence" payload))
    | _ => none
  | .typing payload =>
    match payload.member (lit "room_id") with
    | some (.string roomId) => some (.broadcast roomId (serverFrame "typing" payload))
    | _ => none

/-! ## Frames -/

/-- A frame as `JSON.stringify` sees it. An empty `code` is falsy. -/
def ServerFrame.toJson (timestamp isoString : ℕ → JsString) : ServerFrame → Json
  | .error message code => serverFrame "error" <| .object <|
      (lit "message", .string message) ::
        (code.filter (· ≠ [])).toList.map fun code ↦ (lit "code", .string code)
  | .history messages nextCursor => historyFrame isoString messages nextCursor
  | .joinedRoom roomId => serverFrame "joined_room" (.object [(lit "room_id", .string roomId)])
  | .newMessageBatch messages => newMessageBatchFrame (messages.map (·.payload timestamp))
  | .presence row => serverFrame "presence" (row.payload timestamp)
  | .typing row => serverFrame "typing" (row.payload timestamp)

/-- `socket.send(JSON.stringify(frame))` -/
def ServerFrame.toBytes (timestamp isoString : ℕ → JsString) (frame : ServerFrame) : Bytes :=
  (frame.toJson timestamp isoString).toBytes

/-- The numbers in the frame are such as the runtime and the database have. -/
def ServerFrame.Fits : ServerFrame → Prop
  | .history _ (.lastSeenSeq n) => ∃ q, n = .finite q ∧ JsNumber.IsDouble q
  | .newMessageBatch messages => ∀ row ∈ messages, row.Fits
  | _ => True

variable {timestamp isoString : ℕ → JsString} {frame : ServerFrame}

theorem allNumbers_serverFrame (event : String) {data : Json} (h : data.AllNumbers Readable) :
    (serverFrame event data).AllNumbers Readable :=
  allNumbers_cons allNumbers_string (allNumbers_cons h allNumbers_nil)

theorem ServerFrame.allNumbers (h : frame.Fits) :
    (frame.toJson timestamp isoString).AllNumbers Readable := by
  rcases frame with ⟨message, code⟩ | ⟨messages, cursor⟩ | roomId | messages | row | row
  · refine allNumbers_serverFrame _ (allNumbers_cons allNumbers_string ?_)
    rcases code.filter (· ≠ []) with _ | code
    · exact allNumbers_nil
    · exact allNumbers_cons allNumbers_string allNumbers_nil
  · refine allNumbers_serverFrame _ (allNumbers_cons (allNumbers_rows isoString messages)
      (allNumbers_cons ?_ allNumbers_nil))
    rcases cursor with seq | n
    · exact allNumbers_string
    · obtain ⟨q, rfl, hq⟩ := h
      exact allNumbers_number (Json.readable_finite hq)
  · exact allNumbers_serverFrame _ (allNumbers_cons allNumbers_string allNumbers_nil)
  · refine allNumbers_serverFrame _ (allNumbers_array.mpr fun v hv ↦ ?_)
    obtain ⟨row, hrow, rfl⟩ := List.mem_map.mp hv
    exact allNumbers_payload timestamp (h row hrow)
  · exact allNumbers_serverFrame _ <| allNumbers_cons allNumbers_string <|
      allNumbers_cons allNumbers_string <| allNumbers_cons allNumbers_string <|
      allNumbers_cons allNumbers_string allNumbers_nil
  · exact allNumbers_serverFrame _ <| allNumbers_cons allNumbers_string <|
      allNumbers_cons allNumbers_string <| allNumbers_cons allNumbers_string allNumbers_nil

/-- **A frame is read as it was written.** -/
theorem ServerFrame.ofBytes_toBytes (h : frame.Fits) :
    Json.ofBytes (frame.toBytes timestamp isoString) = some (frame.toJson timestamp isoString) :=
  Json.ofBytes_toBytes (ServerFrame.allNumbers h)

/-! ## From the trigger to the room -/

theorem Uuid.toWellFormed_text (id : Uuid) : toWellFormed id.text = id.text := by
  refine JsString.toWellFormed_of_isAscii (List.all_eq_true.mpr fun u hu ↦ ?_)
  rcases Uuid.eq_of_mem_printDigits hu with rfl | ⟨d, rfl⟩
  · rfl
  · exact JsString.isAscii_of_isPlain (isPlain_hexUnit d)

/-- What is to be done for a notification. -/
def Notification.fanout (timestamp isoString : ℕ → JsString) : Notification → Fanout
  | .message row => .enqueue row.roomId.text (row.payload timestamp)
  | .presence row =>
    .broadcast row.roomId.text ((ServerFrame.presence row).toJson timestamp isoString)
  | .typing row => .broadcast row.roomId.text ((ServerFrame.typing row).toJson timestamp isoString)

theorem Notification.notifyPayload_ne_nil (timestamp : ℕ → JsString) (note : Notification) :
    note.notifyPayload timestamp ≠ [] := by
  rcases note with row | row | row
  all_goals
    rintro ⟨⟩

/-- **The bytes of a trigger reach the room of the row.** Whatever texts a row has, the handlers do
on the channel and the payload of its trigger what is to be done for the row. -/
theorem fanout_eq (timestamp isoString : ℕ → JsString) (note : Notification) :
    (emission note.channel (note.notifyPayload timestamp)).bind Emission.fanout =
      some (note.fanout timestamp isoString) := by
  have hparse := note.ofBytes_notifyPayload timestamp
  rw [emission, if_neg (note.notifyPayload_ne_nil timestamp), hparse]
  rcases note with row | row | row
  · have hprefix : roomChannelPrefix <+: getRoomNotifyChannel row.roomId.text :=
      List.prefix_append _ _
    rw [Notification.channel, if_pos hprefix]
    exact congrArg (fun R ↦ some (Fanout.enqueue R (row.payload timestamp)))
      (drop_getRoomNotifyChannel row.roomId.text)
  · have hroom : (row.payload timestamp).member (lit "room_id") =
        some (.string (toWellFormed row.roomId.text)) := rfl
    rw [Notification.channel, if_neg (show ¬ roomChannelPrefix <+: presenceChannel by decide),
      if_pos rfl]
    simp only [Option.map_some, Option.bind_some, Emission.fanout, Notification.payload, hroom,
      Uuid.toWellFormed_text]
    rfl
  · have hroom : (row.payload timestamp).member (lit "room_id") =
        some (.string (toWellFormed row.roomId.text)) := rfl
    rw [Notification.channel, if_neg (show ¬ roomChannelPrefix <+: typingChannel by decide),
      if_neg (show ¬ typingChannel = presenceChannel by decide), if_pos rfl]
    simp only [Option.map_some, Option.bind_some, Emission.fanout, Notification.payload, hroom,
      Uuid.toWellFormed_text]
    rfl

end PostgresChat
