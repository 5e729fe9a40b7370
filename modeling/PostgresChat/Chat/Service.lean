import PostgresChat.Chat.Payload
import PostgresChat.Database.Tables

/-!
# The chat handlers

`ChatService`, with `handleFrame` in front of it. A handler is cut at its `await`s: a `Stage` is an
`await` together with the variables that live across it, `Stage.request` is the promise awaited
there, and `Stage.resume` is the code from there to the next `await` or to the end, a `Turn`.
Nothing else is kept between two turns, so any interleaving of handlers is an interleaving of turns.

`room_id` and `user_id` are passed on unchanged by every handler; `user_id` belongs to the socket
and stays outside the stages.
-/

namespace PostgresChat

/-! ## Frames sent to the client -/

/-- The `next_cursor` of a history frame: the `seq` of the last message, or `last_seen_seq`. -/
inductive Cursor where
  | seq (n : ℕ)
  | lastSeenSeq (n : JsNumber)
  deriving DecidableEq

/-- A frame the node sends. -/
inductive ServerFrame where
  | error (message : JsString) (code : Option JsString)
  | history (messages : List MessageRow) (nextCursor : Cursor)
  | joinedRoom (roomId : RoomId)
  | newMessageBatch (messages : List MessageRow)
  | presence (row : PresenceRow)
  | typing (row : TypingRow)
  deriving DecidableEq

def ServerFrame.ofValidationError (err : ValidationError) : ServerFrame :=
  .error err.message (some err.code)

def notAMember : ServerFrame := .error (JsString.lit "Not a member of this room") none

/-! ## Turns -/

/-- What an awaited promise settles to. -/
inductive Settled where
  | resolved (result : QueryResult)
  | rejected
  deriving DecidableEq

/-- `result.rows.length`. -/
def QueryResult.rowCount : QueryResult → ℕ
  | .rows count => count
  | .messages list => list.length
  | .command => 0

/-- `result.rows` of a query on `messages`. -/
def QueryResult.messageRows : QueryResult → List MessageRow
  | .messages list => list
  | .rows _ | .command => []

/-- An `await` of a handler. -/
inductive Stage where
  | joinMember (roomId : RoomId) (lastSeenSeq : Option JsNumber)
  | joinSubscribe (roomId : RoomId) (lastSeenSeq : Option JsNumber)
  | joinHistory (roomId : RoomId) (lastSeenSeq : JsNumber)
  | joinPresence (roomId : RoomId)
  | leavePresence (roomId : RoomId)
  | leaveUnsubscribe (roomId : RoomId)
  | sendMember (roomId : RoomId) (content : JsString)
  | sendInsert (roomId : RoomId) (content : JsString)
  | typingStartMember (roomId : RoomId)
  | typingStartUpsert (roomId : RoomId)
  | typingStopDelete (roomId : RoomId)
  deriving DecidableEq

/-- The call whose promise is awaited. -/
inductive Request where
  | query (q : Query)
  | subscribe (roomId : RoomId)
  | unsubscribe (roomId : RoomId)
  deriving DecidableEq

/-- A call of `socket.send`. One inside `sendError` is guarded: what it throws is ignored. -/
structure Send where
  frame : ServerFrame
  guarded : Bool := false
  deriving DecidableEq

/-- How a turn ends. -/
inductive Next where
  | await (stage : Stage)
  | returned
  | threw
  deriving DecidableEq

/-- The code between two `await`s: what it sends, and how it ends. -/
structure Turn where
  send : Option Send := none
  next : Next
  deriving DecidableEq

/-- The promise awaited at a stage. -/
def Stage.request (userId : UserId) (nodeId : JsString) : Stage → Request
  | .joinMember roomId _ => .query (.selectMember roomId userId)
  | .joinSubscribe roomId _ => .subscribe roomId
  | .joinHistory roomId lastSeenSeq => .query (.selectHistory roomId lastSeenSeq)
  | .joinPresence roomId => .query (.upsertPresence userId roomId nodeId)
  | .leavePresence roomId => .query (.deletePresence userId roomId)
  | .leaveUnsubscribe roomId => .unsubscribe roomId
  | .sendMember roomId _ => .query (.selectMember roomId userId)
  | .sendInsert roomId content => .query (.insertMessage roomId userId content)
  | .typingStartMember roomId => .query (.selectMember roomId userId)
  | .typingStartUpsert roomId => .query (.upsertTyping userId roomId)
  | .typingStopDelete roomId => .query (.deleteTyping userId roomId)

/-! ## Handlers -/

def handleJoinRoom (payload : JoinRoomPayload) : Turn :=
  { next := .await (.joinMember payload.roomId payload.lastSeenSeq) }

def handleLeaveRoom (payload : RoomPayload) : Turn :=
  { next := .await (.leavePresence payload.roomId) }

def handleSendMessage (payload : SendMessagePayload) : Turn :=
  if payload.content.length > maxMessageLength then
    { send := some ⟨.ofValidationError messageTooLong, false⟩, next := .returned }
  else { next := .await (.sendMember payload.roomId payload.content) }

def handleTypingStart (payload : RoomPayload) : Turn :=
  { next := .await (.typingStartMember payload.roomId) }

def handleTypingStop (payload : RoomPayload) : Turn :=
  { next := .await (.typingStopDelete payload.roomId) }

/-- The second length check never fires: the validator has made it already. -/
theorem handleSendMessage_eq (payload : SendMessagePayload) :
    handleSendMessage payload = { next := .await (.sendMember payload.roomId payload.content) } :=
  if_neg (Nat.not_lt.mpr payload.length_content)

/-- The `next_cursor` after the messages of a history frame. -/
def nextCursor (messages : List MessageRow) (lastSeenSeq : JsNumber) : Cursor :=
  match messages.getLast? with
  | some row => .seq row.seq
  | none => .lastSeenSeq lastSeenSeq

/-- A handler continues after the promise awaited at the stage was fulfilled. -/
def Stage.proceed (stage : Stage) (result : QueryResult) : Turn :=
  match stage with
  | .joinMember roomId lastSeenSeq =>
    if result.rowCount = 0 then { send := some ⟨notAMember, false⟩, next := .returned }
    else { next := .await (.joinSubscribe roomId lastSeenSeq) }
  | .joinSubscribe roomId (some lastSeenSeq) => { next := .await (.joinHistory roomId lastSeenSeq) }
  | .joinSubscribe roomId none => { next := .await (.joinPresence roomId) }
  | .joinHistory roomId lastSeenSeq =>
    { send := some ⟨.history result.messageRows (nextCursor result.messageRows lastSeenSeq), false⟩
      next := .await (.joinPresence roomId) }
  | .joinPresence roomId => { send := some ⟨.joinedRoom roomId, false⟩, next := .returned }
  | .leavePresence roomId => { next := .await (.leaveUnsubscribe roomId) }
  | .leaveUnsubscribe _ => { next := .returned }
  | .sendMember roomId content =>
    if result.rowCount = 0 then { send := some ⟨notAMember, false⟩, next := .returned }
    else { next := .await (.sendInsert roomId content) }
  | .sendInsert _ _ => { next := .returned }
  | .typingStartMember roomId =>
    if result.rowCount = 0 then { send := some ⟨notAMember, false⟩, next := .returned }
    else { next := .await (.typingStartUpsert roomId) }
  | .typingStartUpsert _ | .typingStopDelete _ => { next := .returned }

/-- A handler continues; no handler catches anything. -/
def Stage.resume (stage : Stage) : Settled → Turn
  | .resolved result => stage.proceed result
  | .rejected => { next := .threw }

/-- The first turn of `handleFrame`, apart from what it does to the rooms of the socket. A socket
without a user id is closed instead. -/
def handleFrame (userId : UserId) (frame : ClientFrame) : Turn :=
  if userId = [] then { next := .returned }
  else
    match frame with
    | .null => { next := .threw }
    | .unknown => { next := .returned }
    | .invalid err => { send := some ⟨.ofValidationError err, true⟩, next := .returned }
    | .joinRoom payload => handleJoinRoom payload
    | .leaveRoom payload => handleLeaveRoom payload
    | .sendMessage payload => handleSendMessage payload
    | .typingStart payload => handleTypingStart payload
    | .typingStop payload => handleTypingStop payload

/-! ## Every handler ends -/

/-- A bound on the turns a handler still takes from a stage. -/
def Stage.turnsLeft : Stage → ℕ
  | .joinMember _ _ => 4
  | .joinSubscribe _ _ => 3
  | .joinHistory _ _ | .leavePresence _ | .sendMember _ _ | .typingStartMember _ => 2
  | .joinPresence _ | .leaveUnsubscribe _ | .sendInsert _ _ | .typingStartUpsert _
  | .typingStopDelete _ => 1

theorem Stage.turnsLeft_pos (stage : Stage) : 0 < stage.turnsLeft := by
  cases stage <;> simp only [turnsLeft, Nat.zero_lt_succ]

theorem Stage.turnsLeft_le (stage : Stage) : stage.turnsLeft ≤ 4 := by
  cases stage <;> simp only [turnsLeft] <;> omega

theorem Stage.turnsLeft_resume {stage stage' : Stage} {settled : Settled}
    (h : (stage.resume settled).next = .await stage') : stage'.turnsLeft < stage.turnsLeft := by
  cases settled with
  | rejected => cases h
  | resolved result =>
    cases stage with
    | joinSubscribe roomId lastSeenSeq =>
      cases lastSeenSeq <;> cases h <;> simp only [turnsLeft] <;> omega
    | _ =>
      simp only [resume, proceed] at h
      try split at h
      all_goals cases h
      all_goals simp only [turnsLeft]; omega

end PostgresChat
