import PostgresChat.Common
import PostgresChat.Js.Json

/-!
# Frames sent by the client

What `handleFrame` reads from a parsed frame: the event name, and the payload as the validators of
`ws-payload-validation.ts` accept it. A payload carries what its validator has checked, so nothing
behind the validators has to check it again.

`none` in place of a `Json` is `undefined`, the value of a member that is missing.
-/

namespace PostgresChat

/-! ## Payloads -/

/-- The invalid branch of a `ValidationResult`. -/
structure ValidationError where
  message : JsString
  code : JsString
  deriving DecidableEq

/-- The payload of `leave_room`, `typing_start` and `typing_stop`. -/
structure RoomPayload where
  roomId : RoomId
  roomId_ne_nil : roomId ≠ []
  deriving DecidableEq

/-- The payload of `join_room`. -/
structure JoinRoomPayload extends RoomPayload where
  lastSeenSeq : Option JsNumber
  lastSeenSeq_ne_nan : lastSeenSeq ≠ some .nan
  deriving DecidableEq

/-- The payload of `send_message`. -/
structure SendMessagePayload extends RoomPayload where
  content : JsString
  length_content : content.length ≤ maxMessageLength
  deriving DecidableEq

/-! ## Validators -/

def invalidPayload (message : String) : ValidationError :=
  ⟨JsString.lit message, JsString.lit "invalid_payload"⟩

/-- `content must not exceed ${MAX_MESSAGE_LENGTH} characters`. -/
def messageTooLong : ValidationError :=
  ⟨JsString.lit "content must not exceed " ++ JsNumber.decimal maxMessageLength ++
    JsString.lit " characters", JsString.lit "message_too_long"⟩

/-- The check all validators begin with: an object that is not an array. -/
def validateObject : Option Json → Except ValidationError Json
  | some (.object members) => .ok (.object members)
  | _ => .error (invalidPayload "Payload must be an object")

/-- The check of `room_id`, which is trimmed. -/
def validateRoomId (o : Json) : Except ValidationError RoomPayload :=
  match o.member (JsString.lit "room_id") with
  | some (.string roomId) =>
    if h : roomId.trim ≠ [] then .ok ⟨roomId.trim, h⟩
    else .error (invalidPayload "room_id is required and must be a non-empty string")
  | _ => .error (invalidPayload "room_id is required and must be a non-empty string")

/-- The validator of a payload with a `room_id` only. -/
def validateRoomPayload (data : Option Json) : Except ValidationError RoomPayload := do
  validateRoomId (← validateObject data)

def validateLeaveRoomPayload := validateRoomPayload

def validateTypingPayload := validateRoomPayload

def validateJoinRoomPayload (data : Option Json) : Except ValidationError JoinRoomPayload := do
  let o ← validateObject data
  let room ← validateRoomId o
  match o.member (JsString.lit "last_seen_seq") with
  | none | some .null => return { room with lastSeenSeq := none, lastSeenSeq_ne_nan := nofun }
  | some (.number n) =>
    if h : n ≠ .nan then
      return { room with
        lastSeenSeq := some n, lastSeenSeq_ne_nan := fun heq ↦ h (Option.some.inj heq) }
    else throw (invalidPayload "last_seen_seq must be a number if present")
  | _ => throw (invalidPayload "last_seen_seq must be a number if present")

def validateSendMessagePayload (data : Option Json) :
    Except ValidationError SendMessagePayload := do
  let o ← validateObject data
  let room ← validateRoomId o
  match o.member (JsString.lit "content") with
  | some (.string content) =>
    if h : content.length ≤ maxMessageLength then
      return { room with content := content, length_content := h }
    else throw messageTooLong
  | _ => throw (invalidPayload "content is required and must be a string")

/-- What a sequence of checks that succeeds has gone through. -/
theorem ok_of_bind_eq_ok {ε α β : Type} {x : Except ε α} {f : α → Except ε β} {b : β}
    (h : (x >>= f) = .ok b) : ∃ a, x = .ok a ∧ f a = .ok b := by
  cases x with
  | error err => cases h
  | ok a => exact ⟨a, rfl, h⟩

/-- Where `join_room` is accepted, `leave_room` and the typing events are accepted too, for the same
room. -/
theorem validateRoomPayload_of_join {data : Option Json} {payload : JoinRoomPayload}
    (h : validateJoinRoomPayload data = .ok payload) :
    validateRoomPayload data = .ok payload.toRoomPayload := by
  obtain ⟨o, hobject, h⟩ := ok_of_bind_eq_ok h
  obtain ⟨room, hroom, h⟩ := ok_of_bind_eq_ok h
  have hpayload : payload.toRoomPayload = room := by
    split at h
    · cases h; rfl
    · cases h; rfl
    · split at h
      · cases h; rfl
      · cases h
    · cases h
  rw [validateRoomPayload, hobject, hpayload]
  exact hroom

/-- Where `send_message` is accepted, `leave_room` and the typing events are accepted too, for the
same room. -/
theorem validateRoomPayload_of_send {data : Option Json} {payload : SendMessagePayload}
    (h : validateSendMessagePayload data = .ok payload) :
    validateRoomPayload data = .ok payload.toRoomPayload := by
  obtain ⟨o, hobject, h⟩ := ok_of_bind_eq_ok h
  obtain ⟨room, hroom, h⟩ := ok_of_bind_eq_ok h
  have hpayload : payload.toRoomPayload = room := by
    split at h
    · split at h
      · cases h; rfl
      · cases h
    · cases h
  rw [validateRoomPayload, hobject, hpayload]
  exact hroom

/-! ## Frames -/

/-- What `handleFrame` finds in a frame. -/
inductive ClientFrame where
  /-- The frame is `null`, from which no member can be read. -/
  | null
  /-- No event the node knows. -/
  | unknown
  | invalid (error : ValidationError)
  | joinRoom (payload : JoinRoomPayload)
  | leaveRoom (payload : RoomPayload)
  | sendMessage (payload : SendMessagePayload)
  | typingStart (payload : RoomPayload)
  | typingStop (payload : RoomPayload)
  deriving DecidableEq

namespace ClientFrame

/-- A validated payload as a frame. -/
def ofResult {α : Type} (frame : α → ClientFrame) : Except ValidationError α → ClientFrame
  | .ok payload => frame payload
  | .error err => .invalid err

/-- The dispatch of `handleFrame` on the event name. -/
def ofEvent (event : JsString) (data : Option Json) : ClientFrame :=
  if event = joinRoomEvent then ofResult .joinRoom (validateJoinRoomPayload data)
  else if event = leaveRoomEvent then ofResult .leaveRoom (validateLeaveRoomPayload data)
  else if event = sendMessageEvent then ofResult .sendMessage (validateSendMessagePayload data)
  else if event = typingStartEvent then ofResult .typingStart (validateTypingPayload data)
  else if event = typingStopEvent then ofResult .typingStop (validateTypingPayload data)
  else .unknown

/-- `const { event, data } = frame`. -/
def ofJson : Json → ClientFrame
  | .null => .null
  | frame =>
    match frame.member (JsString.lit "event") with
    | some (.string event) => ofEvent event (frame.member (JsString.lit "data"))
    | _ => .unknown

end ClientFrame

end PostgresChat
