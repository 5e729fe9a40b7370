import PostgresChat.Chat.Payload
import PostgresChat.Js.Printing
import PostgresChat.Js.WellFormed

/-!
# Frames as bytes: from the client to the node

A client writes its frame with `JSON.stringify`, as the load tests do, and the listener reads the
bytes with `JSON.parse(raw.toString())`. What it hands to `handleFrame` is settled here for every
request that can be written, whatever strings are in it: `room_id` arrives trimmed, `content` unit
by unit (with its lone surrogates, which travel as escapes), `last_seen_seq` as the same double.

In the other direction, a frame of one of the five kinds that was read from any bytes at all is read
again from the bytes it is written as. So requests can be recorded as what was read from them and
sent again.
-/

namespace PostgresChat

open JsString (lit)
open Json (Readable AllNumbers IsRounded allNumbers_object allNumbers_string allNumbers_number)

/-! ## Requests -/

/-- What a client asks for. -/
inductive ClientRequest where
  | joinRoom (roomId : JsString) (lastSeenSeq : Option ℚ)
  | leaveRoom (roomId : JsString)
  | sendMessage (roomId content : JsString)
  | typingStart (roomId : JsString)
  | typingStop (roomId : JsString)

namespace ClientRequest

def event : ClientRequest → JsString
  | joinRoom .. => joinRoomEvent
  | leaveRoom _ => leaveRoomEvent
  | sendMessage .. => sendMessageEvent
  | typingStart _ => typingStartEvent
  | typingStop _ => typingStopEvent

def roomId : ClientRequest → JsString
  | joinRoom roomId _ | leaveRoom roomId | sendMessage roomId _ | typingStart roomId
  | typingStop roomId => roomId

/-- The members of the payload besides `room_id`. -/
def others : ClientRequest → List (JsString × Json)
  | joinRoom _ lastSeenSeq =>
    [(lit "last_seen_seq", lastSeenSeq.elim .null fun q ↦ .number (.finite q))]
  | sendMessage _ content => [(lit "content", .string content)]
  | leaveRoom _ | typingStart _ | typingStop _ => []

/-- `{ room_id: roomId, ... }` -/
def data (r : ClientRequest) : Json := .object ((lit "room_id", .string r.roomId) :: r.others)

/-- `{ event, data }` -/
def toJson (r : ClientRequest) : Json :=
  .object [(lit "event", .string r.event), (lit "data", r.data)]

/-- `socket.send(JSON.stringify({ event, data }))` -/
def toBytes (r : ClientRequest) : List UInt8 := r.toJson.toBytes

/-- The `last_seen_seq` is a number of the runtime. -/
def Writable : ClientRequest → Prop
  | joinRoom _ lastSeenSeq => ∀ q ∈ lastSeenSeq, JsNumber.IsDouble q
  | leaveRoom _ | sendMessage .. | typingStart _ | typingStop _ => True

/-- The frame that reaches `handleFrame`. -/
def frame (r : ClientRequest) : ClientFrame :=
  if h : r.roomId.trim ≠ [] then
    match r with
    | joinRoom roomId lastSeenSeq => .joinRoom
      { roomId := roomId.trim, roomId_ne_nil := h, lastSeenSeq := lastSeenSeq.map .finite
        lastSeenSeq_ne_nan := by cases lastSeenSeq <;> rintro ⟨⟩ }
    | leaveRoom roomId => .leaveRoom ⟨roomId.trim, h⟩
    | sendMessage roomId content =>
      if hcontent : content.length ≤ maxMessageLength then
        .sendMessage
          { roomId := roomId.trim, roomId_ne_nil := h, content, length_content := hcontent }
      else .invalid messageTooLong
    | typingStart roomId => .typingStart ⟨roomId.trim, h⟩
    | typingStop roomId => .typingStop ⟨roomId.trim, h⟩
  else .invalid (invalidPayload "room_id is required and must be a non-empty string")

end ClientRequest

/-- What the listener of the `'message'` event hands to `handleFrame`; `none` is a message that is
not JSON. -/
def receivedFrame (raw : List UInt8) : Option ClientFrame := (Json.ofBytes raw).map .ofJson

/-! ## From the request to the frame -/

variable {r : ClientRequest} {raw : List UInt8} {frame : ClientFrame}

theorem ClientRequest.allNumbers (h : r.Writable) : r.toJson.AllNumbers Readable := by
  have hothers : ∀ m ∈ r.others, m.2.AllNumbers Readable := by
    rcases r with ⟨roomId, _ | q⟩ | roomId | ⟨roomId, content⟩ | roomId | roomId
    · refine List.forall_mem_singleton.mpr ?_
      rintro _ ⟨⟩
    · exact List.forall_mem_singleton.mpr (allNumbers_number (Json.readable_finite (h q rfl)))
    · exact fun _ hm ↦ absurd hm List.not_mem_nil
    · exact List.forall_mem_singleton.mpr allNumbers_string
    · exact fun _ hm ↦ absurd hm List.not_mem_nil
    · exact fun _ hm ↦ absurd hm List.not_mem_nil
  have hdata : r.data.AllNumbers Readable :=
    allNumbers_object.mpr (List.forall_mem_cons.mpr ⟨allNumbers_string, hothers⟩)
  exact allNumbers_object.mpr (List.forall_mem_cons.mpr
    ⟨allNumbers_string, List.forall_mem_singleton.mpr hdata⟩)

theorem validateRoomId_of_member {o : Json} {s : JsString}
    (hmember : o.member (lit "room_id") = some (.string s)) :
    validateRoomId o = if h : s.trim ≠ [] then .ok ⟨s.trim, h⟩
      else .error (invalidPayload "room_id is required and must be a non-empty string") := by
  rw [validateRoomId, hmember]

/-- The dispatch on the event of a request. -/
theorem ofEvent_event (r : ClientRequest) (data : Option Json) :
    ClientFrame.ofEvent r.event data =
      match r with
      | .joinRoom .. => .ofResult .joinRoom (validateJoinRoomPayload data)
      | .leaveRoom _ => .ofResult .leaveRoom (validateRoomPayload data)
      | .sendMessage .. => .ofResult .sendMessage (validateSendMessagePayload data)
      | .typingStart _ => .ofResult .typingStart (validateRoomPayload data)
      | .typingStop _ => .ofResult .typingStop (validateRoomPayload data) := by
  rcases r with _ | _ | _ | _ | _
  all_goals rfl

/-- What the validators make of the payload of a request. -/
theorem ClientRequest.ofJson_toJson (r : ClientRequest) :
    ClientFrame.ofJson r.toJson = r.frame := by
  have hdispatch : ClientFrame.ofJson r.toJson = .ofEvent r.event (some r.data) := rfl
  have hmember : r.data.member (lit "room_id") = some (.string r.roomId) := by
    rcases r with ⟨_, _ | _⟩ | _ | _ | _ | _
    all_goals rfl
  have hroom := validateRoomId_of_member hmember
  have hobject : validateObject (some r.data) = .ok r.data := rfl
  rw [hdispatch, ofEvent_event, frame]
  by_cases h : r.roomId.trim ≠ []
  · rw [dif_pos h] at hroom ⊢
    rcases r with ⟨roomId, _ | q⟩ | roomId | ⟨roomId, content⟩ | roomId | roomId
    · simp only [validateJoinRoomPayload, hobject, hroom, bind, Except.bind]
      rfl
    · simp only [validateJoinRoomPayload, hobject, hroom, bind, Except.bind]
      rfl
    · simp only [validateRoomPayload, hobject, hroom, bind, Except.bind]
      rfl
    · have hcontent : (data (.sendMessage roomId content)).member (lit "content") =
          some (.string content) := rfl
      simp only [validateSendMessagePayload, hobject, hroom, hcontent, bind, Except.bind]
      split
      · rfl
      · rfl
    · simp only [validateRoomPayload, hobject, hroom, bind, Except.bind]
      rfl
    · simp only [validateRoomPayload, hobject, hroom, bind, Except.bind]
      rfl
  · rw [dif_neg h] at hroom ⊢
    rcases r with _ | _ | _ | _ | _
    · simp only [validateJoinRoomPayload, hobject, hroom, bind, Except.bind]
      rfl
    · simp only [validateRoomPayload, hobject, hroom, bind, Except.bind]
      rfl
    · simp only [validateSendMessagePayload, hobject, hroom, bind, Except.bind]
      rfl
    · simp only [validateRoomPayload, hobject, hroom, bind, Except.bind]
      rfl
    · simp only [validateRoomPayload, hobject, hroom, bind, Except.bind]
      rfl

theorem ClientRequest.receivedFrame_toBytes (h : r.Writable) :
    receivedFrame r.toBytes = some r.frame := by
  rw [receivedFrame, toBytes, Json.ofBytes_toBytes (allNumbers h), Option.map_some, ofJson_toJson]

/-! ## From the frame to the request -/

/-- The request that a frame makes; a `last_seen_seq` that is infinite cannot be written. -/
def ClientFrame.request? : ClientFrame → Option ClientRequest
  | .joinRoom payload =>
    match payload.lastSeenSeq with
    | none => some (.joinRoom payload.roomId none)
    | some (.finite q) => some (.joinRoom payload.roomId (some q))
    | some .nan | some (.infinity _) => none
  | .leaveRoom payload => some (.leaveRoom payload.roomId)
  | .sendMessage payload => some (.sendMessage payload.roomId payload.content)
  | .typingStart payload => some (.typingStart payload.roomId)
  | .typingStop payload => some (.typingStop payload.roomId)
  | .null | .unknown | .invalid _ => none

theorem ClientRequest.frame_of_trim (htrim : r.roomId.trim = r.roomId)
    (hrequest : frame.request? = some r) : r.frame = frame := by
  rcases frame with _ | _ | _ | ⟨⟨room, hne⟩, _ | _ | _ | q, hnan⟩ | ⟨room, hne⟩ |
    ⟨⟨room, hne⟩, content, hcontent⟩ | ⟨room, hne⟩ | ⟨room, hne⟩
  all_goals
    rcases hrequest
  all_goals
    rw [ClientRequest.roomId] at htrim
    rw [ClientRequest.frame, dif_pos (by rw [ClientRequest.roomId, htrim]; exact hne)]
    simp only [htrim, Option.map_none, Option.map_some]
  exact dif_pos hcontent

/-! ### What the validators guarantee -/

theorem trim_of_validateRoomPayload {data : Option Json} {payload : RoomPayload}
    (h : validateRoomPayload data = .ok payload) : payload.roomId.trim = payload.roomId := by
  obtain ⟨o, -, h⟩ := ok_of_bind_eq_ok h
  rw [validateRoomId] at h
  split at h
  · split at h
    · cases h
      exact JsString.trim_trim _
    · cases h
  · cases h

theorem isRounded_of_validateJoinRoomPayload {data : Json} (hdata : data.AllNumbers IsRounded)
    {payload : JoinRoomPayload} (h : validateJoinRoomPayload (some data) = .ok payload)
    {n : JsNumber} (hn : payload.lastSeenSeq = some n) : IsRounded n := by
  obtain ⟨o, hobject, h⟩ := ok_of_bind_eq_ok h
  obtain ⟨room, -, h⟩ := ok_of_bind_eq_ok h
  have ho : o = data := by
    rcases data with _ | _ | _ | _ | _ | members
    all_goals
      cases hobject
    rfl
  split at h
  · cases h
    cases hn
  · cases h
    cases hn
  · rename_i m hmember
    split at h
    · cases h
      obtain rfl := Option.some.inj hn
      rw [ho] at hmember
      exact hdata.member hmember _ .number
    · cases h
  · cases h

/-- The dispatch of a frame that makes a request. -/
theorem exists_ofEvent {v : Json} (hv : v.AllNumbers IsRounded)
    (hrequest : (ClientFrame.ofJson v).request? = some r) :
    ∃ event data, ClientFrame.ofJson v = .ofEvent event data ∧
      ∀ w ∈ data, Json.AllNumbers IsRounded w := by
  obtain ⟨members, rfl⟩ : ∃ members, v = .object members := by
    rcases v with _ | _ | _ | _ | _ | members
    · cases hrequest
    · cases hrequest
    · cases hrequest
    · cases hrequest
    · cases hrequest
    · exact ⟨members, rfl⟩
  simp only [ClientFrame.ofJson] at hrequest ⊢
  split at hrequest
  · exact ⟨_, _, rfl, fun w hw ↦ hv.member hw⟩
  · cases hrequest

/-- A request that was read can be written, and its `room_id` has been trimmed. -/
theorem writable_of_receivedFrame (h : receivedFrame raw = some frame)
    (hrequest : frame.request? = some r) : r.Writable ∧ r.roomId.trim = r.roomId := by
  obtain ⟨v, hv, rfl⟩ := Option.map_eq_some_iff.mp h
  obtain ⟨event, data, hdispatch, hdata⟩ := exists_ofEvent (Json.allNumbers_parse hv) hrequest
  rw [hdispatch, ClientFrame.ofEvent] at hrequest
  -- The three requests that carry a room only.
  have hroom : ∀ (ask : RoomId → ClientRequest) {build : RoomPayload → ClientFrame},
      (∀ payload, (build payload).request? = some (ask payload.roomId)) →
      (∀ roomId, (ask roomId).Writable ∧ (ask roomId).roomId = roomId) →
      (ClientFrame.ofResult build (validateRoomPayload data)).request? = some r →
      r.Writable ∧ r.roomId.trim = r.roomId := by
    intro ask build hbuild hask hrequest
    rcases hresult : validateRoomPayload data with err | payload
    · rw [hresult] at hrequest
      cases hrequest
    · rw [hresult, ClientFrame.ofResult, hbuild] at hrequest
      obtain rfl := Option.some.inj hrequest
      obtain ⟨hwritable, hroomId⟩ := hask payload.roomId
      rw [hroomId]
      exact ⟨hwritable, trim_of_validateRoomPayload hresult⟩
  split_ifs at hrequest
  · rcases hresult : validateJoinRoomPayload data with err | payload
    · rw [hresult] at hrequest
      cases hrequest
    · have htrim := trim_of_validateRoomPayload (validateRoomPayload_of_join hresult)
      rw [hresult, ClientFrame.ofResult, ClientFrame.request?] at hrequest
      -- Only a finite cursor, or none, makes a request that JSON can carry.
      rcases hcursor : payload.lastSeenSeq with _ | _ | _ | q
      · rw [hcursor] at hrequest
        obtain rfl := Option.some.inj hrequest
        exact ⟨nofun, htrim⟩
      · rw [hcursor] at hrequest
        cases hrequest
      · rw [hcursor] at hrequest
        cases hrequest
      · rw [hcursor] at hrequest
        obtain rfl := Option.some.inj hrequest
        refine ⟨?_, htrim⟩
        rintro _ ⟨⟩
        rcases data with _ | w
        · cases hresult
        · obtain ⟨x, hx⟩ := isRounded_of_validateJoinRoomPayload (hdata w rfl) hresult hcursor
          exact JsNumber.isDouble_of_round hx.symm
  · exact hroom .leaveRoom (fun _ ↦ rfl) (fun _ ↦ ⟨trivial, rfl⟩) hrequest
  · rcases hresult : validateSendMessagePayload data with err | payload
    · rw [hresult] at hrequest
      cases hrequest
    · rw [hresult] at hrequest
      obtain rfl := Option.some.inj hrequest
      exact ⟨trivial, trim_of_validateRoomPayload (validateRoomPayload_of_send hresult)⟩
  · exact hroom .typingStart (fun _ ↦ rfl) (fun _ ↦ ⟨trivial, rfl⟩) hrequest
  · exact hroom .typingStop (fun _ ↦ rfl) (fun _ ↦ ⟨trivial, rfl⟩) hrequest
  · cases hrequest

/-- **Requests survive the wire.** Every request that a client can write is read as its frame, with
its text unit by unit; and every request that was read, from whatever bytes, is read again from the
bytes it is written as. -/
theorem requests_survive_wire :
    (∀ r : ClientRequest, r.Writable → receivedFrame r.toBytes = some r.frame) ∧
    ∀ (raw : List UInt8) (frame : ClientFrame) (r : ClientRequest),
      receivedFrame raw = some frame → frame.request? = some r →
        receivedFrame r.toBytes = some frame := by
  refine ⟨fun r h ↦ r.receivedFrame_toBytes h, fun raw frame r h hrequest ↦ ?_⟩
  obtain ⟨hwritable, htrim⟩ := writable_of_receivedFrame h hrequest
  rw [r.receivedFrame_toBytes hwritable, r.frame_of_trim htrim hrequest]

/-- A message with a surrogate that has no partner, for a room id with a blank after it. -/
theorem requests_survive_wire_loneSurrogate :
    receivedFrame (ClientRequest.sendMessage [0x72, 0x20] [0xD83D]).toBytes =
      some (.sendMessage ⟨⟨[0x72], by decide⟩, [0xD83D], by decide⟩) ∧
    receivedFrame (ClientRequest.sendMessage [0x72] [0xD83D]).toBytes =
      some (.sendMessage ⟨⟨[0x72], by decide⟩, [0xD83D], by decide⟩) := by
  have hfirst := requests_survive_wire.1 (.sendMessage [0x72, 0x20] [0xD83D]) trivial
  exact ⟨hfirst, requests_survive_wire.2 _ _ (.sendMessage [0x72] [0xD83D]) hfirst rfl⟩

end PostgresChat
