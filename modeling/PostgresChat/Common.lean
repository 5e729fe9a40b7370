import PostgresChat.Js.Text

/-!
# Limits, channel names and event names

The constants shared by the HTTP and WebSocket layers (`common/chat-limits.ts`,
`common/postgres-channels.ts`, `common/ws-events.ts`).
-/

namespace PostgresChat

/-- Max message content length in code units, for HTTP and WebSocket: 64 KB. -/
def maxMessageLength : ℕ := 64 * 1024

/-- A socket whose send buffer exceeds this many bytes is skipped by a broadcast: 256 KB. -/
def wsBackpressureThresholdBytes : ℕ := 256 * 1024

/-- A NOTIFY channel name. -/
abbrev Channel := JsString

/-- A room id as the node handles it: the text a client sent, or the text after a channel's prefix.
Two spellings of one UUID are two room ids. -/
abbrev RoomId := JsString

/-- The id of a user: the text of `users.id`, carried unchanged through the token's `sub`. -/
abbrev UserId := JsString

def presenceChannel : Channel := JsString.lit "presence"

def typingChannel : Channel := JsString.lit "typing"

/-- The prefix of the per-room channels. -/
def roomChannelPrefix : JsString := JsString.lit "room:"

/-- The NOTIFY channel of a room. -/
def getRoomNotifyChannel (roomId : RoomId) : Channel := roomChannelPrefix ++ roomId

theorem getRoomNotifyChannel_injective : Function.Injective getRoomNotifyChannel :=
  fun _ _ h ↦ List.append_cancel_left h

@[simp] theorem getRoomNotifyChannel_inj {r r' : RoomId} :
    getRoomNotifyChannel r = getRoomNotifyChannel r' ↔ r = r' :=
  getRoomNotifyChannel_injective.eq_iff

theorem getRoomNotifyChannel_head (r : RoomId) : (getRoomNotifyChannel r).head? = some 0x72 := rfl

@[simp] theorem getRoomNotifyChannel_ne_presence (r : RoomId) :
    getRoomNotifyChannel r ≠ presenceChannel :=
  fun h ↦ absurd (congrArg List.head? h) (by rw [getRoomNotifyChannel_head]; decide)

@[simp] theorem getRoomNotifyChannel_ne_typing (r : RoomId) :
    getRoomNotifyChannel r ≠ typingChannel :=
  fun h ↦ absurd (congrArg List.head? h) (by rw [getRoomNotifyChannel_head]; decide)

/-- What the emitter's listener receives as room id: the channel without its prefix. -/
theorem drop_getRoomNotifyChannel (r : RoomId) :
    (getRoomNotifyChannel r).drop roomChannelPrefix.length = r := List.drop_left

/-! ## Events sent by the client -/

def joinRoomEvent : JsString := JsString.lit "join_room"

def leaveRoomEvent : JsString := JsString.lit "leave_room"

def sendMessageEvent : JsString := JsString.lit "send_message"

def typingStartEvent : JsString := JsString.lit "typing_start"

def typingStopEvent : JsString := JsString.lit "typing_stop"

end PostgresChat
