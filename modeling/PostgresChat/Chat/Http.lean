import PostgresChat.Chat.Service

/-!
# The controllers of rooms and messages

`ChatController.postMessage`, `RoomsController.join` and `RoomsController.leave`, with the methods
of `RoomsService` they call, cut at their `await`s as the chat handlers are. The guard in front of
them has put the user id into the request; the texts come from the path and the body as they are.
-/

namespace PostgresChat

/-- An authenticated request to one of the controllers. -/
inductive HttpRequest where
  | postMessage (roomId : RoomId) (content : JsString)
  | join (roomId : RoomId)
  | leave (roomId : RoomId)
  deriving DecidableEq

/-- What the client is answered. -/
inductive HttpResponse where
  /-- `result.rows[0]` of the INSERT. -/
  | message (row : Option MessageRow)
  | success
  | forbidden (message : JsString)
  | notFound (message : JsString)
  | serverError
  deriving DecidableEq

/-- An `await` of a controller. -/
inductive HttpStage where
  /-- `isMember`, called by `postMessage`. -/
  | postMember (roomId : RoomId) (content : JsString)
  | postInsert (roomId : RoomId) (content : JsString)
  /-- `getRoom`, called by `joinRoom`. -/
  | joinRoom (roomId : RoomId)
  | joinInsert (roomId : RoomId)
  | leaveDelete (roomId : RoomId)
  deriving DecidableEq

/-- A statement a controller awaits. -/
inductive HttpStatement where
  /-- `SELECT ... FROM rooms WHERE id = $1`. -/
  | selectRoom (roomId : RoomId)
  | query (q : Query)
  deriving DecidableEq

/-- The statement, unless it is `getRoom`, which only reads. -/
def HttpStatement.query? : HttpStatement → Option Query
  | .query q => some q
  | .selectRoom _ => none

/-- How a turn of a controller ends. -/
inductive HttpNext where
  | await (stage : HttpStage)
  | respond (response : HttpResponse)
  deriving DecidableEq

def HttpStage.statement (userId : UserId) : HttpStage → HttpStatement
  | .postMember roomId _ => .query (.selectMember roomId userId)
  | .postInsert roomId content => .query (.insertMessage roomId userId content)
  | .joinRoom roomId => .selectRoom roomId
  | .joinInsert roomId => .query (.insertMember roomId userId)
  | .leaveDelete roomId => .query (.deleteMember roomId userId)

def HttpRequest.first : HttpRequest → HttpStage
  | .postMessage roomId content => .postMember roomId content
  | .join roomId => .joinRoom roomId
  | .leave roomId => .leaveDelete roomId

/-- A controller continues after the statement was answered. -/
def HttpStage.proceed (stage : HttpStage) (result : QueryResult) : HttpNext :=
  match stage with
  | .postMember roomId content =>
    if result.rowCount = 0 then .respond (.forbidden (JsString.lit "Not a member of this room"))
    else .await (.postInsert roomId content)
  | .postInsert _ _ => .respond (.message result.messageRows.head?)
  | .joinRoom roomId =>
    if result.rowCount = 0 then .respond (.notFound (JsString.lit "Room not found"))
    else .await (.joinInsert roomId)
  | .joinInsert _ | .leaveDelete _ => .respond .success

/-- A controller continues; what it throws otherwise is answered by the framework. -/
def HttpStage.resume (stage : HttpStage) : Settled → HttpNext
  | .resolved result => stage.proceed result
  | .rejected => .respond .serverError

/-- The result of a statement that is run to its end in one step. -/
def HttpStatement.result (db : Db) : HttpStatement → Option QueryResult
  | .selectRoom roomId => (Uuid.parse roomId).map fun r ↦ .rows (if r ∈ db.rooms then 1 else 0)
  | .query q => (db.exec q).map fun res ↦ res.2.1

end PostgresChat
