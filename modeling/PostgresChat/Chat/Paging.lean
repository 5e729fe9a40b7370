import PostgresChat.Chat.Service

/-!
# Catching up page by page

A client that was away asks for the messages it has missed by `join_room` with a `last_seen_seq`. A
page holds at most 100 messages, so the client repeats the request with the `next_cursor` of the
page, as the load test's `runReconnect` does.

The cursor of a page that is not empty is the `seq` of a row, and node-postgres returns a `BIGINT`
column as text. So the client gets a string, sends it back, and the validator refuses it: it wants
`last_seen_seq` to be a number. Only the cursor of an empty page is the number the client sent.
-/

namespace PostgresChat

/-! ## A handler to whom nothing happens -/

/-- What the promise awaited at a stage is fulfilled with, when its statement runs on `db`. -/
def Stage.fulfil (db : Db) (userId : UserId) (nodeId : JsString) (stage : Stage) :
    Option QueryResult :=
  match stage.request userId nodeId with
  | .query q => (db.exec q).map fun res ↦ res.2.1
  | .subscribe _ | .unsubscribe _ => some .command

/-- The frames of a turn and of the turns after it, `n` at most, when every promise is fulfilled
that can be. -/
def Turn.frames (db : Db) (userId : UserId) (nodeId : JsString) : ℕ → Turn → List ServerFrame
  | 0, turn => turn.send.toList.map Send.frame
  | n + 1, turn =>
    turn.send.toList.map Send.frame ++
      match turn.next with
      | .await stage =>
        match stage.fulfil db userId nodeId with
        | some result => Turn.frames db userId nodeId n (stage.proceed result)
        | none => []
      | .returned | .threw => []

def ServerFrame.history? : ServerFrame → Option (List MessageRow × Cursor)
  | .history messages nextCursor => some (messages, nextCursor)
  | _ => none

/-- The history frame that answers a `join_room` with the payload `data`, while the tables are those
of `db`. -/
def catchUp (db : Db) (userId : UserId) (nodeId : JsString) (data : Json) :
    Option (List MessageRow × Cursor) :=
  ((handleFrame userId (.ofEvent joinRoomEvent (some data))).frames db userId nodeId 4).findSome?
    ServerFrame.history?

/-! ## Requests and cursors -/

/-- The payload of `join_room`. -/
def joinRequest (roomId : JsString) (lastSeenSeq : Json) : Json :=
  .object [(JsString.lit "room_id", .string roomId), (JsString.lit "last_seen_seq", lastSeenSeq)]

/-- A cursor as the client gets it: a `BIGINT` column is text, and the only numbers JSON has are
finite. -/
def Cursor.toJson : Cursor → Json
  | .seq n => .string (JsNumber.decimal n)
  | .lastSeenSeq (.finite q) => .number (.finite q)
  | .lastSeenSeq .nan | .lastSeenSeq (.infinity _) => .null

/-- The position in the history that a cursor stands for. -/
def Cursor.position : Cursor → Option ℚ
  | .seq n => some n
  | .lastSeenSeq (.finite q) => some q
  | .lastSeenSeq .nan | .lastSeenSeq (.infinity _) => none

section

variable {roomId : JsString} {cursor : Json}

theorem validateObject_joinRequest :
    validateObject (some (joinRequest roomId cursor)) = .ok (joinRequest roomId cursor) := rfl

theorem validateRoomId_joinRequest (hroom : roomId.trim ≠ []) :
    validateRoomId (joinRequest roomId cursor) = .ok ⟨roomId.trim, hroom⟩ := by
  have hmember : (joinRequest roomId cursor).member (JsString.lit "room_id") =
      some (.string roomId) := rfl
  rw [validateRoomId, hmember]
  exact dif_pos hroom

theorem member_joinRequest :
    (joinRequest roomId cursor).member (JsString.lit "last_seen_seq") = some cursor := rfl

/-- A number is accepted. -/
theorem validateJoinRoomPayload_number {n : JsNumber} (hroom : roomId.trim ≠ []) (hn : n ≠ .nan) :
    validateJoinRoomPayload (some (joinRequest roomId (.number n))) =
      .ok ⟨⟨roomId.trim, hroom⟩, some n, fun h ↦ hn (Option.some.inj h)⟩ := by
  simp only [validateJoinRoomPayload, validateObject_joinRequest,
    validateRoomId_joinRequest hroom, member_joinRequest, bind, Except.bind, dif_pos hn]
  rfl

/-- A string is not. -/
theorem validateJoinRoomPayload_string (text : JsString) :
    ∃ err, validateJoinRoomPayload (some (joinRequest roomId (.string text))) = .error err := by
  simp only [validateJoinRoomPayload, validateObject_joinRequest, member_joinRequest, bind,
    Except.bind]
  cases validateRoomId (joinRequest roomId (.string text)) with
  | error err => exact ⟨err, rfl⟩
  | ok payload => exact ⟨_, rfl⟩

end

/-! ## Pages -/

/-- What a member is sent. -/
theorem catchUp_eq {db : Db} {userId : UserId} {nodeId roomId : JsString} {r : Uuid} {n : JsNumber}
    (huser : userId ≠ []) (hroom : Uuid.parse roomId.trim = some r)
    (hmember : db.isMember r userId = true) (hn : n ≠ .nan) :
    catchUp db userId nodeId (joinRequest roomId (.number n)) =
      (bigintParam n).map fun z ↦ (db.history r z, nextCursor (db.history r z) n) := by
  have hne : roomId.trim ≠ [] := by
    intro hnil
    rw [hnil] at hroom
    cases hroom
  have hframe : ClientFrame.ofEvent joinRoomEvent (some (joinRequest roomId (.number n))) =
      .joinRoom ⟨⟨roomId.trim, hne⟩, some n, fun h ↦ hn (Option.some.inj h)⟩ := by
    rw [ClientFrame.ofEvent, if_pos rfl, validateJoinRoomPayload_number hne hn]
    rfl
  have hmemberOk : (Stage.joinMember roomId.trim (some n)).fulfil db userId nodeId =
      some (.rows 1) := by
    simp [Stage.fulfil, Stage.request, Db.exec, hroom, hmember]
  have hhistory : (Stage.joinHistory roomId.trim n).fulfil db userId nodeId =
      (bigintParam n).map fun z ↦ .messages (db.history r z) := by
    cases hz : bigintParam n <;> simp [Stage.fulfil, Stage.request, Db.exec, hroom, hz]
  have hsubscribe : (Stage.joinSubscribe roomId.trim (some n)).fulfil db userId nodeId =
      some .command := rfl
  rw [catchUp, hframe, handleFrame, if_neg huser]
  simp only [handleJoinRoom, Turn.frames, hmemberOk, Stage.proceed, QueryResult.rowCount,
    one_ne_zero, if_false, hsubscribe, hhistory]
  cases bigintParam n with
  | none => rfl
  | some z => rfl

section

variable (dbs : ℕ → Db) (userId : UserId) (nodeId roomId : JsString) (s : ℕ)

/-- The page that answers request number `k`, with its `next_cursor`; the tables are then those of
`dbs k`. The first request asks for what comes after `s`, as `JSON.parse` reads it. -/
def page : ℕ → Option (List MessageRow × Cursor)
  | 0 => catchUp (dbs 0) userId nodeId (joinRequest roomId (.number (JsNumber.round s)))
  | k + 1 => (page k).bind fun previous ↦
    catchUp (dbs (k + 1)) userId nodeId (joinRequest roomId previous.2.toJson)

/-- Request number `k`: each repeats the one before with the `next_cursor` of its page. -/
def request : ℕ → Option Json
  | 0 => some (joinRequest roomId (.number (JsNumber.round s)))
  | k + 1 => (page dbs userId nodeId roomId s k).map fun previous ↦
    joinRequest roomId previous.2.toJson

/-- The position that request number `k` continues from. -/
def position : ℕ → Option ℚ
  | 0 => some s
  | k + 1 => (page dbs userId nodeId roomId s k).bind fun previous ↦ previous.2.position

/-- None of the first `k` pages is empty. -/
def Continues (k : ℕ) : Prop :=
  ∀ i < k, ∃ messages next,
    page dbs userId nodeId roomId s i = some (messages, next) ∧ messages ≠ []

/-- The client catches up: every request up to the first empty page is accepted and answered, a page
that is not empty advances the cursor, and the pages before an empty one are all messages after `s`
that are there by then, in the order of `seq`. -/
structure CatchesUp (r : Uuid) : Prop where
  accepted : ∀ k data, Continues dbs userId nodeId roomId s k →
    request dbs userId nodeId roomId s k = some data →
    ∃ payload, validateJoinRoomPayload (some data) = .ok payload
  answered : ∀ k, Continues dbs userId nodeId roomId s k →
    ∃ messages next, page dbs userId nodeId roomId s k = some (messages, next)
  advances : ∀ k messages next, Continues dbs userId nodeId roomId s k →
    page dbs userId nodeId roomId s k = some (messages, next) → messages ≠ [] →
    ∃ x y, position dbs userId nodeId roomId s k = some x ∧ next.position = some y ∧ x < y
  complete : ∀ k next, Continues dbs userId nodeId roomId s k →
    page dbs userId nodeId roomId s k = some ([], next) →
    (List.range k).flatMap (fun i ↦ ((page dbs userId nodeId roomId s i).map Prod.fst).getD []) =
      ((dbs k).backlog r s).insertionSort fun m m' ↦ m.seq ≤ m'.seq

end

section

variable {dbs : ℕ → Db} {userId : UserId} {nodeId roomId : JsString} {s : ℕ} {r : Uuid}

theorem history_eq_nil {db : Db} {lastSeen : ℤ} :
    db.history r lastSeen = [] ↔ db.backlog r lastSeen = [] := by
  rw [Db.history, List.take_eq_nil_iff, ← List.length_eq_zero_iff, List.length_insertionSort,
    List.length_eq_zero_iff]
  simp

theorem backlog_eq_nil {db : Db} {lastSeen : ℤ} :
    db.backlog r lastSeen = [] ↔ ∀ m ∈ db.messagesOf r, (m.seq : ℤ) ≤ lastSeen := by
  rw [Db.backlog, List.filter_eq_nil_iff]
  refine forall₂_congr fun m _ ↦ ?_
  rw [decide_eq_true_eq, not_lt]

/-- **The second request is refused.** -/
theorem not_catchesUp_of_messages {messages : List MessageRow} {next : Cursor}
    (hpage : page dbs userId nodeId roomId s 0 = some (messages, next)) (hne : messages ≠ [])
    (hnext : ∃ n, next = .seq n) : ¬ CatchesUp dbs userId nodeId roomId s r := by
  intro h
  obtain ⟨n, rfl⟩ := hnext
  have hrequest : request dbs userId nodeId roomId s 1 =
      some (joinRequest roomId (.string (JsNumber.decimal n))) := by
    rw [request, hpage]
    rfl
  have hcontinues : Continues dbs userId nodeId roomId s 1 := by
    intro i hi
    obtain rfl : i = 0 := Nat.lt_one_iff.mp hi
    exact ⟨messages, _, hpage, hne⟩
  obtain ⟨payload, hok⟩ := h.accepted 1 _ hcontinues hrequest
  obtain ⟨err, herr⟩ := validateJoinRoomPayload_string (JsNumber.decimal n)
  rw [herr] at hok
  cases hok

theorem nextCursor_of_ne_nil {messages : List MessageRow} (hne : messages ≠ []) (n : JsNumber) :
    ∃ k, nextCursor messages n = .seq k := by
  rw [nextCursor, List.getLast?_eq_some_getLast hne]
  exact ⟨_, rfl⟩

theorem round_ne_nan (q : ℚ) : JsNumber.round q ≠ .nan := by
  rw [JsNumber.round]
  dsimp only
  split_ifs <;> rintro ⟨⟩

/-- **Catching up.** A member catches up if and only if the database can read the number it sends
and there is nothing to catch up on. -/
theorem catchesUp_iff (huser : userId ≠ []) (hroom : Uuid.parse roomId.trim = some r)
    (hmember : ∀ k, (dbs k).isMember r userId = true) :
    CatchesUp dbs userId nodeId roomId s r ↔
      ∃ z, bigintParam (JsNumber.round s) = some z ∧
        ∀ m ∈ (dbs 0).messagesOf r, (m.seq : ℤ) ≤ z ∧ m.seq ≤ s := by
  have hfirst : page dbs userId nodeId roomId s 0 = (bigintParam (JsNumber.round s)).map fun z ↦
      ((dbs 0).history r z, nextCursor ((dbs 0).history r z) (JsNumber.round s)) :=
    catchUp_eq huser hroom (hmember 0) (round_ne_nan s)
  have hnone : Continues dbs userId nodeId roomId s 0 := fun i hi ↦ absurd hi (Nat.not_lt_zero i)
  constructor
  · intro h
    obtain ⟨messages, next, hpage⟩ := h.answered 0 hnone
    obtain ⟨z, hz, hmessages⟩ := Option.map_eq_some_iff.mp (hfirst.symm.trans hpage)
    obtain ⟨rfl, rfl⟩ := Prod.mk.inj hmessages
    have hempty : (dbs 0).history r z = [] := by
      by_contra hne
      exact not_catchesUp_of_messages hpage hne (nextCursor_of_ne_nil hne _) h
    rw [hempty] at hpage
    have hbacklog : (dbs 0).backlog r s = [] := by
      have hcomplete := h.complete 0 _ hnone hpage
      rw [List.range_zero, List.flatMap_nil] at hcomplete
      rw [← List.length_eq_zero_iff,
        ← List.length_insertionSort (fun m m' : MessageRow ↦ m.seq ≤ m'.seq), ← hcomplete,
        List.length_nil]
    refine ⟨z, hz, fun m hm ↦ ⟨?_, ?_⟩⟩
    · exact backlog_eq_nil.mp (history_eq_nil.mp hempty) m hm
    · exact_mod_cast backlog_eq_nil.mp hbacklog m hm
  · rintro ⟨z, hz, hall⟩
    have hempty : (dbs 0).history r z = [] :=
      history_eq_nil.mpr (backlog_eq_nil.mpr fun m hm ↦ (hall m hm).1)
    have hbacklog : (dbs 0).backlog r s = [] :=
      backlog_eq_nil.mpr fun m hm ↦ by exact_mod_cast (hall m hm).2
    rw [hz, Option.map_some, hempty] at hfirst
    -- The first page is empty, so there is no other.
    have hzero : ∀ k, Continues dbs userId nodeId roomId s k → k = 0 := by
      intro k hk
      by_contra hne
      obtain ⟨messages, next, hpage, hmessages⟩ := hk 0 (Nat.pos_of_ne_zero hne)
      rw [hfirst, Option.some.injEq, Prod.mk.injEq] at hpage
      exact hmessages hpage.1.symm
    refine ⟨fun k data hk hrequest ↦ ?_, fun k hk ↦ ?_, fun k messages next hk hpage hne ↦ ?_,
      fun k next hk hpage ↦ ?_⟩
    all_goals obtain rfl := hzero k hk
    · have hne : roomId.trim ≠ [] := by
        intro hnil
        rw [hnil] at hroom
        cases hroom
      obtain rfl := Option.some.inj hrequest
      exact ⟨_, validateJoinRoomPayload_number hne (round_ne_nan s)⟩
    · exact ⟨_, _, hfirst⟩
    · rw [hfirst, Option.some.injEq, Prod.mk.injEq] at hpage
      exact absurd hpage.1.symm hne
    · rw [hbacklog]
      rfl

/-- A room with one member and one message. -/
def Db.oneMessage : Db :=
  { roomMembers := [(.nil, [0x61])]
    messages := [⟨1, 1, .nil, [0x61], [0x61], [0x31], 0⟩] }

/-- A member who has seen the only message of the room catches up. -/
theorem catchesUp_iff_seen : CatchesUp (fun _ ↦ .oneMessage) [0x61] [] Uuid.nil.text 1 .nil :=
  (catchesUp_iff (by decide) (by decide) fun _ ↦ by decide).mpr ⟨1, by decide +kernel, by decide⟩

/-- A member who has not seen it does not: the next cursor is the string `"1"`. -/
theorem not_catchesUp_after_first_page :
    ¬ CatchesUp (fun _ ↦ .oneMessage) [0x61] [] Uuid.nil.text 0 .nil := by
  have hpage : page (fun _ ↦ .oneMessage) [0x61] [] Uuid.nil.text 0 0 =
      some (Db.oneMessage.messages, .seq 1) := by decide
  exact not_catchesUp_of_messages hpage (by decide) ⟨1, rfl⟩

end

end PostgresChat
