import PostgresChat.Chat.Http
import PostgresChat.Js.Encode

/-!
# A message over WebSocket and over HTTP

Two checks stand in front of the same INSERT. `validateSendMessagePayload` counts the code units of
the content and sets no lower bound; `SendMessageDto` lets validator.js count, which takes a
surrogate pair for one character, and refuses the empty string. So a content leads to the INSERT
either on both ways or on neither exactly when it is not empty and does not exceed the limit in code
units only (`sends_alike_iff`).

Two packages stand in front of `postMessage`. Express's body parser hands a body on or refuses it,
by a limit of its own; validator.js counts.
-/

namespace PostgresChat

/-! ## The body of a POST -/

/-- The packages in front of `postMessage`. -/
structure HttpPackages where
  /-- The body parser hands the body on. -/
  readsBody : Json → Bool
  /-- The length that `MinLength` and `MaxLength` bound. -/
  isLength : JsString → ℕ
  isLength_le : ∀ s, isLength s ≤ s.length
  isLength_pos : ∀ s, s ≠ [] → 0 < isLength s

/-- A validated body. -/
structure SendMessageDto (lib : HttpPackages) where
  content : JsString
  minLength : 1 ≤ lib.isLength content
  maxLength : lib.isLength content ≤ maxMessageLength

/-- The members that every object has from `Object.prototype`. -/
def objectPrototypeNames : List JsString :=
  [JsString.lit "constructor", JsString.lit "__proto__", JsString.lit "hasOwnProperty",
    JsString.lit "isPrototypeOf", JsString.lit "propertyIsEnumerable", JsString.lit "toString",
    JsString.lit "toLocaleString", JsString.lit "valueOf", JsString.lit "__defineGetter__",
    JsString.lit "__defineSetter__", JsString.lit "__lookupGetter__",
    JsString.lit "__lookupSetter__"]

/-- The ValidationPipe with `SendMessageDto`. Members that the class does not have are forbidden,
except that those every object has are dropped before the check. -/
def validateSendMessageDto (lib : HttpPackages) : Json → Option (SendMessageDto lib)
  | .object members =>
    if members.all fun m ↦ m.1 = JsString.lit "content" ∨ m.1 ∈ objectPrototypeNames then
      match (Json.object members).member (JsString.lit "content") with
      | some (.string content) =>
        if h : 1 ≤ lib.isLength content ∧ lib.isLength content ≤ maxMessageLength then
          some ⟨content, h.1, h.2⟩
        else none
      | _ => none
    else none
  | _ => none

/-- The first `await` of a POST with a body; `none` when it is answered without one. -/
def postMessage (lib : HttpPackages) (roomId : RoomId) (body : Json) : Option HttpStage :=
  if lib.readsBody body then
    (validateSendMessageDto lib body).map fun dto ↦
      (HttpRequest.postMessage roomId dto.content).first
  else none

/-! ## What a handler issues -/

/-- From an `await` a handler comes to issue the query, its queries before being answered from the
tables. `query` is the query awaited, `proceed` the code up to the next `await`. -/
inductive Issues {α : Type} (query : α → Option Query) (proceed : α → QueryResult → Option α) :
    Db → α → Query → Prop
  | now {db : Db} {stage : α} {q : Query} (awaited : query stage = some q) :
      Issues query proceed db stage q
  | later {db db' : Db} {stage stage' : α} {q q' : Query} {result : QueryResult}
      {notes : List Notification} (awaited : query stage = some q')
      (answered : db.exec q' = some (db', result, notes))
      (proceeds : proceed stage result = some stage') (issues : Issues query proceed db' stage' q) :
      Issues query proceed db stage q

def Request.query? : Request → Option Query
  | .query q => some q
  | .subscribe _ | .unsubscribe _ => none

def Next.awaited? : Next → Option Stage
  | .await stage => some stage
  | .returned | .threw => none

def HttpNext.awaited? : HttpNext → Option HttpStage
  | .await stage => some stage
  | .respond _ => none

/-- A chat handler, from an `await` on. -/
def Stage.Issues (userId : UserId) (nodeId : JsString) : Db → Stage → Query → Prop :=
  PostgresChat.Issues (fun stage ↦ (stage.request userId nodeId).query?)
    fun stage result ↦ (stage.proceed result).next.awaited?

/-- A controller, from an `await` on. -/
def HttpStage.Issues (userId : UserId) : Db → HttpStage → Query → Prop :=
  PostgresChat.Issues (fun stage ↦ (stage.statement userId).query?)
    fun stage result ↦ (stage.proceed result).awaited?

/-- A `send_message` frame of the user with these data leads to the query. -/
def FrameIssues (nodeId : JsString) (db : Db) (userId : UserId) (data : Json) (q : Query) : Prop :=
  ∃ stage, (handleFrame userId (.ofEvent sendMessageEvent (some data))).next = .await stage ∧
    stage.Issues userId nodeId db q

/-- A POST of the user to the messages of the room with this body leads to the query. -/
def PostIssues (lib : HttpPackages) (db : Db) (userId : UserId) (roomId : RoomId) (body : Json)
    (q : Query) : Prop :=
  ∃ stage, postMessage lib roomId body = some stage ∧ stage.Issues userId db q

section

variable {db : Db} {r : Uuid} {userId : UserId} {roomId : RoomId} {content : JsString}

theorem exec_selectMember (hroom : Uuid.parse roomId = some r)
    (hmember : db.isMember r userId = true) :
    db.exec (.selectMember roomId userId) = some (db, .rows 1, []) := by
  simp [Db.exec, hroom, hmember]

/-- A member's message is inserted, once the payload is accepted. -/
theorem Stage.issues_sendMember (nodeId : JsString) (hroom : Uuid.parse roomId = some r)
    (hmember : db.isMember r userId = true) :
    (Stage.sendMember roomId content).Issues userId nodeId db
      (.insertMessage roomId userId content) :=
  .later rfl (exec_selectMember hroom hmember) rfl (.now rfl)

theorem HttpStage.issues_postMember (hroom : Uuid.parse roomId = some r)
    (hmember : db.isMember r userId = true) :
    (HttpStage.postMember roomId content).Issues userId db
      (.insertMessage roomId userId content) :=
  .later rfl (exec_selectMember hroom hmember) rfl (.now rfl)

/-! ## The two ways -/

theorem ofEvent_sendMessage (data : Option Json) :
    ClientFrame.ofEvent sendMessageEvent data =
      .ofResult .sendMessage (validateSendMessagePayload data) := by
  rw [ClientFrame.ofEvent, if_neg (by decide), if_neg (by decide), if_pos rfl]

/-- What the validator says of an object with a room id and a content. -/
theorem validateSendMessagePayload_object {members : List (JsString × Json)}
    (hroom : (Json.object members).member (JsString.lit "room_id") = some (.string roomId))
    (hcontent : (Json.object members).member (JsString.lit "content") = some (.string content))
    (htrim : roomId.trim = roomId) (hne : roomId ≠ []) :
    validateSendMessagePayload (some (.object members)) =
      if h : content.length ≤ maxMessageLength then .ok ⟨⟨roomId, hne⟩, content, h⟩
      else .error messageTooLong := by
  have hvalid : validateRoomId (.object members) = .ok ⟨roomId, hne⟩ := by
    rw [validateRoomId, hroom]
    simp only [htrim]
    exact dif_pos hne
  simp only [validateSendMessagePayload, validateObject, hvalid, hcontent, bind, Except.bind]
  rfl

/-- Over WebSocket a member's content is inserted when its code units do not exceed the limit. -/
theorem frameIssues_iff {members : List (JsString × Json)} (nodeId : JsString)
    (huser : userId ≠ []) (hparse : Uuid.parse roomId = some r)
    (hmember : db.isMember r userId = true)
    (hroom : (Json.object members).member (JsString.lit "room_id") = some (.string roomId))
    (hcontent : (Json.object members).member (JsString.lit "content") = some (.string content)) :
    FrameIssues nodeId db userId (.object members) (.insertMessage roomId userId content) ↔
      content.length ≤ maxMessageLength := by
  have hne : roomId ≠ [] := by
    rintro rfl
    cases hparse
  rw [FrameIssues, ofEvent_sendMessage, validateSendMessagePayload_object hroom hcontent
    (Uuid.trim_of_parse hparse) hne, handleFrame.eq_def, if_neg huser]
  by_cases hlength : content.length ≤ maxMessageLength
  · rw [dif_pos hlength]
    refine iff_of_true
      ⟨.sendMember roomId content, ?_, Stage.issues_sendMember nodeId hparse hmember⟩ hlength
    rw [ClientFrame.ofResult]
    exact congrArg Turn.next (handleSendMessage_eq _)
  · rw [dif_neg hlength]
    refine iff_of_false ?_ hlength
    rintro ⟨stage, hstage, -⟩
    cases hstage

/-- The body that carries a content. -/
def contentBody (content : JsString) : Json := .object [(JsString.lit "content", .string content)]

/-- The first `await` of a POST with a content. -/
theorem postMessage_contentBody (lib : HttpPackages) :
    postMessage lib roomId (contentBody content) =
      if lib.readsBody (contentBody content) = true ∧ 1 ≤ lib.isLength content ∧
        lib.isLength content ≤ maxMessageLength then some (.postMember roomId content)
      else none := by
  have hbody : (contentBody content).member (JsString.lit "content") = some (.string content) := rfl
  by_cases hreads : lib.readsBody (contentBody content) = true
  · have hall : ([(JsString.lit "content", Json.string content)].all
        fun m ↦ m.1 = JsString.lit "content" ∨ m.1 ∈ objectPrototypeNames) = true := by simp
    rw [postMessage, if_pos hreads, contentBody, validateSendMessageDto, if_pos hall,
      ← contentBody, hbody]
    by_cases hlength : 1 ≤ lib.isLength content ∧ lib.isLength content ≤ maxMessageLength
    · rw [if_pos ⟨hreads, hlength⟩]
      simp only [dif_pos hlength]
      rfl
    · rw [if_neg fun h ↦ hlength h.2]
      simp only [dif_neg hlength]
      rfl
  · rw [postMessage, if_neg hreads, if_neg fun h ↦ hreads h.1]

/-- Over HTTP it is inserted when the body is read and validator.js counts at least one and not more
characters than the limit. -/
theorem postIssues_iff (lib : HttpPackages) (hparse : Uuid.parse roomId = some r)
    (hmember : db.isMember r userId = true) :
    PostIssues lib db userId roomId (contentBody content) (.insertMessage roomId userId content) ↔
      lib.readsBody (contentBody content) = true ∧ 1 ≤ lib.isLength content ∧
        lib.isLength content ≤ maxMessageLength := by
  rw [PostIssues, postMessage_contentBody]
  constructor
  · rintro ⟨stage, hstage, -⟩
    by_contra hnot
    rw [if_neg hnot] at hstage
    cases hstage
  · intro h
    rw [if_pos h]
    exact ⟨_, rfl, HttpStage.issues_postMember hparse hmember⟩

end

theorem HttpPackages.one_le_isLength_iff (lib : HttpPackages) (s : JsString) :
    1 ≤ lib.isLength s ↔ s ≠ [] := by
  constructor
  · rintro hpos rfl
    exact absurd (hpos.trans (lib.isLength_le [])) (by decide)
  · exact lib.isLength_pos s

/-- A member's message is inserted over WebSocket if and only if it is inserted over HTTP, exactly
when: the body parser hands the body on, the content is not empty, and it exceeds the limit in code
units only if it does so in characters; or the body parser refuses the body, and the content exceeds
the limit in code units. -/
theorem sends_alike_iff (lib : HttpPackages) {db : Db} {r user : Uuid} {roomId content : JsString}
    {members : List (JsString × Json)} (nodeId : JsString) (hparse : Uuid.parse roomId = some r)
    (hmember : db.isMember r user.text = true)
    (hroom : (Json.object members).member (JsString.lit "room_id") = some (.string roomId))
    (hcontent : (Json.object members).member (JsString.lit "content") = some (.string content)) :
    (FrameIssues nodeId db user.text (.object members) (.insertMessage roomId user.text content) ↔
      PostIssues lib db user.text roomId (contentBody content)
        (.insertMessage roomId user.text content)) ↔
    (lib.readsBody (contentBody content) = true ∧ content ≠ [] ∧
        (maxMessageLength < content.length → maxMessageLength < lib.isLength content)) ∨
      (lib.readsBody (contentBody content) = false ∧ maxMessageLength < content.length) := by
  rw [frameIssues_iff nodeId user.text_ne_nil hparse hmember hroom hcontent,
    postIssues_iff lib hparse hmember, lib.one_le_isLength_iff, ← Bool.not_eq_true]
  have hle := lib.isLength_le content
  constructor
  · intro h
    by_cases hreads : lib.readsBody (contentBody content) = true
    · refine Or.inl ⟨hreads, ?_, fun hlong ↦ ?_⟩
      · rintro rfl
        exact (h.mp (Nat.zero_le _)).2.1 rfl
      · by_contra hshort
        refine absurd (h.mpr ⟨hreads, ?_, Nat.not_lt.mp hshort⟩) (Nat.not_le.mpr hlong)
        rintro rfl
        exact absurd hlong (by decide)
    · exact Or.inr ⟨hreads, Nat.not_le.mp fun hshort ↦ hreads (h.mp hshort).1⟩
  · rintro (⟨hreads, hne, hlong⟩ | ⟨hreads, hlong⟩)
    · constructor
      · exact fun hshort ↦ ⟨hreads, hne, hle.trans hshort⟩
      · rintro ⟨-, -, hshort⟩
        exact Nat.not_lt.mp fun h ↦ absurd (hlong h) (Nat.not_lt.mpr hshort)
    · exact iff_of_false (Nat.not_le.mpr hlong) fun h ↦ hreads h.1

/-! ## Examples -/

theorem length_codePoints_le (s : JsString) : (JsString.codePoints s).length ≤ s.length := by
  induction s using JsString.codePoints.induct with
  | case1 => exact le_rfl
  | case2 u => exact le_rfl
  | case3 u v s hpair ih =>
    rw [JsString.codePoints, if_pos hpair]
    simp only [List.length_cons]
    omega
  | case4 u v s hpair ih =>
    rw [JsString.codePoints, if_neg hpair]
    simp only [List.length_cons] at ih ⊢
    omega

theorem length_codePoints_pos (s : JsString) (hs : s ≠ []) :
    0 < (JsString.codePoints s).length := by
  cases s using JsString.codePoints.fun_cases with
  | case1 => exact absurd rfl hs
  | case2 u => exact Nat.one_pos
  | case3 u v s hpair =>
    rw [JsString.codePoints, if_pos hpair]
    exact Nat.succ_pos _
  | case4 u v s hpair =>
    rw [JsString.codePoints, if_neg hpair]
    exact Nat.succ_pos _

/-- Bodies within the parser's limit; a surrogate pair counts as one. -/
def HttpPackages.counting : HttpPackages where
  readsBody _ := true
  isLength s := (JsString.codePoints s).length
  isLength_le := length_codePoints_le
  isLength_pos := length_codePoints_pos

/-- The tables with one user, who is a member of one room. -/
def memberDb : Db where
  users := [(Uuid.nil.text, JsString.lit "alice")]
  rooms := [.nil]
  roomMembers := [(.nil, Uuid.nil.text)]

/-- The data of a `send_message` frame to the room. -/
def sendData (content : JsString) : List (JsString × Json) :=
  [(JsString.lit "room_id", .string Uuid.nil.text), (JsString.lit "content", .string content)]

theorem sends_alike_iff_hello :
    (FrameIssues [] memberDb Uuid.nil.text (.object (sendData (.lit "hello")))
        (.insertMessage Uuid.nil.text Uuid.nil.text (.lit "hello")) ↔
      PostIssues .counting memberDb Uuid.nil.text Uuid.nil.text (contentBody (.lit "hello"))
        (.insertMessage Uuid.nil.text Uuid.nil.text (.lit "hello"))) ↔
    (HttpPackages.counting.readsBody (contentBody (.lit "hello")) = true ∧
        JsString.lit "hello" ≠ [] ∧
        (maxMessageLength < (JsString.lit "hello").length →
          maxMessageLength < HttpPackages.counting.isLength (.lit "hello"))) ∨
      (HttpPackages.counting.readsBody (contentBody (.lit "hello")) = false ∧
        maxMessageLength < (JsString.lit "hello").length) :=
  sends_alike_iff .counting [] (Uuid.parse_text _) (by decide) rfl rfl

/-- 65535 letters and a surrogate pair. -/
def lettersAndPair : JsString := List.replicate 65535 0x61 ++ [0xD83D, 0xDE00]

/-- The pair counts as one. -/
theorem isLength_lettersAndPair : HttpPackages.counting.isLength lettersAndPair = 65536 := by
  have hletters : ∀ n, (JsString.codePoints (List.replicate n 0x61 ++ [0xD83D, 0xDE00])).length =
      n + 1 := by
    intro n
    induction n with
    | zero => rfl
    | succ n ih =>
      rw [List.replicate_succ, List.cons_append, JsString.codePoints_cons_of_isAscii rfl,
        List.length_cons, ih]
  exact hletters 65535

/-- The empty message is inserted over WebSocket only, and a message that a surrogate pair takes
over the limit in code units over HTTP only. -/
theorem sends_not_alike :
    (FrameIssues [] memberDb Uuid.nil.text (.object (sendData []))
        (.insertMessage Uuid.nil.text Uuid.nil.text []) ∧
      ¬ PostIssues .counting memberDb Uuid.nil.text Uuid.nil.text (contentBody [])
        (.insertMessage Uuid.nil.text Uuid.nil.text [])) ∧
    ¬ FrameIssues [] memberDb Uuid.nil.text (.object (sendData lettersAndPair))
        (.insertMessage Uuid.nil.text Uuid.nil.text lettersAndPair) ∧
      PostIssues .counting memberDb Uuid.nil.text Uuid.nil.text (contentBody lettersAndPair)
        (.insertMessage Uuid.nil.text Uuid.nil.text lettersAndPair) := by
  have hmember : memberDb.isMember .nil Uuid.nil.text = true := by decide
  have hlength : lettersAndPair.length = 65537 := by
    rw [lettersAndPair, List.length_append, List.length_replicate]
    rfl
  refine ⟨⟨?_, fun h ↦ ?_⟩, fun h ↦ ?_, ?_⟩
  · exact (frameIssues_iff [] (Uuid.text_ne_nil _) (Uuid.parse_text _) hmember rfl rfl).mpr
      (Nat.zero_le _)
  · exact absurd ((postIssues_iff .counting (Uuid.parse_text _) hmember).mp h).2.1 (by decide)
  · have hle := (frameIssues_iff [] (Uuid.text_ne_nil _) (Uuid.parse_text _) hmember rfl rfl).mp h
    rw [hlength] at hle
    exact absurd hle (by decide)
  · refine (postIssues_iff .counting (Uuid.parse_text _) hmember).mpr ⟨rfl, ?_⟩
    rw [isLength_lettersAndPair]
    decide

end PostgresChat
